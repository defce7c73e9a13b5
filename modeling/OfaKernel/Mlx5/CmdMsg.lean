-- SUMMARY: mlx5 command messages.
import OfaKernel.Lib.BigEndian
import OfaKernel.Lib.CInt
import OfaKernel.Lib.Run

/-!
# Command messages

A command's input is split over 16 bytes in the message and a chain of mailbox blocks, each with
its number, the token and two signatures.
-/

open Function List

namespace Mlx5

open BigEndian

/-! ## Blocks -/

/-- `MLX5_CMD_DATA_BLOCK_SIZE`, the size of `data` of a block. -/
def cmdDataBlockSize : Nat := 512

def firstDataSize : Nat := 16

def rsvd0Off : Nat := 512
def nextOff : Nat := 560
def blockNumOff : Nat := 568
def tokenOff : Nat := 573
def ctrlSigOff : Nat := 574
def sigOff : Nat := 575

/-- `sizeof(struct mlx5_cmd_prot_block)`. -/
def protBlockSize : Nat := 576

def cmdEnomem : Int := -12

def cmdEinval : Int := -22

/-- `struct mlx5_cmd_mailbox`; `buf` is the block. -/
structure CmdMailbox where
  buf : Mem
  dma : Nat

/-- `struct mlx5_cmd_msg`; `parent` is the number of the cache that the message belongs to. -/
structure CmdMsg where
  parent : Option Nat
  len : Nat
  first : Mem
  next : List CmdMailbox

def setByte (m : Mem) (a : Nat) (v : BitVec 8) : Mem := update m a v

/-- `mlx5_calc_cmd_blocks`; all of it is `int` arithmetic. -/
def mlx5CalcCmdBlocks (msg : CmdMsg) : Int :=
  let size := I32.wrap msg.len
  let blen := I32.wrap (size - min (firstDataSize : Int) size)
  (I32.wrap (blen + cmdDataBlockSize - 1)).tdiv cmdDataBlockSize

def xor8Buf (buf : Mem) (offset : Nat) : Nat → BitVec 8
  | 0 => 0
  | len + 1 => xor8Buf buf offset len ^^^ buf (offset + len)

def verifyBlockSig (block : Mem) : Int :=
  if xor8Buf block rsvd0Off (protBlockSize - cmdDataBlockSize - 1) ≠ 0xff then cmdEinval
  else if xor8Buf block 0 protBlockSize ≠ 0xff then cmdEinval
  else 0

def calcBlockSig (block : Mem) : Mem :=
  let block := setByte block ctrlSigOff
    (~~~xor8Buf block rsvd0Off (protBlockSize - cmdDataBlockSize - 2))
  setByte block sigOff (~~~xor8Buf block 0 (protBlockSize - 1))

/-- The loop of `calc_chain_sig`. -/
def signBlocks : Nat → List CmdMailbox → List CmdMailbox
  | 0, boxes => boxes
  | _ + 1, [] => []
  | n + 1, b :: boxes => { b with buf := calcBlockSig b.buf } :: signBlocks n boxes

def calcChainSig (msg : CmdMsg) : CmdMsg :=
  { msg with next := signBlocks (mlx5CalcCmdBlocks msg).toNat msg.next }

/-- The loop of `mlx5_copy_to_msg`; `off` is how far `from` has come. -/
def copyToBlocks (src : Mem) (token : BitVec 8) :
    List CmdMailbox → Nat → Nat → List CmdMailbox × Int
  | [], _, size => ([], if size = 0 then 0 else cmdEnomem)
  | b :: boxes, off, size =>
    if size = 0 then (b :: boxes, 0)
    else
      let n := min size cmdDataBlockSize
      let r := copyToBlocks src token boxes (off + n) (size - n)
      ({ b with buf := setByte (copy b.buf 0 src off n) tokenOff token } :: r.1, r.2)

def mlx5CopyToMsg (msg : CmdMsg) (src : Mem) (size : Nat) (token : BitVec 8) : CmdMsg × Int :=
  let n := min size firstDataSize
  let r := copyToBlocks src token msg.next n (size - n)
  ({ msg with first := copy msg.first 0 src 0 n, next := r.1 }, r.2)

/-- The loop of `mlx5_copy_from_msg`. -/
def copyFromBlocks : List CmdMailbox → Mem → Nat → Nat → Mem × Int
  | [], dst, _, size => (dst, if size = 0 then 0 else cmdEnomem)
  | b :: boxes, dst, off, size =>
    if size = 0 then (dst, 0)
    else
      let n := min size cmdDataBlockSize
      copyFromBlocks boxes (copy dst off b.buf 0 n) (off + n) (size - n)

def mlx5CopyFromMsg (dst : Mem) (msg : CmdMsg) (size : Nat) : Mem × Int :=
  let n := min size firstDataSize
  copyFromBlocks msg.next (copy dst 0 msg.first 0 n) n (size - n)

/-- What the allocators answer: whether there is a message, and the DMA address of the block of
each turn of the loop. -/
structure CmdMem where
  kzalloc : Bool
  dma : Nat → Option Nat

/-- The block that turn `i` of the loop of `mlx5_alloc_cmd_msg` puts in front of `head`. -/
def initBlock (head : List CmdMailbox) (blockNum : Int) (token : BitVec 8) : Mem :=
  setByte (write (write (fun _ => 0) nextOff 8 (head.head?.elim 0 CmdMailbox.dma))
    blockNumOff 4 (blockNum % 2 ^ 32).toNat) tokenOff token

/-- The loop of `mlx5_alloc_cmd_msg` after `i` of `n` turns. -/
def allocBoxes (mem : CmdMem) (n : Int) (token : BitVec 8) : Nat → Option (List CmdMailbox)
  | 0 => some []
  | i + 1 =>
    match allocBoxes mem n token i, mem.dma i with
    | some head, some dma => some (⟨initBlock head (n - i - 1) token, dma⟩ :: head)
    | _, _ => none

def mlx5AllocCmdMsg (mem : CmdMem) (size : Nat) (token : BitVec 8) : Option CmdMsg :=
  if mem.kzalloc then
    let msg : CmdMsg := { parent := none, len := size, first := fun _ => 0, next := [] }
    let n := mlx5CalcCmdBlocks msg
    (allocBoxes mem n token n.toNat).map fun head => { msg with next := head }
  else none

/-! ## The caches -/

def numCommandCaches : Nat := 5

def cmdCacheNumEnt : Nat → Nat
  | 0 => 512
  | 1 => 32
  | 2 => 16
  | 3 => 8
  | _ => 2

def cmdCacheBlocks : Nat → Nat
  | 0 => 1
  | 1 => 2
  | 2 => 16
  | 3 => 256
  | _ => 512

def cmdCacheEntSize (k : Nat) : Nat := 16 + cmdDataBlockSize * cmdCacheBlocks k

/-- The message lists of the caches, and the messages in use. -/
structure CmdCaches where
  cache : Nat → List CmdMsg
  busy : List CmdMsg

/-- A new message for cache `k`. -/
def allocEnt (k : Nat) (mem : CmdMem) : Option CmdMsg :=
  (mlx5AllocCmdMsg mem (cmdCacheEntSize k) 0).map fun msg => { msg with parent := some k }

/-- The inner loop of `create_msg_cache`, from entry `i` on. -/
def fillCache (mem : Nat → CmdMem) (k : Nat) : Nat → Nat → List CmdMsg
  | _, 0 => []
  | i, n + 1 =>
    match allocEnt k (mem i) with
    | none => []
    | some msg => msg :: fillCache mem k (i + 1) n

def createMsgCache (mem : Nat → Nat → CmdMem) : CmdCaches where
  cache := fun k => if k < numCommandCaches then fillCache (mem k) k 0 (cmdCacheNumEnt k) else []
  busy := []

/-- The cache that `alloc_msg` takes a message from. -/
def findCache (c : CmdCaches) (inSize : Nat) : Option Nat :=
  if inSize ≤ 16 then none
  else (List.range numCommandCaches).find? fun k =>
    inSize ≤ cmdCacheEntSize k && !(c.cache k).isEmpty

def allocMsg (c : CmdCaches) (mem : CmdMem) (inSize : Nat) : CmdCaches × Option CmdMsg :=
  match findCache c inSize with
  | some k =>
    ({ c with cache := update c.cache k (c.cache k).tail },
      (c.cache k).head?.map fun msg => { msg with len := inSize })
  | none => (c, mlx5AllocCmdMsg mem inSize 0)

/-- `free_msg` of the message in place `i` of those in use. -/
def freeMsg (c : CmdCaches) (i : Nat) : CmdCaches :=
  match c.busy[i]? with
  | none => c
  | some msg =>
    { cache := match msg.parent with
        | some k => update c.cache k (c.cache k ++ [msg])
        | none => c.cache
      busy := c.busy.eraseIdx i }

/-- A command allocates a message, copies its input, signs the chain and frees it; `num_ent` adds
and removes messages of a cache. -/
inductive CmdAction where
  | alloc (mem : CmdMem) (inSize : Nat)
  | copyTo (i : Nat) (src : Mem) (token : BitVec 8)
  | sign (i : Nat)
  | free (i : Nat)
  | addEnt (k : Nat) (mem : CmdMem)
  | removeEnt (k : Nat)

def CmdCaches.step (c : CmdCaches) : CmdAction → CmdCaches
  | .alloc mem inSize =>
    let r := allocMsg c mem inSize
    { r.1 with busy := r.2.elim r.1.busy fun msg => msg :: r.1.busy }
  | .copyTo i src token =>
    { c with busy := c.busy.modify i fun msg => (mlx5CopyToMsg msg src msg.len token).1 }
  | .sign i => { c with busy := c.busy.modify i calcChainSig }
  | .free i => freeMsg c i
  | .addEnt k mem =>
    if k < numCommandCaches then
      { c with cache := update c.cache k (c.cache k ++ (allocEnt k mem).toList) }
    else c
  | .removeEnt k => { c with cache := update c.cache k (c.cache k).tail }

/-- The input comes back, with blocks numbered from 0 on that carry the token and pass the
verification once signed. -/
structure CmdMsg.Carries (msg : CmdMsg) (src : Mem) (inSize : Nat) (token : BitVec 8) :
    Prop where
  copied : (mlx5CopyToMsg msg src inSize token).2 = 0
  returned : ∀ dst,
    let r := mlx5CopyFromMsg dst (mlx5CopyToMsg msg src inSize token).1 inSize
    r.2 = 0 ∧ ∀ x, x < inSize → r.1 x = src x
  numbered : ∀ i : Nat, (i : Int) < mlx5CalcCmdBlocks msg →
    ∃ b, (mlx5CopyToMsg msg src inSize token).1.next[i]? = some b ∧
      read b.buf blockNumOff 4 = i ∧ b.buf tokenOff = token
  signed : ∀ b ∈ (calcChainSig (mlx5CopyToMsg msg src inSize token).1).next.take
      (mlx5CalcCmdBlocks msg).toNat, verifyBlockSig b.buf = 0

/-! ## Signatures -/

theorem xor8Buf_congr {m m' : Mem} {offset n : Nat}
    (h : ∀ x, offset ≤ x → x < offset + n → m x = m' x) :
    xor8Buf m offset n = xor8Buf m' offset n := by
  induction n with
  | zero => rfl
  | succ n ih =>
    unfold xor8Buf
    rw [h _ (Nat.le_add_right _ _) (by omega), ih fun x hlo hhi => h x hlo (by omega)]

theorem setByte_same (m : Mem) (a : Nat) (v : BitVec 8) : setByte m a v a = v :=
  update_self _ _ _

theorem setByte_of_ne {a x : Nat} (m : Mem) (v : BitVec 8) (h : x ≠ a) : setByte m a v x = m x :=
  update_of_ne h _ _

/-- A byte that complements the sum of the bytes before it makes the sum `0xff`. -/
theorem xor8Buf_complement (m : Mem) (offset n : Nat) :
    xor8Buf (setByte m (offset + n) (~~~xor8Buf m offset n)) offset (n + 1) = 0xff := by
  have hsum : xor8Buf (setByte m (offset + n) (~~~xor8Buf m offset n)) offset n =
      xor8Buf m offset n :=
    xor8Buf_congr fun x _ hhi => setByte_of_ne _ _ (by omega)
  unfold xor8Buf
  rw [hsum, setByte_same]
  apply BitVec.eq_of_getLsbD_eq
  intro i hi
  have hff : (0xff : BitVec 8) = BitVec.allOnes 8 := rfl
  rw [hff, BitVec.getLsbD_xor, BitVec.getLsbD_not, BitVec.getLsbD_allOnes]
  simp [hi]

/-- A signed block passes, whatever its bytes were. -/
theorem verifyBlockSig_calcBlockSig (block : Mem) : verifyBlockSig (calcBlockSig block) = 0 := by
  have hctrl : xor8Buf (calcBlockSig block) rsvd0Off (protBlockSize - cmdDataBlockSize - 1) =
      0xff := by
    rw [← xor8Buf_complement block rsvd0Off (protBlockSize - cmdDataBlockSize - 2)]
    -- the second signature lies behind the bytes of the first sum
    apply xor8Buf_congr
    intro x hlo hhi
    apply setByte_of_ne
    unfold rsvd0Off protBlockSize cmdDataBlockSize at hhi
    unfold sigOff
    omega
  have hall : xor8Buf (calcBlockSig block) 0 protBlockSize = 0xff := by
    unfold calcBlockSig
    generalize setByte block ctrlSigOff _ = block'
    have := xor8Buf_complement block' 0 (protBlockSize - 1)
    rwa [Nat.zero_add] at this
  unfold verifyBlockSig
  rw [if_neg (not_not.mpr hctrl), if_neg (not_not.mpr hall)]

theorem verify_signBlocks (n : Nat) (boxes : List CmdMailbox) :
    ∀ b ∈ (signBlocks n boxes).take n, verifyBlockSig b.buf = 0 := by
  induction n generalizing boxes with
  | zero => simp
  | succ n ih =>
    cases boxes with
    | nil => simp [signBlocks]
    | cons b boxes =>
      intro b' hb'
      rcases mem_cons.mp hb' with rfl | hb'
      · exact verifyBlockSig_calcBlockSig b.buf
      · exact ih boxes b' hb'

/-- The block of a box after the copy of `size` bytes from `off` on. -/
def copiedBox (src : Mem) (token : BitVec 8) (off size : Nat) (b : CmdMailbox) : CmdMailbox :=
  if size = 0 then b
  else { b with
    buf := setByte (copy b.buf 0 src off (min size cmdDataBlockSize)) tokenOff token }

/-- Box `i` gets the bytes from `512 * i` on. -/
theorem copyToBlocks_get (src : Mem) (token : BitVec 8) (boxes : List CmdMailbox)
    (off size i : Nat) :
    (copyToBlocks src token boxes off size).1[i]? =
      (boxes[i]?).map
        (copiedBox src token (off + cmdDataBlockSize * i) (size - cmdDataBlockSize * i)) := by
  induction boxes generalizing off size i with
  | nil => rfl
  | cons b boxes ih =>
    unfold copyToBlocks
    split
    case isTrue hsize =>
      have hzero : size - cmdDataBlockSize * i = 0 := by omega
      rw [hzero]
      have hid : copiedBox src token (off + cmdDataBlockSize * i) 0 = id := rfl
      rw [hid, Option.map_id]
      rfl
    case isFalse hsize =>
      cases i with
      | zero =>
        rw [List.getElem?_cons_zero, List.getElem?_cons_zero, Nat.mul_zero, Nat.add_zero,
          Nat.sub_zero, Option.map_some]
        unfold copiedBox
        rw [if_neg hsize]
      | succ i =>
        rw [List.getElem?_cons_succ, List.getElem?_cons_succ, ih]
        by_cases hmore : cmdDataBlockSize ≤ size
        · have hmin : min size cmdDataBlockSize = cmdDataBlockSize := Nat.min_eq_right hmore
          have hoff : off + cmdDataBlockSize + cmdDataBlockSize * i =
              off + cmdDataBlockSize * (i + 1) := by rw [Nat.mul_succ]; omega
          have hrest : size - cmdDataBlockSize - cmdDataBlockSize * i =
              size - cmdDataBlockSize * (i + 1) := by rw [Nat.mul_succ]; omega
          rw [hmin, hoff, hrest]
        · have hmin : min size cmdDataBlockSize = size := Nat.min_eq_left (by omega)
          have hzero : size - size - cmdDataBlockSize * i = 0 := by omega
          have hzero' : size - cmdDataBlockSize * (i + 1) = 0 := by rw [Nat.mul_succ]; omega
          rw [hmin, hzero, hzero']
          rfl

variable {boxes : List CmdMailbox} {size : Nat}

/-- Enough blocks: the copy succeeds, and copying back gives the bytes copied. -/
theorem copyFrom_copyTo (src : Mem) (token : BitVec 8) (off : Nat)
    (hsize : size ≤ cmdDataBlockSize * boxes.length) :
    (copyToBlocks src token boxes off size).2 = 0 ∧ ∀ dst,
      let r := copyFromBlocks (copyToBlocks src token boxes off size).1 dst off size
      r.2 = 0 ∧ ∀ x, r.1 x = if off ≤ x ∧ x < off + size then src x else dst x := by
  induction boxes generalizing off size with
  | nil =>
    have hzero : size = 0 := by
      exact Nat.le_zero.mp hsize
    subst hzero
    exact ⟨rfl, fun dst => ⟨rfl, fun x => (if_neg (by omega)).symm⟩⟩
  | cons b boxes ih =>
    by_cases hzero : size = 0
    · subst hzero
      exact ⟨rfl, fun dst => ⟨rfl, fun x => (if_neg (by omega)).symm⟩⟩
    · have hn : min size cmdDataBlockSize ≤ size := Nat.min_le_left _ _
      have hn' : min size cmdDataBlockSize ≤ cmdDataBlockSize := Nat.min_le_right _ _
      have hrest : size - min size cmdDataBlockSize ≤ cmdDataBlockSize * boxes.length := by
        rw [length_cons, Nat.mul_succ] at hsize
        omega
      obtain ⟨hret, hback⟩ := ih (off + min size cmdDataBlockSize) hrest
      unfold copyToBlocks
      rw [if_neg hzero]
      refine ⟨hret, fun dst => ?_⟩
      unfold copyFromBlocks
      rw [if_neg hzero]
      generalize min size cmdDataBlockSize = n at *
      obtain ⟨hret', hbytes⟩ := hback
        (copy dst off (setByte (copy b.buf 0 src off n) tokenOff token) 0 n)
      refine ⟨hret', fun x => ?_⟩
      rw [hbytes]
      by_cases hx : off ≤ x ∧ x < off + n
      · have hne : 0 + (x - off) ≠ tokenOff := by
          unfold tokenOff
          unfold cmdDataBlockSize at hn'
          omega
        have hidx : off + (0 + (x - off) - 0) = x := by omega
        rw [if_neg (by omega), if_pos (by omega), copy, if_pos hx, setByte_of_ne _ _ hne, copy,
          if_pos (by omega), hidx]
      · rw [copy_of_not _ _ _ _ _ hx]
        by_cases hx' : off + n ≤ x ∧ x < off + n + (size - n)
        · rw [if_pos hx', if_pos (by omega)]
        · rw [if_neg hx', if_neg (by omega)]

/-- The largest size whose number of blocks is an `int`. -/
def maxCmdSize : Nat := 2 ^ 31 - 496

/-- The blocks that `size` bytes need behind the first 16. -/
def neededBlocks (size : Nat) : Nat := (size - firstDataSize + 511) / cmdDataBlockSize

variable {msg : CmdMsg}

theorem mlx5CalcCmdBlocks_eq (h : msg.len ≤ maxCmdSize) :
    mlx5CalcCmdBlocks msg = neededBlocks msg.len := by
  unfold maxCmdSize at h
  have hlen : I32.wrap msg.len = msg.len := I32.wrap_of_range (by omega) (by omega)
  have hblen : (msg.len : Int) - min (16 : Int) msg.len = ((msg.len - 16 : Nat) : Int) := by omega
  unfold mlx5CalcCmdBlocks neededBlocks firstDataSize cmdDataBlockSize
  dsimp only [Nat.cast_ofNat]
  rw [hlen, hblen, I32.wrap_of_range (n := ((msg.len - 16 : Nat) : Int)) (by omega) (by omega),
    I32.wrap_of_range (by omega) (by omega), Int.tdiv_eq_ediv_of_nonneg (by omega)]
  omega

/-- Beyond it, the rounding up overflows and there are no blocks. -/
theorem mlx5CalcCmdBlocks_overflow (h : maxCmdSize < msg.len) (hint : msg.len < 2 ^ 31) :
    (mlx5CalcCmdBlocks msg).toNat = 0 := by
  unfold maxCmdSize at h
  have hlen : I32.wrap msg.len = msg.len := I32.wrap_of_range (by omega) (by omega)
  have hblen : (msg.len : Int) - min (16 : Int) msg.len = msg.len - 16 := by omega
  have hwrap : I32.wrap ((msg.len : Int) - 16 + 512 - 1) = msg.len + 495 - 2 ^ 32 := by
    unfold I32.wrap
    omega
  have hneg : ((msg.len : Int) + 495 - 2 ^ 32).tdiv 512 ≤ 0 := by
    have hsign : (msg.len : Int) + 495 - 2 ^ 32 = -(2 ^ 32 - 495 - msg.len) := by omega
    have hpos : 0 ≤ ((2 : Int) ^ 32 - 495 - msg.len).tdiv 512 :=
      Int.tdiv_nonneg (by omega) (by decide)
    rw [hsign, Int.neg_tdiv]
    omega
  unfold mlx5CalcCmdBlocks firstDataSize cmdDataBlockSize
  dsimp only [Nat.cast_ofNat]
  rw [hlen, hblen, I32.wrap_of_range (n := (msg.len : Int) - 16) (by omega) (by omega), hwrap]
  omega

/-! ## Block numbers -/

def blockNums (boxes : List CmdMailbox) : List Nat :=
  boxes.map fun b => read b.buf blockNumOff 4

theorem blockNum_congr {m m' : Mem} (h : ∀ x, blockNumOff ≤ x → x < tokenOff → m x = m' x) :
    read m blockNumOff 4 = read m' blockNumOff 4 := by
  apply read_congr
  intro x hlo hhi
  apply h x hlo
  unfold blockNumOff at hhi
  unfold tokenOff
  omega

theorem blockNums_copyToBlocks (src : Mem) (token : BitVec 8) (boxes : List CmdMailbox)
    (off size : Nat) : blockNums (copyToBlocks src token boxes off size).1 = blockNums boxes := by
  induction boxes generalizing off size with
  | nil => rfl
  | cons b boxes ih =>
    have hbuf : ∀ n ≤ cmdDataBlockSize,
        read (setByte (copy b.buf 0 src off n) tokenOff token) blockNumOff 4 =
          read b.buf blockNumOff 4 := by
      intro n hn
      apply blockNum_congr
      intro x hlo hhi
      unfold cmdDataBlockSize at hn
      unfold blockNumOff at hlo
      rw [setByte_of_ne _ _ (by omega), copy_of_not _ _ _ _ _ (by omega)]
    unfold copyToBlocks
    split
    · rfl
    · exact congrArg₂ List.cons (hbuf _ (Nat.min_le_right _ _)) (ih _ _)

theorem blockNums_signBlocks (n : Nat) (boxes : List CmdMailbox) :
    blockNums (signBlocks n boxes) = blockNums boxes := by
  induction n generalizing boxes with
  | zero => rfl
  | succ n ih =>
    cases boxes with
    | nil => rfl
    | cons b boxes =>
      have hbuf : read (calcBlockSig b.buf) blockNumOff 4 = read b.buf blockNumOff 4 := by
        apply blockNum_congr
        intro x hlo hhi
        unfold tokenOff at hhi
        unfold calcBlockSig sigOff ctrlSigOff
        rw [setByte_of_ne _ _ (by omega), setByte_of_ne _ _ (by omega)]
      exact congrArg₂ List.cons hbuf (ih boxes)

theorem calcChainSig_parent (msg : CmdMsg) : (calcChainSig msg).parent = msg.parent := by
  unfold calcChainSig
  rfl

theorem blockNums_calcChainSig (msg : CmdMsg) :
    blockNums (calcChainSig msg).next = blockNums msg.next := by
  unfold calcChainSig
  generalize (mlx5CalcCmdBlocks msg).toNat = n
  exact blockNums_signBlocks n msg.next

theorem read_initBlock (head : List CmdMailbox) {num : Nat} (token : BitVec 8)
    (h : num < 2 ^ 32) : read (initBlock head num token) blockNumOff 4 = num := by
  unfold initBlock
  generalize write (fun _ => 0) nextOff 8 _ = m
  have hread : read (setByte (write m blockNumOff 4 ((num : Int) % 2 ^ 32).toNat) tokenOff token)
      blockNumOff 4 = read (write m blockNumOff 4 ((num : Int) % 2 ^ 32).toNat) blockNumOff 4 :=
    blockNum_congr fun x _ hhi => setByte_of_ne _ _ (by omega)
  rw [hread, read_write]
  omega

variable {mem : CmdMem} {n i : Nat} {token : BitVec 8}

/-- The chain is built from its end, and numbered so that it starts with block 0. -/
theorem blockNums_allocBoxes (hi : i ≤ n) (hn : n < 2 ^ 32)
    (h : allocBoxes mem n token i = some boxes) : blockNums boxes = List.range' (n - i) i := by
  induction i generalizing boxes with
  | zero =>
    cases h
    rfl
  | succ i ih =>
    unfold allocBoxes at h
    split at h
    case h_1 head dma hhead hdma =>
      cases h
      have hnum : (n : Int) - i - 1 = ((n - (i + 1) : Nat) : Int) := by omega
      have hnext : n - i = n - (i + 1) + 1 := by omega
      have hhead' := ih (by omega) hhead
      rw [hnext] at hhead'
      rw [List.range'_succ, hnum]
      exact congrArg₂ List.cons (read_initBlock head token (by omega)) hhead'
    case h_2 => cases h

theorem blockNums_alloc (hsize : size ≤ maxCmdSize)
    (h : mlx5AllocCmdMsg mem size token = some msg) :
    msg.len = size ∧ msg.parent = none ∧ blockNums msg.next = List.range (neededBlocks size) := by
  have hblocks : ∀ head, mlx5CalcCmdBlocks ⟨none, size, fun _ => 0, head⟩ = neededBlocks size :=
    fun head => mlx5CalcCmdBlocks_eq hsize
  unfold mlx5AllocCmdMsg at h
  split at h
  case isTrue =>
    dsimp only at h
    rw [hblocks, Int.toNat_natCast] at h
    obtain ⟨head, hhead, rfl⟩ := Option.map_eq_some_iff.mp h
    have hlt : neededBlocks size < 2 ^ 32 := by
      unfold neededBlocks cmdDataBlockSize
      unfold maxCmdSize at hsize
      omega
    refine ⟨rfl, rfl, ?_⟩
    have hnums := blockNums_allocBoxes (Nat.le_refl _) hlt hhead
    rwa [Nat.sub_self, ← range_eq_range'] at hnums
  case isFalse => cases h

theorem mlx5CalcCmdBlocks_copyTo (msg : CmdMsg) (src : Mem) (size : Nat) (token : BitVec 8) :
    mlx5CalcCmdBlocks (mlx5CopyToMsg msg src size token).1 = mlx5CalcCmdBlocks msg := by
  rfl

/-- A message for a size that overflows has no block. -/
theorem mlx5AllocCmdMsg_overflow (h : maxCmdSize < size) (hint : size < 2 ^ 31)
    (hmem : mem.kzalloc = true) :
    mlx5AllocCmdMsg mem size token = some ⟨none, size, fun _ => 0, []⟩ := by
  have hnone : (mlx5CalcCmdBlocks ⟨none, size, fun _ => 0, []⟩).toNat = 0 :=
    mlx5CalcCmdBlocks_overflow h hint
  unfold mlx5AllocCmdMsg
  rw [if_pos hmem]
  dsimp only
  rw [hnone]
  rfl

/-- Without a block there is no place for more than 16 bytes. -/
theorem CmdMsg.not_carries_of_no_block (hnext : msg.next = []) (hsize : firstDataSize < size)
    (src : Mem) (token : BitVec 8) :
    ¬msg.Carries src size token := by
  intro hcarries
  have hcopied := hcarries.copied
  have hrest : size - min size firstDataSize ≠ 0 := by omega
  unfold mlx5CopyToMsg at hcopied
  rw [hnext] at hcopied
  unfold copyToBlocks at hcopied
  dsimp only at hcopied
  rw [if_neg hrest] at hcopied
  exact absurd hcopied (by decide)

theorem getElem?_of_blockNums (h : blockNums boxes = List.range n) (hi : i < n) :
    ∃ b, boxes[i]? = some b ∧ read b.buf blockNumOff 4 = i := by
  have hget : (blockNums boxes)[i]? = some i := by
    rw [h, List.getElem?_range hi]
  unfold blockNums at hget
  rw [List.getElem?_map] at hget
  exact Option.map_eq_some_iff.mp hget

theorem length_of_blockNums (h : blockNums boxes = List.range n) : boxes.length = n := by
  have hlen := congrArg List.length h
  rwa [blockNums, length_map, length_range] at hlen

theorem lt_neededBlocks (h : i < neededBlocks size) :
    cmdDataBlockSize * i < size - min size firstDataSize := by
  unfold neededBlocks firstDataSize cmdDataBlockSize at *
  omega

theorem le_of_neededBlocks (h : neededBlocks size ≤ n) :
    size - min size firstDataSize ≤ cmdDataBlockSize * n := by
  unfold neededBlocks firstDataSize cmdDataBlockSize at *
  omega

theorem CmdMsg.carries_of_blockNums (hnums : blockNums msg.next =
    List.range n) (hlen : msg.len ≤ maxCmdSize) (hn : neededBlocks msg.len ≤ n) (src : Mem)
    (token : BitVec 8) : msg.Carries src msg.len token := by
  have hroom : msg.len - min msg.len firstDataSize ≤ cmdDataBlockSize * msg.next.length := by
    rw [length_of_blockNums hnums]
    exact le_of_neededBlocks hn
  obtain ⟨hret, hback⟩ := copyFrom_copyTo src token (min msg.len firstDataSize) hroom
  constructor
  case copied => exact hret
  case returned =>
    intro dst
    obtain ⟨hret', hbytes⟩ := hback
      (copy dst 0 (copy msg.first 0 src 0 (min msg.len firstDataSize)) 0
        (min msg.len firstDataSize))
    refine ⟨hret', fun x hx => (hbytes x).trans ?_⟩
    split
    case isTrue => rfl
    case isFalse hout =>
      rw [copy, if_pos ⟨Nat.zero_le _, by omega⟩, copy, if_pos ⟨Nat.zero_le _, by omega⟩]
      congr 1
      omega
  case numbered =>
    intro i hi
    rw [mlx5CalcCmdBlocks_eq hlen] at hi
    have hi : i < neededBlocks msg.len := Int.ofNat_lt.mp hi
    obtain ⟨b, hb, hnum⟩ := getElem?_of_blockNums hnums (Nat.lt_of_lt_of_le hi hn)
    have hnums' := blockNums_copyToBlocks src token msg.next (min msg.len firstDataSize)
      (msg.len - min msg.len firstDataSize)
    rw [hnums] at hnums'
    obtain ⟨b', hb', hnum'⟩ := getElem?_of_blockNums hnums' (Nat.lt_of_lt_of_le hi hn)
    refine ⟨b', hb', hnum', ?_⟩
    have hsize := lt_neededBlocks hi
    rw [copyToBlocks_get, hb, Option.map_some] at hb'
    cases hb'
    unfold copiedBox
    rw [if_neg (by omega)]
    dsimp only
    rw [setByte_same]
  case signed =>
    unfold calcChainSig
    rw [mlx5CalcCmdBlocks_copyTo]
    generalize (mlx5CalcCmdBlocks msg).toNat = n
    exact verify_signBlocks n _

/-! ## The caches in every run -/

/-- The message belongs to cache `k` and has as many numbered blocks as the cache gives. -/
structure EntOk (k : Nat) (msg : CmdMsg) : Prop where
  index : k < numCommandCaches
  parent : msg.parent = some k
  blocks : blockNums msg.next = List.range (cmdCacheBlocks k)

namespace CmdCaches

/-- The messages of a cache, in it or in use, are as the cache made them. -/
structure Wf (c : CmdCaches) : Prop where
  cached : ∀ k, ∀ msg ∈ c.cache k, EntOk k msg
  busy : ∀ msg ∈ c.busy, ∀ k, msg.parent = some k → EntOk k msg

theorem neededBlocks_cache (k : Nat) :
    cmdCacheEntSize k ≤ maxCmdSize ∧ neededBlocks (cmdCacheEntSize k) = cmdCacheBlocks k := by
  unfold cmdCacheEntSize cmdCacheBlocks
  split <;> decide

variable {k : Nat} {mem : CmdMem} {msg : CmdMsg}

theorem allocEnt_ok (hk : k < numCommandCaches) (h : allocEnt k mem = some msg) : EntOk k msg := by
  obtain ⟨hmax, hneeded⟩ := neededBlocks_cache k
  obtain ⟨msg', hmsg', rfl⟩ := Option.map_eq_some_iff.mp h
  obtain ⟨-, -, hnums⟩ := blockNums_alloc hmax hmsg'
  rw [hneeded] at hnums
  exact ⟨hk, rfl, hnums⟩

theorem fillCache_ok {mem : Nat → CmdMem} (hk : k < numCommandCaches) (i n : Nat) :
    ∀ msg ∈ fillCache mem k i n, EntOk k msg := by
  induction n generalizing i with
  | zero => simp [fillCache]
  | succ n ih =>
    unfold fillCache
    split
    case h_1 => simp
    case h_2 msg hmsg =>
      intro msg' hmsg'
      rcases mem_cons.mp hmsg' with rfl | hmsg'
      · exact allocEnt_ok hk hmsg
      · exact ih _ msg' hmsg'

theorem createMsgCache_wf (mem : Nat → Nat → CmdMem) : (createMsgCache mem).Wf := by
  constructor
  case cached =>
    intro k msg hmsg
    unfold createMsgCache at hmsg
    dsimp only at hmsg
    split at hmsg
    case isTrue hk => exact fillCache_ok hk _ _ msg hmsg
    case isFalse => cases hmsg
  case busy => simp [createMsgCache]

variable {c : CmdCaches}

theorem Wf.update_cache (h : c.Wf) {msgs : List CmdMsg} (hk : ∀ msg ∈ msgs, EntOk k msg) :
    Wf { c with cache := update c.cache k msgs } := by
  refine ⟨fun k' msg hmsg => ?_, h.busy⟩
  dsimp only at hmsg
  by_cases heq : k' = k
  · subst heq
    rw [update_self] at hmsg
    exact hk msg hmsg
  · rw [update_of_ne heq] at hmsg
    exact h.cached k' msg hmsg

/-- A message in use is changed, and stays in its cache with its block numbers. -/
theorem Wf.modify_busy (h : c.Wf) (i : Nat) {f : CmdMsg → CmdMsg}
    (hparent : ∀ msg, (f msg).parent = msg.parent)
    (hblocks : ∀ msg, blockNums (f msg).next = blockNums msg.next) :
    Wf { c with busy := c.busy.modify i f } := by
  refine ⟨h.cached, fun msg hmsg k hk => ?_⟩
  obtain ⟨j, hj⟩ := mem_iff_getElem?.mp hmsg
  rw [List.getElem?_modify] at hj
  split at hj
  case isTrue =>
    obtain ⟨msg', hmsg', rfl⟩ := Option.map_eq_some_iff.mp hj
    rw [hparent] at hk
    have hent := h.busy msg' (mem_of_getElem? hmsg') k hk
    exact ⟨hent.index, (hparent msg').trans hk, (hblocks msg').trans hent.blocks⟩
  case isFalse =>
    have hj : c.busy[j]? = some msg := by simpa using hj
    exact h.busy msg (mem_of_getElem? hj) k hk

variable {inSize : Nat}

theorem findCache_some (h : findCache c inSize = some k) :
    k < numCommandCaches ∧ inSize ≤ cmdCacheEntSize k := by
  unfold findCache at h
  split at h
  case isTrue => cases h
  case isFalse =>
    have hmem := mem_of_find?_eq_some h
    have hfits := List.find?_some h
    rw [Bool.and_eq_true, decide_eq_true_eq] at hfits
    exact ⟨mem_range.mp hmem, hfits.1⟩

theorem Wf.tail (h : c.Wf) (k : Nat) :
    Wf { c with cache := update c.cache k (c.cache k).tail } :=
  h.update_cache fun msg hmsg => h.cached k msg (mem_of_mem_tail hmsg)

/-- What `alloc_msg` returns: a message of a cache with room, or a new one. -/
theorem Wf.allocMsg_cases (h : c.Wf) (hmsg : (allocMsg c mem inSize).2 = some msg) :
    (msg.len = inSize ∧ ∃ k, inSize ≤ cmdCacheEntSize k ∧ EntOk k msg) ∨
      mlx5AllocCmdMsg mem inSize 0 = some msg := by
  unfold allocMsg at hmsg
  split at hmsg
  case h_1 k hk =>
    obtain ⟨msg', hmsg', rfl⟩ := Option.map_eq_some_iff.mp hmsg
    have hent := h.cached k msg' (mem_of_head? hmsg')
    exact .inl ⟨rfl, k, (findCache_some hk).2, hent.index, hent.parent, hent.blocks⟩
  case h_2 => exact .inr hmsg

theorem mlx5AllocCmdMsg_parent {size : Nat} {token : BitVec 8}
    (h : mlx5AllocCmdMsg mem size token = some msg) : msg.parent = none ∧ msg.len = size := by
  unfold mlx5AllocCmdMsg at h
  split at h
  case isTrue =>
    obtain ⟨head, -, rfl⟩ := Option.map_eq_some_iff.mp h
    exact ⟨rfl, rfl⟩
  case isFalse => cases h

theorem Wf.allocMsg_fst (h : c.Wf) (mem : CmdMem) (inSize : Nat) :
    (allocMsg c mem inSize).1.Wf ∧ (allocMsg c mem inSize).1.busy = c.busy := by
  unfold allocMsg
  split
  · exact ⟨h.tail _, rfl⟩
  · exact ⟨h, rfl⟩

theorem Wf.alloc (h : c.Wf) (mem : CmdMem) (inSize : Nat) :
    (c.step (.alloc mem inSize)).Wf := by
  obtain ⟨hwf, hbusy⟩ := h.allocMsg_fst mem inSize
  unfold step
  dsimp only
  cases hmsg : (allocMsg c mem inSize).2 with
  | none => exact hwf
  | some msg =>
    refine ⟨hwf.cached, fun msg' hmsg' k hk => ?_⟩
    rcases mem_cons.mp hmsg' with rfl | hmsg'
    · rcases h.allocMsg_cases hmsg with ⟨-, k', -, hent⟩ | hnew
      · have heq : k' = k := Option.some.inj (hent.parent.symm.trans hk)
        exact heq ▸ hent
      · rw [(mlx5AllocCmdMsg_parent hnew).1] at hk
        cases hk
    · exact hwf.busy msg' hmsg' k hk

theorem Wf.free (h : c.Wf) (i : Nat) : (freeMsg c i).Wf := by
  unfold freeMsg
  split
  case h_1 => exact h
  case h_2 msg hmsg =>
    have hmem := mem_of_getElem? hmsg
    have hbusy : Wf { c with busy := c.busy.eraseIdx i } :=
      ⟨h.cached, fun m hm => h.busy m (mem_of_mem_eraseIdx hm)⟩
    split
    case h_1 k hk =>
      refine hbusy.update_cache fun m hm => ?_
      rcases mem_append.mp hm with hm | hm
      · exact h.cached k m hm
      · rw [mem_singleton.mp hm]
        exact h.busy msg hmem k hk
    case h_2 => exact hbusy

theorem Wf.step (h : c.Wf) (a : CmdAction) : (c.step a).Wf := by
  cases a with
  | alloc mem inSize => exact h.alloc mem inSize
  | copyTo i src token =>
    exact h.modify_busy i (fun _ => rfl) fun msg => blockNums_copyToBlocks _ _ _ _ _
  | sign i => exact h.modify_busy i calcChainSig_parent blockNums_calcChainSig
  | free i => exact h.free i
  | addEnt k mem =>
    unfold CmdCaches.step
    dsimp only
    split
    case isTrue hk =>
      refine h.update_cache fun msg hmsg => ?_
      rcases mem_append.mp hmsg with hmsg | hmsg
      · exact h.cached k msg hmsg
      · exact allocEnt_ok hk (Option.mem_toList.mp hmsg)
    case isFalse => exact h
  | removeEnt k => exact h.tail k

/-- A message that `alloc_msg` returns carries its input exactly if the rounding up of the size
does not overflow. -/
theorem Wf.carries_iff (h : c.Wf) (hint : inSize < 2 ^ 31)
    (hmsg : (allocMsg c mem inSize).2 = some msg) (src : Mem) (token : BitVec 8) : msg.Carries src
    inSize token ↔ inSize ≤ maxCmdSize := by
  constructor
  · intro hcarries
    by_contra hlarge
    rcases h.allocMsg_cases hmsg with ⟨-, k, hfits, -⟩ | hnew
    · have hmax := (neededBlocks_cache k).1
      omega
    · have hmem : mem.kzalloc = true := by
        by_contra hmem
        rw [mlx5AllocCmdMsg, if_neg hmem] at hnew
        cases hnew
      rw [mlx5AllocCmdMsg_overflow (Nat.lt_of_not_le hlarge) hint hmem] at hnew
      cases hnew
      have hfirst : firstDataSize < inSize :=
        Nat.lt_trans (by decide) (Nat.lt_of_not_le hlarge)
      exact CmdMsg.not_carries_of_no_block rfl hfirst src token hcarries
  · intro hsize
    rcases h.allocMsg_cases hmsg with ⟨hlen, k, hfits, hent⟩ | hnew
    · have hneeded : neededBlocks inSize ≤ cmdCacheBlocks k := by
        rw [← (neededBlocks_cache k).2]
        exact Nat.div_le_div_right (by omega)
      rw [← hlen] at hsize hneeded ⊢
      exact CmdMsg.carries_of_blockNums hent.blocks hsize hneeded src token
    · obtain ⟨hlen, -, hnums⟩ := blockNums_alloc hsize hnew
      rw [← hlen] at hsize hnums ⊢
      exact CmdMsg.carries_of_blockNums hnums hsize (Nat.le_refl _) src token

/-- In every state of the caches, every message that `alloc_msg` returns for an `int` size
carries its input exactly if the size is at most `maxCmdSize`. -/
theorem alloc_msg_carries_iff (mem₀ : Nat → Nat → CmdMem) (actions : List CmdAction) :
    ∀ c ∈ Run.states CmdCaches.step (createMsgCache mem₀) actions,
      ∀ (mem : CmdMem) (inSize : Nat) (msg : CmdMsg), inSize < 2 ^ 31 →
        (allocMsg c mem inSize).2 = some msg → ∀ (src : Mem) (token : BitVec 8),
          msg.Carries src inSize token ↔ inSize ≤ maxCmdSize := by
  intro c hc mem inSize msg hint hmsg src token
  have hwf : c.Wf :=
    (Run.steps_true _ actions).invariant (fun _ a hs _ => hs.step a) (createMsgCache_wf mem₀) c hc
  exact hwf.carries_iff hint hmsg src token

/-- All allocations succeed. -/
def allMem : CmdMem := ⟨true, fun i => some (0x1000 * i)⟩

/-- No allocation succeeds. -/
def noMem : CmdMem := ⟨false, fun _ => none⟩

/-- A message of two blocks for 600 bytes, with empty caches. -/
theorem alloc_msg_carries_600 :
    ∃ msg, (allocMsg (createMsgCache fun _ _ => noMem) allMem 600).2 = some msg ∧
      msg.Carries (fun _ => 7) 600 1 := by
  refine ⟨_, rfl, ?_⟩
  apply (alloc_msg_carries_iff (fun _ _ => noMem) [] _ (Run.start_mem_states _ _) allMem 600 _
    (by decide) rfl _ _).mpr
  decide

/-- A message for 2147483153 bytes has no block, and nothing can be copied to it. -/
theorem no_block_for_large_input :
    ∃ msg, (allocMsg (createMsgCache fun _ _ => noMem) allMem 2147483153).2 = some msg ∧
      msg.next.length = 0 ∧ ¬msg.Carries (fun _ => 7) 2147483153 1 := by
  refine ⟨⟨none, 2147483153, fun _ => 0, []⟩, ?_, rfl,
    CmdMsg.not_carries_of_no_block rfl (by decide) _ _⟩
  have hlarge : maxCmdSize < 2147483153 := by decide
  have hnew : mlx5AllocCmdMsg allMem 2147483153 0 = some ⟨none, 2147483153, fun _ => 0, []⟩ :=
    mlx5AllocCmdMsg_overflow hlarge (by decide) rfl
  exact hnew

end CmdCaches

end Mlx5
