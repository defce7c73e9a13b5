-- SUMMARY: `svc_rdma_xdr_decode_req` and the words it reads.
import OfaKernel.Lib.CInt
import OfaKernel.Svcrdma.TransportHeader
import Mathlib.Tactic.Linarith

/-!
# Decoding a call header

`svc_rdma_xdr_decode_req` compares its word pointer with the end of the message after some of its
steps only. The model keeps the indices of the words that were read.
-/

open List

namespace Svcrdma

/-! ## Memory -/

/-- A computation together with the words it read. -/
structure Traced (α : Type) where
  reads : List Nat
  val : α

instance : Monad Traced where
  pure a := ⟨[], a⟩
  bind t f := ⟨t.reads ++ (f t.val).reads, (f t.val).val⟩

/-- The sizes of the kernel build: `RPCSVC_MAXPAGES` and `PAGE_SHIFT`. -/
structure PageSizes where
  rpcsvcMaxpages : Nat
  pageShift : Nat

def PageSizes.maxBytesWriteSeg (k : PageSizes) : Nat := U32.wrap (k.rpcsvcMaxpages <<< k.pageShift)

def PageSizes.maxBytesSpecialSeg (k : PageSizes) : Nat :=
  U32.wrap ((k.rpcsvcMaxpages + 2) <<< k.pageShift)

/-- The receive buffer. `word i` is the big-endian word at `iov_base + 4 * i`; memory goes on
after the `len` bytes of the message. `sc_max_req_size` is an `int`. -/
structure RqArg where
  word : Nat → Nat
  len : Nat
  iovLen : Nat
  len_lt : len < 2 ^ 31

namespace RqArg

def be32 (m : RqArg) (p : Nat) : Traced Nat := ⟨[p], m.word p⟩

/-- The head of the buffer moved past a header of `p` words. -/
def advance (m : RqArg) (p : Nat) : RqArg where
  word i := m.word (p + i)
  len := m.len - 4 * p
  iovLen := m.iovLen - 4 * p
  len_lt := Nat.lt_of_le_of_lt (Nat.sub_le _ _) m.len_lt

end RqArg

/-! ## The decoder -/

/-- `xdr_check_read_list`, `position` being set after the first entry. -/
def xdrCheckReadList (k : PageSizes) (m : RqArg) (position : Option Nat) (p : Nat) :
    Traced (Option Nat) := do
  let mark ← m.be32 p
  if mark = 0 then return some (p + 1)
  let pos ← m.be32 (p + 1)
  if position.getD pos ≠ pos then return none
  let length ← m.be32 (p + 3)
  if k.maxBytesSpecialSeg < length then return none
  if m.len < 4 * (p + 6) then return none
  else xdrCheckReadList k m (some pos) (p + 6)
termination_by m.len - 4 * p

def xdrCheckSegments (m : RqArg) (maxlen : Nat) : Nat → Nat → Traced (Option Nat)
  | 0, p => pure (some p)
  | n + 1, p => do
    let length ← m.be32 (p + 1)
    if maxlen < length then return none
    if m.len < 4 * (p + 4) then return none
    else xdrCheckSegments m maxlen n (p + 4)

def xdrCheckWriteChunk (m : RqArg) (maxlen p : Nat) : Traced (Option Nat) := do
  let segcount ← m.be32 p
  xdrCheckSegments m maxlen segcount (p + 1)

/-- `xdr_check_write_list`, from the chunk numbered `chcount` on. -/
def xdrCheckWriteList (k : PageSizes) (m : RqArg) (chcount p : Nat) : Traced (Option Nat) := do
  let mark ← m.be32 p
  if mark = 0 then return some (p + 1)
  match ← xdrCheckWriteChunk m k.maxBytesWriteSeg (p + 1) with
  | none => return none
  | some p => if chcount > 1 then return none else xdrCheckWriteList k m (chcount + 1) p
termination_by 2 - chcount

def xdrCheckReplyChunk (k : PageSizes) (m : RqArg) (p : Nat) : Traced (Option Nat) := do
  let mark ← m.be32 p
  if mark = 0 then return some (p + 1)
  xdrCheckWriteChunk m k.maxBytesSpecialSeg (p + 1)

def rpcrdmaHdrlenErr : Nat := 20

def eINVAL : Int := -22

def ePROTONOSUPPORT : Int := -93

inductive RdmaProc where
  | msg
  | nomsg
  | msgp
  | done
  | error
  | unknown
  deriving Repr, DecidableEq

def RdmaProc.ofWord : Nat → RdmaProc
  | 0 => .msg
  | 1 => .nomsg
  | 2 => .msgp
  | 3 => .done
  | 4 => .error
  | _ => .unknown

/-- `xdr_check_read_list`, `xdr_check_write_list` and `xdr_check_reply_chunk` one
after the other. -/
def xdrCheckLists (k : PageSizes) (m : RqArg) : Traced (Option Nat) := do
  match ← xdrCheckReadList k m none 4 with
  | none => return none
  | some p =>
    match ← xdrCheckWriteList k m 0 p with
    | none => return none
    | some p => xdrCheckReplyChunk k m p

/-- `svc_rdma_xdr_decode_req`: the returned value and the buffer afterwards. -/
def svcRdmaXdrDecodeReq (k : PageSizes) (m : RqArg) : Traced (Int × RqArg) := do
  if m.len ≤ rpcrdmaHdrlenErr then return (eINVAL, m)
  let version ← m.be32 1
  if version ≠ 1 then return (ePROTONOSUPPORT, m)
  let proc ← m.be32 3
  match RdmaProc.ofWord proc with
  | .done => return (0, m)
  | .error => return (0, m)
  | .msgp => return (eINVAL, m)
  | .unknown => return (eINVAL, m)
  | .msg | .nomsg =>
    match ← xdrCheckLists k m with
    | none => return (eINVAL, m)
    | some p =>
      if m.len < 4 * p then return (eINVAL, m)
      return (I32.wrap (U32.wrap (4 * p)), m.advance p)

/-! ## Words inside the message -/

namespace RqArg

/-- The four bytes of the word belong to the message. -/
def Inside (m : RqArg) (i : Nat) : Prop := 4 * i + 4 ≤ m.len

instance (m : RqArg) (i : Nat) : Decidable (m.Inside i) := inferInstanceAs (Decidable (_ ≤ _))

/-- The words that lie in the message as a whole. -/
def words (m : RqArg) : List Nat := (List.range (m.len / 4)).map m.word

variable {i : Nat}

theorem drop_words {m : RqArg} (h : m.Inside i) :
    m.words.drop i = m.word i :: m.words.drop (i + 1) := by
  have hi : i < m.words.length := by
    simp only [words, length_map, length_range]
    unfold Inside at h
    omega
  rw [drop_eq_getElem_cons hi]
  simp [words]

theorem drop_words_eq_nil {m : RqArg} (h : ¬ m.Inside i) : m.words.drop i = [] := by
  apply drop_eq_nil_of_le
  simp only [words, length_map, length_range]
  unfold Inside at h
  omega

theorem Inside.of_le {m : RqArg} {i j : Nat} (h : m.Inside j) (hij : i ≤ j) : m.Inside i := by
  unfold Inside at *
  omega

/-- Two words on: the second of them decides. -/
theorem drop_words_two {m : RqArg} (h : m.Inside (i + 1)) :
    m.words.drop i = m.word i :: m.word (i + 1) :: m.words.drop (i + 2) := by
  rw [drop_words (h.of_le (Nat.le_succ i)), drop_words h]

theorem drop_words_short {m : RqArg} (h : ¬ m.Inside (i + 1)) :
    m.words.drop i = [] ∨ m.words.drop i = [m.word i] := by
  by_cases hi : m.Inside i
  · rw [drop_words hi, drop_words_eq_nil h]
    exact .inr rfl
  · exact .inl (drop_words_eq_nil hi)

end RqArg

/-- Where the walk over the words is cut the check reads beyond the message, otherwise it stays
inside and ends as the walk does. -/
def Follows (m : RqArg) (t : Traced (Option Nat)) : Walk (List Nat) → Prop
  | .cut => ∃ i ∈ t.reads, ¬ m.Inside i
  | .refused => (∀ i ∈ t.reads, m.Inside i) ∧ t.val = none
  | .complete ws => (∀ i ∈ t.reads, m.Inside i) ∧
      ∃ p, t.val = some p ∧ 4 * p ≤ m.len ∧ m.words.drop p = ws

namespace Follows

variable {m : RqArg}

theorem refuse : Follows m (pure none) .refused := ⟨by simp [pure], rfl⟩

theorem accept {p : Nat} (h : 4 * p ≤ m.len) :
    Follows m (pure (some p)) (.complete (m.words.drop p)) :=
  ⟨by simp [pure], p, rfl, h, rfl⟩

theorem outside {p : Nat} {f : Nat → Traced (Option Nat)} (h : ¬ m.Inside p) :
    Follows m (m.be32 p >>= f) .cut :=
  ⟨p, by simp [bind, RqArg.be32], h⟩

/-- A read inside the message changes nothing. -/
theorem word {p : Nat} {f : Nat → Traced (Option Nat)} {w : Walk (List Nat)} (h : m.Inside p)
    (hf : Follows m (f (m.word p)) w) : Follows m (m.be32 p >>= f) w := by
  have hreads : (m.be32 p >>= f).reads = p :: (f (m.word p)).reads := rfl
  have hval : (m.be32 p >>= f).val = (f (m.word p)).val := rfl
  cases w with
  | cut =>
    obtain ⟨i, hi, hout⟩ := hf
    exact ⟨i, by rw [hreads]; exact mem_cons_of_mem _ hi, hout⟩
  | refused =>
    exact ⟨by rw [hreads]; exact forall_mem_cons.mpr ⟨h, hf.1⟩, hval.trans hf.2⟩
  | complete ws =>
    refine ⟨by rw [hreads]; exact forall_mem_cons.mpr ⟨h, hf.1⟩, ?_⟩
    exact hf.2

/-- Two checks one after the other, the second one only if the first succeeds. -/
theorem andThen {t : Traced (Option Nat)} {f : Option Nat → Traced (Option Nat)}
    {w : Walk (List Nat)} {g : List Nat → Walk (List Nat)} (ht : Follows m t w)
    (hnone : f none = pure none)
    (hsome : ∀ p, 4 * p ≤ m.len → Follows m (f (some p)) (g (m.words.drop p))) :
    Follows m (t >>= f) (w.bind g) := by
  have hreads : (t >>= f).reads = t.reads ++ (f t.val).reads := rfl
  have hval : (t >>= f).val = (f t.val).val := rfl
  cases w with
  | cut =>
    obtain ⟨i, hi, hout⟩ := ht
    exact ⟨i, by rw [hreads]; exact mem_append_left _ hi, hout⟩
  | refused =>
    rw [ht.2, hnone] at hreads hval
    refine ⟨?_, hval⟩
    rw [hreads]
    simpa [pure] using ht.1
  | complete ws =>
    obtain ⟨hin, p, hp, hlen, rfl⟩ := ht
    rw [hp] at hreads hval
    have hf := hsome p hlen
    simp only [Walk.bind_complete]
    cases hg : g (m.words.drop p) with
    | cut =>
      obtain ⟨i, hi, hout⟩ := hg ▸ hf
      exact ⟨i, by rw [hreads]; exact mem_append_right _ hi, hout⟩
    | refused =>
      rw [hg] at hf
      exact ⟨by rw [hreads]; exact forall_mem_append.mpr ⟨hin, hf.1⟩, hval.trans hf.2⟩
    | complete ws =>
      rw [hg] at hf
      refine ⟨by rw [hreads]; exact forall_mem_append.mpr ⟨hin, hf.1⟩, ?_⟩
      rw [hval]
      exact hf.2

end Follows

theorem xdrCheckReadList_follows (k : PageSizes) (m : RqArg) (position : Option Nat) (p : Nat) :
    Follows m (xdrCheckReadList k m position p)
      (readListWalk k.maxBytesSpecialSeg position (m.words.drop p)) := by
  -- the induction is on the bytes left, which the check of the end bounds
  induction hn : m.len - 4 * p using Nat.strong_induction_on generalizing position p with
  | _ n ih =>
    rw [xdrCheckReadList]
    by_cases h0 : m.Inside p
    case neg =>
      rw [RqArg.drop_words_eq_nil h0, readListWalk]
      exact .outside h0
    rw [RqArg.drop_words h0, readListWalk.eq_def]
    apply Follows.word h0
    by_cases hmark : m.word p = 0
    · simp only [hmark, ↓reduceIte]
      exact .accept h0
    simp only [hmark, ↓reduceIte]
    by_cases h1 : m.Inside (p + 1)
    case neg =>
      rw [RqArg.drop_words_eq_nil h1]
      exact .outside h1
    rw [RqArg.drop_words h1]
    apply Follows.word h1
    dsimp only
    split
    next => exact .refuse
    next =>
      by_cases h3 : m.Inside (p + 3)
      case neg =>
        rcases RqArg.drop_words_short h3 with h | h <;> rw [h] <;> exact .outside h3
      rw [RqArg.drop_words_two h3]
      apply Follows.word h3
      dsimp only
      split
      next => exact .refuse
      next =>
        by_cases h5 : m.Inside (p + 5)
        · rw [if_neg (by unfold RqArg.Inside at h5; omega), RqArg.drop_words_two h5]
          exact ih _ (by unfold RqArg.Inside at h5; omega) _ _ rfl
        · rw [if_pos (by unfold RqArg.Inside at h5; omega)]
          rcases RqArg.drop_words_short h5 with h | h <;> rw [h] <;> exact .refuse

theorem xdrCheckSegments_follows (m : RqArg) (maxlen n p : Nat) (hp : 4 * p ≤ m.len) :
    Follows m (xdrCheckSegments m maxlen n p) (segmentsWalk maxlen n (m.words.drop p)) := by
  induction n generalizing p with
  | zero => exact .accept hp
  | succ n ih =>
    by_cases h1 : m.Inside (p + 1)
    case neg =>
      rcases RqArg.drop_words_short h1 with h | h <;> rw [h] <;> exact .outside h1
    rw [RqArg.drop_words_two h1, segmentsWalk]
    apply Follows.word h1
    split
    next => exact .refuse
    next =>
      by_cases h3 : m.Inside (p + 3)
      · rw [if_neg (by unfold RqArg.Inside at h3; omega), RqArg.drop_words_two h3]
        exact ih (p + 4) h3
      · rw [if_pos (by unfold RqArg.Inside at h3; omega)]
        rcases RqArg.drop_words_short h3 with h | h <;> rw [h] <;> exact .refuse

theorem xdrCheckWriteChunk_follows (m : RqArg) (maxlen p : Nat) :
    Follows m (xdrCheckWriteChunk m maxlen p) (chunkWalk maxlen (m.words.drop p)) := by
  by_cases h : m.Inside p
  · rw [RqArg.drop_words h, chunkWalk]
    exact .word h (xdrCheckSegments_follows m maxlen _ (p + 1) h)
  · rw [RqArg.drop_words_eq_nil h]
    exact .outside h

theorem xdrCheckReplyChunk_follows (k : PageSizes) (m : RqArg) (p : Nat) :
    Follows m (xdrCheckReplyChunk k m p)
      (replyChunkWalk k.maxBytesSpecialSeg (m.words.drop p)) := by
  by_cases h : m.Inside p
  case neg =>
    rw [RqArg.drop_words_eq_nil h]
    exact .outside h
  rw [RqArg.drop_words h, replyChunkWalk]
  apply Follows.word h
  split
  next => exact .accept h
  next => exact xdrCheckWriteChunk_follows m _ (p + 1)

/-- The write list of a decoder that refuses the chunk after `allowed` more. -/
theorem xdrCheckWriteList_follows (k : PageSizes) (m : RqArg) {allowed : Nat} (ha : allowed ≤ 2)
    (p : Nat) :
    Follows m (xdrCheckWriteList k m (2 - allowed) p)
      ((writeListWalk k.maxBytesWriteSeg allowed (m.words.drop p)).bind
        fun r => .complete r.2) := by
  induction allowed generalizing p with
  | zero =>
    rw [xdrCheckWriteList]
    by_cases h : m.Inside p
    case neg =>
      rw [RqArg.drop_words_eq_nil h]
      exact .outside h
    rw [RqArg.drop_words h, writeListWalk]
    apply Follows.word h
    split
    next => exact .accept h
    next =>
      rw [Walk.bind_assoc]
      refine Follows.andThen (xdrCheckWriteChunk_follows m _ (p + 1)) rfl ?_
      intro q hq
      exact .refuse
  | succ allowed ih =>
    rw [xdrCheckWriteList]
    by_cases h : m.Inside p
    case neg =>
      rw [RqArg.drop_words_eq_nil h]
      exact .outside h
    rw [RqArg.drop_words h, writeListWalk]
    apply Follows.word h
    split
    next => exact .accept h
    next =>
      rw [Walk.bind_assoc]
      refine Follows.andThen (xdrCheckWriteChunk_follows m _ (p + 1)) rfl ?_
      intro q hq
      have hch : ¬ 2 - (allowed + 1) > 1 := by omega
      have hnext : 2 - (allowed + 1) + 1 = 2 - allowed := by omega
      simp only [hch, ↓reduceIte, hnext, Walk.bind_assoc, Walk.bind_complete]
      exact ih (by omega) q

theorem xdrCheckLists_follows (k : PageSizes) (m : RqArg) :
    Follows m (xdrCheckLists k m)
      ((listsWalk k.maxBytesSpecialSeg k.maxBytesWriteSeg (m.words.drop 4)).bind
        fun r => .complete r.2) := by
  rw [xdrCheckLists, listsWalk, Walk.bind_assoc]
  refine Follows.andThen (xdrCheckReadList_follows k m none 4) rfl ?_
  intro p hp
  have hwrite := xdrCheckWriteList_follows k m (le_refl 2) p
  have hreply := hwrite.andThen (g := replyChunkWalk k.maxBytesSpecialSeg)
    (f := fun q => match q with | none => pure none | some p => xdrCheckReplyChunk k m p) rfl
    fun q hq => xdrCheckReplyChunk_follows k m q
  simpa [Walk.bind_assoc] using hreply

/-! ## The decoder against the grammar -/

/-- The message passes the checks before the lists: long enough, the supported
version, and one of the two procedures that carry a call. -/
def RqArg.IsCall (m : RqArg) : Prop :=
  rpcrdmaHdrlenErr < m.len ∧ m.word 1 = 1 ∧ (m.word 3 = 0 ∨ m.word 3 = 1)

instance (m : RqArg) : Decidable m.IsCall := inferInstanceAs (Decidable (_ ∧ _ ∧ _))

/-- The first words of the message form a complete call header. -/
def IsHeaderOf (k : PageSizes) (m : RqArg)
    (h : TransportHeader k.maxBytesSpecialSeg k.maxBytesWriteSeg) : Prop :=
  ∃ rest, m.words = h.encode ++ rest

/-- The walk over the lists of the message. -/
def RqArg.walk (k : PageSizes) (m : RqArg) : Walk (Nat × List Nat) :=
  listsWalk k.maxBytesSpecialSeg k.maxBytesWriteSeg (m.words.drop 4)

/-- What the decoder is for: it reads inside the message, accepts exactly the
messages that start with a complete header, and returns the length of that header. -/
structure DecodesHeader (k : PageSizes) (m : RqArg) : Prop where
  reads : ∀ i ∈ (svcRdmaXdrDecodeReq k m).reads, m.Inside i
  accepts : 0 < (svcRdmaXdrDecodeReq k m).val.1 ↔ ∃ h, IsHeaderOf k m h
  length : ∀ h, 0 < (svcRdmaXdrDecodeReq k m).val.1 → IsHeaderOf k m h →
    (svcRdmaXdrDecodeReq k m).val.1 = 4 * h.encode.length

section

variable {k : PageSizes} {m : RqArg}

theorem RqArg.words_eq_of_long (h : rpcrdmaHdrlenErr < m.len) :
    m.words = m.word 0 :: m.word 1 :: m.word 2 :: m.word 3 :: m.words.drop 4 := by
  have h3 : m.Inside 3 := by
    unfold rpcrdmaHdrlenErr at h
    unfold RqArg.Inside
    omega
  have h1 : m.Inside 1 := h3.of_le (by omega)
  have hdrop := RqArg.drop_words_two (i := 0) h1
  rw [RqArg.drop_words_two (i := 0 + 2) h3] at hdrop
  simpa using hdrop

theorem TransportHeader.seven_le {a b : Nat} (h : TransportHeader a b) :
    7 ≤ h.encode.length := by
  have hreply : 0 < (encodeReply h.replyChunk).length := by
    cases h.replyChunk <;> simp [encodeReply, Chunk.encode]
  simp only [encode, encodeLists, length_cons, length_append]
  omega

variable {rest : List Nat}

/-- What starts with a header passes the checks, and the lists of the header come next. -/
theorem IsHeaderOf.isCall {h : TransportHeader k.maxBytesSpecialSeg k.maxBytesWriteSeg}
    (hh : m.words = h.encode ++ rest) :
    m.IsCall ∧ m.words.drop 4 = encodeLists h.readList h.writeList h.replyChunk ++ rest := by
  have hlen : rpcrdmaHdrlenErr < m.len := by
    have hw := congrArg List.length hh
    have h7 := h.seven_le
    simp only [RqArg.words, length_map, length_range, length_append] at hw
    unfold rpcrdmaHdrlenErr
    omega
  have hw := (RqArg.words_eq_of_long hlen).symm.trans hh
  simp only [TransportHeader.encode, cons_append, List.cons.injEq] at hw
  obtain ⟨-, hversion, -, hproc, hlists⟩ := hw
  refine ⟨⟨hlen, hversion, ?_⟩, hlists⟩
  rw [hproc]
  cases h.nomsg <;> simp

theorem IsHeaderOf.walk {h : TransportHeader k.maxBytesSpecialSeg k.maxBytesWriteSeg}
    (hh : m.words = h.encode ++ rest) :
    m.walk k = .complete (h.writeList.length, rest) := by
  rw [RqArg.walk, (IsHeaderOf.isCall hh).2]
  exact listsWalk_encode h.same_position (h.one_write_chunk.trans (by omega)) _ rest

variable {n : Nat}

theorem RqArg.IsCall.header_of_walk (hc : m.IsCall) (hw : m.walk k = .complete (n, rest))
    (hn : n ≤ 1) :
    ∃ h : TransportHeader k.maxBytesSpecialSeg k.maxBytesWriteSeg, m.words = h.encode ++ rest := by
  obtain ⟨reads, writes, reply, hsame, rfl, -, hlists⟩ := lists_of_walk hw
  refine ⟨⟨m.word 0, m.word 2, m.word 3 == 1, reads, writes, reply, hsame, hn⟩, ?_⟩
  rw [RqArg.words_eq_of_long hc.1, hlists]
  obtain ⟨-, hversion, hproc | hproc⟩ := hc <;> simp [TransportHeader.encode, hversion, hproc]

theorem decodeReq_reads (h : m.IsCall) :
    (svcRdmaXdrDecodeReq k m).reads = 1 :: 3 :: (xdrCheckLists k m).reads := by
  obtain ⟨hlen, hversion, hproc | hproc⟩ := h <;> cases hv : (xdrCheckLists k m).val <;>
    simp [svcRdmaXdrDecodeReq, Nat.not_le.mpr hlen, RqArg.be32, bind, pure, hversion, hproc,
      RdmaProc.ofWord, hv] <;>
    split <;> rfl

/-- The lists are refused. -/
theorem decodeReq_of_none (h : m.IsCall) (hl : (xdrCheckLists k m).val = none) :
    (svcRdmaXdrDecodeReq k m).val = (eINVAL, m) := by
  obtain ⟨hlen, hversion, hproc | hproc⟩ := h <;>
    simp [svcRdmaXdrDecodeReq, Nat.not_le.mpr hlen, RqArg.be32, bind, pure, hversion, hproc,
      RdmaProc.ofWord, hl]

/-- The lists end inside the message. -/
theorem decodeReq_of_some (h : m.IsCall) {p : Nat} (hl : (xdrCheckLists k m).val = some p)
    (hp : 4 * p ≤ m.len) :
    (svcRdmaXdrDecodeReq k m).val = (((4 * p : Nat) : Int), m.advance p) := by
  have hlt := m.len_lt
  have hret : I32.wrap (U32.wrap (4 * p)) = ((4 * p : Nat) : Int) := by
    rw [U32.wrap_of_lt (by omega)]
    exact I32.wrap_of_range (by omega) (by omega)
  obtain ⟨hlen, hversion, hproc | hproc⟩ := h <;>
    simp [svcRdmaXdrDecodeReq, Nat.not_le.mpr hlen, RqArg.be32, bind, pure, hversion, hproc,
      RdmaProc.ofWord, hl, Nat.not_lt.mpr hp, hret]

theorem decodeReq_of_not_isCall (h : ¬ m.IsCall) :
    (∀ i ∈ (svcRdmaXdrDecodeReq k m).reads, m.Inside i) ∧
      (svcRdmaXdrDecodeReq k m).val.1 ≤ 0 := by
  by_cases hlen : rpcrdmaHdrlenErr < m.len
  case neg => simp [svcRdmaXdrDecodeReq, Nat.not_lt.mp hlen, pure, eINVAL]
  have h3 : m.Inside 3 := by
    unfold rpcrdmaHdrlenErr at hlen
    unfold RqArg.Inside
    omega
  have h1 : m.Inside 1 := h3.of_le (by omega)
  by_cases hversion : m.word 1 = 1
  case neg =>
    simp [svcRdmaXdrDecodeReq, Nat.not_le.mpr hlen, RqArg.be32, bind, pure, hversion, h1,
      ePROTONOSUPPORT]
  have hproc : ¬ (m.word 3 = 0 ∨ m.word 3 = 1) := fun hp => h ⟨hlen, hversion, hp⟩
  have hword : RdmaProc.ofWord (m.word 3) ≠ .msg ∧ RdmaProc.ofWord (m.word 3) ≠ .nomsg := by
    unfold RdmaProc.ofWord
    split <;> simp_all
  cases hp : RdmaProc.ofWord (m.word 3) <;>
    simp_all [svcRdmaXdrDecodeReq, Nat.not_le.mpr hlen, RqArg.be32, bind, pure, eINVAL]

/-! ## Exactly when the decoder is right -/

theorem decodesHeader_of_not_isCall (h : ¬ m.IsCall) : DecodesHeader k m := by
  obtain ⟨hreads, hret⟩ := decodeReq_of_not_isCall (k := k) h
  refine ⟨hreads, ⟨fun hpos => absurd hpos (Int.not_lt.mpr hret), ?_⟩,
    fun _ hpos => absurd hpos (Int.not_lt.mpr hret)⟩
  rintro ⟨hd, rest, hh⟩
  exact absurd (IsHeaderOf.isCall hh).1 h

theorem not_decodesHeader_of_cut (h : m.IsCall) (hw : m.walk k = .cut) : ¬ DecodesHeader k m := by
  intro hd
  have hf := xdrCheckLists_follows k m
  rw [← RqArg.walk, hw] at hf
  obtain ⟨i, hi, hout⟩ := hf
  apply hout (hd.reads i _)
  rw [decodeReq_reads h]
  exact mem_cons_of_mem _ (mem_cons_of_mem _ hi)

/-- The lists were checked without a read beyond the message. -/
theorem decodeReq_reads_inside (h : m.IsCall) (hl : ∀ i ∈ (xdrCheckLists k m).reads, m.Inside i) :
    ∀ i ∈ (svcRdmaXdrDecodeReq k m).reads, m.Inside i := by
  have h3 : m.Inside 3 := by
    have := h.1
    unfold rpcrdmaHdrlenErr at this
    unfold RqArg.Inside
    omega
  rw [decodeReq_reads h, forall_mem_cons, forall_mem_cons]
  exact ⟨h3.of_le (by omega), h3, hl⟩

theorem decodesHeader_of_refused (h : m.IsCall) (hw : m.walk k = .refused) :
    DecodesHeader k m := by
  have hf := xdrCheckLists_follows k m
  rw [← RqArg.walk, hw] at hf
  have hret : ¬ 0 < (svcRdmaXdrDecodeReq k m).val.1 := by
    rw [decodeReq_of_none h hf.2]
    exact of_decide_eq_false rfl
  refine ⟨decodeReq_reads_inside h hf.1, ⟨fun hpos => absurd hpos hret, ?_⟩,
    fun _ hpos => absurd hpos hret⟩
  rintro ⟨hd, rest, hh⟩
  rw [IsHeaderOf.walk hh] at hw
  cases hw

/-- A walk that ends is followed to the same place: what is returned counts the
words before it. -/
theorem decodeReq_of_complete (h : m.IsCall) (hw : m.walk k = .complete (n, rest)) :
    (∀ i ∈ (svcRdmaXdrDecodeReq k m).reads, m.Inside i) ∧
      (svcRdmaXdrDecodeReq k m).val.1 = ((4 * (m.words.length - rest.length) : Nat) : Int) := by
  have hf := xdrCheckLists_follows k m
  rw [← RqArg.walk, hw] at hf
  obtain ⟨hin, p, hp, hlen, hrest⟩ := hf
  refine ⟨decodeReq_reads_inside h hin, ?_⟩
  rw [decodeReq_of_some h hp hlen]
  have hlength := congrArg List.length hrest
  simp only [RqArg.words, length_drop, length_map, length_range] at hlength ⊢
  omega

theorem decodesHeader_of_complete (h : m.IsCall) (hw : m.walk k = .complete (n, rest))
    (hn : n ≤ 1) : DecodesHeader k m := by
  obtain ⟨hreads, hret⟩ := decodeReq_of_complete h hw
  obtain ⟨hd, hh⟩ := h.header_of_walk hw hn
  have hpos := hd.seven_le
  have hlength := congrArg List.length hh
  rw [length_append] at hlength
  refine ⟨hreads, ⟨fun _ => ⟨hd, rest, hh⟩, fun _ => by rw [hret]; omega⟩, ?_⟩
  rintro hd' - ⟨rest', hh'⟩
  -- the walk over the words does not depend on how they are split into a header and a rest
  have hrest : rest' = rest := by
    have := (IsHeaderOf.walk hh').symm.trans hw
    simp only [Walk.complete.injEq, Prod.mk.injEq] at this
    exact this.2
  have hlength' := congrArg List.length hh'
  rw [length_append, hrest] at hlength'
  omega

theorem not_decodesHeader_of_two (h : m.IsCall) (hw : m.walk k = .complete (2, rest)) :
    ¬ DecodesHeader k m := by
  intro hd
  obtain ⟨-, hret⟩ := decodeReq_of_complete h hw
  have hshort : rest.length < m.words.length := by
    obtain ⟨reads, writes, reply, -, -, -, hlists⟩ := lists_of_walk hw
    have hlength := congrArg List.length hlists
    simp only [encodeLists, length_drop, length_append, length_cons] at hlength
    omega
  obtain ⟨hdr, rest', hh⟩ := hd.accepts.mp (by rw [hret]; omega)
  have hn := (IsHeaderOf.walk hh).symm.trans hw
  simp only [Walk.complete.injEq, Prod.mk.injEq] at hn
  have := hdr.one_write_chunk
  omega

end

/-- The decoder does what it is for exactly on the messages that are no calls and on the calls
whose lists are not cut and are not complete with two write chunks. -/
theorem decodesHeader_iff (k : PageSizes) (m : RqArg) :
    DecodesHeader k m ↔
      (m.IsCall → m.walk k ≠ .cut ∧ ∀ rest, m.walk k ≠ .complete (2, rest)) := by
  constructor
  · intro hd hc
    exact ⟨fun hw => not_decodesHeader_of_cut hc hw hd,
      fun rest hw => not_decodesHeader_of_two hc hw hd⟩
  · intro hok
    by_cases hc : m.IsCall
    case neg => exact decodesHeader_of_not_isCall hc
    obtain ⟨hcut, htwo⟩ := hok hc
    cases hw : m.walk k with
    | cut => exact absurd hw hcut
    | refused => exact decodesHeader_of_refused hc hw
    | complete r =>
      obtain ⟨n, rest⟩ := r
      obtain ⟨-, -, -, -, -, hle, -⟩ := lists_of_walk hw
      have hn : n ≠ 2 := by
        rintro rfl
        exact htwo rest hw
      exact decodesHeader_of_complete hc hw (by omega)

/-- A call of six words: the reply chunk is missing. -/
def cutCall : RqArg where
  word i := [0, 1, 0, 0, 0, 0].getD i 0
  len := 24
  iovLen := 24
  len_lt := by decide

def twoWriteChunks : RqArg where
  word i := [0, 1, 0, 0, 0, 1, 0, 1, 0, 0, 0].getD i 0
  len := 44
  iovLen := 44
  len_lt := by decide

theorem decodesHeader_breaks :
    ¬ DecodesHeader ⟨259, 12⟩ cutCall ∧ ¬ DecodesHeader ⟨259, 12⟩ twoWriteChunks :=
  ⟨not_decodesHeader_of_cut (by decide) (by decide),
    @not_decodesHeader_of_two _ _ [] (by decide) (by decide)⟩

/-! ## What is accepted -/

/-- A check that succeeds ends behind `p` and behind every word it has read. -/
def Ahead (p : Nat) (t : Traced (Option Nat)) : Prop :=
  ∀ q, t.val = some q → p ≤ q ∧ ∀ i ∈ t.reads, i < q

namespace Ahead

variable {m : RqArg} {p q : Nat}

theorem refuse : Ahead p (pure none) := fun _ h => by cases h

theorem accept (h : p ≤ q) : Ahead p (pure (some q)) := by
  rintro _ ⟨⟩
  exact ⟨h, by simp [pure]⟩

theorem mono {t : Traced (Option Nat)} (h : Ahead q t) (hpq : p ≤ q) : Ahead p t :=
  fun r hr => ⟨hpq.trans (h r hr).1, (h r hr).2⟩

theorem read {i : Nat} {f : Nat → Traced (Option Nat)} (hf : ∀ w, Ahead q (f w)) (hi : i < q)
    (hp : p ≤ q) : Ahead p (m.be32 i >>= f) := by
  intro r hr
  obtain ⟨hle, hreads⟩ := hf (m.word i) r hr
  refine ⟨hp.trans hle, forall_mem_cons.mpr ⟨Nat.lt_of_lt_of_le hi hle, hreads⟩⟩

theorem andThen {t : Traced (Option Nat)} {f : Option Nat → Traced (Option Nat)} (ht : Ahead p t)
    (hnone : f none = pure none) (hsome : ∀ q, p ≤ q → Ahead q (f (some q))) :
    Ahead p (t >>= f) := by
  intro r hr
  have hval : (f t.val).val = some r := hr
  cases hq : t.val with
  | none =>
    rw [hq, hnone] at hval
    cases hval
  | some q =>
    obtain ⟨hpq, hreads⟩ := ht q hq
    rw [hq] at hval
    obtain ⟨hqr, hreads'⟩ := hsome q hpq r hval
    refine ⟨hpq.trans hqr, ?_⟩
    change ∀ i ∈ t.reads ++ (f t.val).reads, i < r
    rw [hq]
    exact forall_mem_append.mpr
      ⟨fun i hi => Nat.lt_of_lt_of_le (hreads i hi) hqr, hreads'⟩

end Ahead

theorem xdrCheckReadList_ahead (k : PageSizes) (m : RqArg) (position : Option Nat) (p : Nat) :
    Ahead p (xdrCheckReadList k m position p) := by
  induction hn : m.len - 4 * p using Nat.strong_induction_on generalizing position p with
  | _ n ih =>
    rw [xdrCheckReadList]
    refine .read (q := p + 1) (fun mark => ?_) (by omega) (by omega)
    split
    case isTrue => exact .accept (Nat.le_refl _)
    refine .read (q := p + 2) (fun pos => ?_) (by omega) (by omega)
    split
    case isTrue => exact .refuse
    refine .read (q := p + 4) (fun length => ?_) (by omega) (by omega)
    split
    case isTrue => exact .refuse
    split
    case isTrue => exact .refuse
    case isFalse hlen => exact (ih _ (by omega) _ _ rfl).mono (by omega)

theorem xdrCheckSegments_ahead (m : RqArg) (maxlen n p : Nat) :
    Ahead p (xdrCheckSegments m maxlen n p) := by
  induction n generalizing p with
  | zero => exact .accept (Nat.le_refl _)
  | succ n ih =>
    refine .read (q := p + 2) (fun length => ?_) (by omega) (by omega)
    split
    case isTrue => exact .refuse
    split
    case isTrue => exact .refuse
    case isFalse => exact (ih _).mono (by omega)

theorem xdrCheckWriteChunk_ahead (m : RqArg) (maxlen p : Nat) :
    Ahead p (xdrCheckWriteChunk m maxlen p) :=
  .read (fun segcount => xdrCheckSegments_ahead m maxlen segcount (p + 1)) (Nat.lt_succ_self p)
    (Nat.le_succ p)

theorem xdrCheckWriteList_ahead (k : PageSizes) (m : RqArg) (chcount p : Nat) :
    Ahead p (xdrCheckWriteList k m chcount p) := by
  induction hn : 2 - chcount generalizing chcount p with
  | zero =>
    rw [xdrCheckWriteList]
    refine .read (q := p + 1) (fun mark => ?_) (by omega) (by omega)
    split
    case isTrue => exact .accept (Nat.le_refl _)
    refine (xdrCheckWriteChunk_ahead m _ (p + 1)).andThen rfl fun q _ => ?_
    simp only [show chcount > 1 by omega, ↓reduceIte]
    exact .refuse
  | succ n ih =>
    rw [xdrCheckWriteList]
    refine .read (q := p + 1) (fun mark => ?_) (by omega) (by omega)
    split
    case isTrue => exact .accept (Nat.le_refl _)
    refine (xdrCheckWriteChunk_ahead m _ (p + 1)).andThen rfl fun q _ => ?_
    simp only [show ¬ chcount > 1 by omega, ↓reduceIte]
    exact ih _ _ (by omega)

theorem xdrCheckReplyChunk_ahead (k : PageSizes) (m : RqArg) (p : Nat) :
    Ahead p (xdrCheckReplyChunk k m p) := by
  refine .read (q := p + 1) (fun mark => ?_) (by omega) (by omega)
  split
  case isTrue => exact .accept (Nat.le_refl _)
  case isFalse => exact xdrCheckWriteChunk_ahead m _ (p + 1)

theorem xdrCheckLists_ahead (k : PageSizes) (m : RqArg) : Ahead 4 (xdrCheckLists k m) := by
  refine (xdrCheckReadList_ahead k m none 4).andThen rfl fun p _ => ?_
  exact (xdrCheckWriteList_ahead k m 0 p).andThen rfl fun q _ => xdrCheckReplyChunk_ahead k m q

/-- The lists are complete in a message that is accepted. -/
theorem walk_of_accepted {k : PageSizes} {m : RqArg} (h : 0 < (svcRdmaXdrDecodeReq k m).val.1) :
    m.IsCall ∧ ∃ n rest, m.walk k = .complete (n, rest) := by
  have hc : m.IsCall := by
    by_contra hc
    have := (decodeReq_of_not_isCall (k := k) hc).2
    omega
  refine ⟨hc, ?_⟩
  have hnone : (xdrCheckLists k m).val ≠ none := by
    intro hl
    rw [decodeReq_of_none hc hl] at h
    simp [eINVAL] at h
  obtain ⟨p, hp⟩ := Option.ne_none_iff_exists'.mp hnone
  have hlen : 4 * p ≤ m.len := by
    by_contra hlen
    obtain ⟨hlong, hversion, hproc | hproc⟩ := hc <;>
      simp [svcRdmaXdrDecodeReq, Nat.not_le.mpr hlong, RqArg.be32, bind, pure, hversion, hproc,
        RdmaProc.ofWord, hp, Nat.not_le.mp hlen, eINVAL] at h
  have hf := xdrCheckLists_follows k m
  rw [← RqArg.walk] at hf
  cases hw : m.walk k with
  | cut =>
    rw [hw] at hf
    obtain ⟨i, hi, hout⟩ := hf
    have hlt := (xdrCheckLists_ahead k m p hp).2 i hi
    unfold RqArg.Inside at hout
    omega
  | refused =>
    rw [hw] at hf
    exact absurd hf.2 hnone
  | complete r => exact ⟨r.1, r.2, rfl⟩

end Svcrdma
