-- SUMMARY: Which rxe memory regions serve every request on them.
import OfaKernel.Rxe.MemCopy

/-!
# Requests on a region

A region is set up from pages and then asked for iovas. The set-up goes wrong when the pages fill
the last map, and the lookup when a region made by `rxe_mem_map_pages` is longer than its pages.
-/

open List

namespace Rxe.Mr

open Mr.RxeMem

/-! ## What is asked -/

/-- What a region is in numbers. -/
structure RegionShape where
  mapShift : Nat
  numMap : Nat
  pageShift : Nat
  offset : Nat
  length : Nat
  iova : UInt64

namespace RegionShape

def position (shape : RegionShape) (iova : UInt64) : Nat :=
  (iova - shape.iova).toNat + shape.offset

/-- `mem_check_range` accepts the request. -/
def Accepts (shape : RegionShape) (iova : UInt64) (length : Nat) : Prop :=
  memCheckRange
    { mapShift := shape.mapShift, type := .mr, iova := shape.iova, length := shape.length }
    iova length = 0

/-- The bytes asked for are in the pages. For a request of no bytes the maps have a buffer at the
position, which is one that was written when the pages are of one byte. -/
def InTable (shape : RegionShape) (pages : Nat) (iova : UInt64) (length : Nat) : Prop :=
  if length = 0 then
    if shape.pageShift = 0 then shape.position iova < pages
    else shape.position iova / 2 ^ shape.pageShift / 2 ^ shape.mapShift % 2 ^ 32 < shape.numMap
  else shape.position iova + length ≤ pages * 2 ^ shape.pageShift

end RegionShape

def RxeMem.shape (mem : RxeMem) : RegionShape :=
  { mapShift := mem.mapShift, numMap := mem.numMap, pageShift := mem.pageShift
    offset := mem.offset, length := mem.length, iova := mem.iova }

/-- The lookup stays in the maps, and a copy moves the bytes of the region in their order and
carries their checksum on. -/
structure Served (crc32 : Crc32) (mem : RxeMem) (pages : List Nat) (iova : UInt64)
    (length : Nat) : Prop where
  vaddr : iovaToVaddr mem iova length ≠ .error .fault
  copy : ∀ dir st crcp, ∃ as,
    pageBytes pages mem.pageShift (mem.position iova) length = some as ∧
      rxeMemCopy crc32 mem iova length dir st crcp =
        .ok (CopyBytes.transfer st dir as 0,
          crcp.map fun c => crc32.update c (CopyBytes.moved st dir as 0))

/-- The region is set up without a fault, whatever `kmalloc` returns, and serves the request. -/
def ServedAfter (crc32 : Crc32) (setup : Option (Nat → Nat → PhysBuf) → Except MemStop RxeMem)
    (pages : List Nat) (iova : UInt64) (length : Nat) : Prop :=
  ∀ kmalloc,
    match setup kmalloc with
    | .error .fault => False
    | .error (.errno _) => True
    | .ok mem => memCheckRange mem iova length = 0 → Served crc32 mem pages iova length

/-! ## Requests on a region that was set up -/

/-- The maps as `kmalloc` may return them. -/
def zeroBufs : Nat → Nat → PhysBuf := fun _ _ => ⟨0, 0⟩

theorem accepts_iff {mem : RxeMem} (htype : mem.type = .mr) (iova : UInt64) (length : Nat) :
    mem.shape.Accepts iova length ↔ memCheckRange mem iova length = 0 := by
  unfold RegionShape.Accepts memCheckRange
  rw [htype]
  exact Iff.rfl

theorem RegionShape.Accepts.le {shape : RegionShape} {iova : UInt64} {length : Nat}
    (h : shape.Accepts iova length) (hlen : shape.length < 2 ^ 64) :
    (iova - shape.iova).toNat + length ≤ shape.length := by
  unfold Accepts memCheckRange memEfault at h
  dsimp only at h
  split at h
  case isTrue => cases h
  case isFalse hok =>
    have hle : shape.iova ≤ iova := UInt64.le_iff_toNat_le.mpr (by omega)
    rw [UInt64.toNat_sub_of_le _ _ hle]
    omega

namespace RxeMem.Holds

variable {mem : RxeMem} {pages : List Nat} {garbage : Nat → Nat → PhysBuf} {m n : Nat}
variable {crc32 : Crc32} {iova : UInt64} {length : Nat}

/-- A walk that starts too far behind runs over buffers that hold nothing, to the end of the
maps. -/
theorem lookupWalk_fault (h : mem.Holds pages zeroBufs) (hshift : mem.pageShift = 0)
    {left offset : Nat} (hn : n < mem.bufPerMap)
    (hbehind : pages.length ≤ m * mem.bufPerMap + n + offset) :
    lookupWalk mem left m n offset = .error .fault := by
  induction left generalizing m n offset with
  | zero => rfl
  | succ left ih =>
    rw [lookupWalk]
    by_cases hm : m < mem.numMap
    · -- the buffer is that of a page, or it was never written
      obtain ⟨buf, hbuf, hsize⟩ : ∃ buf, mem.bufAt m n = .ok buf ∧
          buf.size ≤ offset ∧ pages.length ≤ m * mem.bufPerMap + n + 1 + (offset - buf.size) := by
        by_cases hpage : m * mem.bufPerMap + n < pages.length
        · refine ⟨_, h.bufAt_page hn (List.getElem?_eq_getElem hpage), ?_⟩
          rw [hshift, Nat.pow_zero]
          dsimp only
          omega
        · refine ⟨_, bufAt_ok h.map hm hn, ?_⟩
          have hnone : (bufsOf (2 ^ mem.pageShift) pages)[m * mem.bufPerMap + n]? = none :=
            List.getElem?_eq_none (by rw [bufsOf, length_map]; omega)
          rw [written, if_pos hn, hnone]
          exact ⟨Nat.zero_le _, by omega⟩
      rw [hbuf]
      simp only [bind, Except.bind]
      rw [if_pos hsize.1]
      by_cases hend : n + 1 = mem.bufPerMap
      · rw [if_pos hend]
        apply ih (bufPerMap_pos mem)
        rw [Nat.add_mul, Nat.one_mul]
        omega
      · rw [if_neg hend]
        exact ih (Nat.lt_of_le_of_ne hn hend) (by omega)
    · rw [bufAt_behind (Nat.not_lt.mp hm)]
      rfl

/-- The lookup of an accepted request, without the tests before it. -/
theorem iovaToVaddr_eq (h : mem.Holds pages garbage)
    (hrange : memCheckRange mem iova length = 0) :
    iovaToVaddr mem iova length = (do
      let (m, n, offset) ← lookupIova mem iova
      let buf ← mem.bufAt m n
      if buf.size < offset + length then return none
      else return some (buf.addr + offset)) := by
  have hmap : ¬mem.map.isNone := by rw [h.map]; exact Bool.false_ne_true
  unfold iovaToVaddr
  rw [if_neg (not_not.mpr h.state), if_neg hmap, if_neg (not_not.mpr hrange)]

theorem iovaToVaddr_ok {offset : Nat} {buf : PhysBuf} (h : mem.Holds pages garbage)
    (hrange : memCheckRange mem iova length = 0)
    (hlookup : lookupIova mem iova = .ok (m, n, offset))
    (hbuf : mem.bufAt m n = .ok buf) : iovaToVaddr mem iova length ≠ .error .fault := by
  rw [h.iovaToVaddr_eq hrange, hlookup]
  simp only [bind, Except.bind, hbuf]
  split
  all_goals exact nofun

theorem served (h : mem.Holds pages garbage) (hpos : mem.position iova < 2 ^ 64)
    (hrange : memCheckRange mem iova length = 0)
    (hin : mem.shape.InTable pages.length iova length) : Served crc32 mem pages iova length := by
  have hcopy : length = 0 ∨
      mem.position iova + length ≤ pages.length * 2 ^ mem.pageShift := by
    unfold RegionShape.InTable at hin
    split at hin
    case isTrue hzero => exact .inl hzero
    case isFalse => exact .inr hin
  refine ⟨?_, fun dir st crcp => h.rxeMemCopy_spec hpos hrange hcopy st crcp⟩
  by_cases hpage : mem.position iova / 2 ^ mem.pageShift < pages.length
  · have hcursor : mem.position iova / 2 ^ mem.pageShift / mem.bufPerMap * mem.bufPerMap +
        mem.position iova / 2 ^ mem.pageShift % mem.bufPerMap =
          mem.position iova / 2 ^ mem.pageShift := Nat.div_add_mod' _ _
    apply h.iovaToVaddr_ok hrange (h.lookupIova_page hpos hpage)
    apply h.bufAt_page (Nat.mod_lt _ (bufPerMap_pos mem))
    rw [hcursor]
    exact List.getElem?_eq_getElem hpage
  · -- a request of no bytes behind the pages
    have hzero : length = 0 := by
      rcases hcopy with hzero | hend
      · exact hzero
      · rw [Nat.not_lt, Nat.le_div_iff_mul_le (Nat.two_pow_pos _)] at hpage
        omega
    unfold RegionShape.InTable at hin
    rw [if_pos hzero] at hin
    split at hin
    case isTrue hshift =>
      have hshift' : mem.pageShift = 0 := hshift
      rw [hshift', Nat.pow_zero, Nat.div_one] at hpage
      exact absurd hin hpage
    case isFalse hshift =>
      exact h.iovaToVaddr_ok hrange (h.lookupIova_shift hshift hpos)
        (bufAt_ok h.map hin (Nat.mod_lt _ (bufPerMap_pos mem)))

/-- Requests that are not in the table are not served, when the maps come empty. -/
theorem inTable (h : mem.Holds pages zeroBufs) (hpos : mem.position iova < 2 ^ 64)
    (hrange : memCheckRange mem iova length = 0) (hserved : Served crc32 mem pages iova length) :
    mem.shape.InTable pages.length iova length := by
  unfold RegionShape.InTable
  by_cases hzero : length = 0
  · rw [if_pos hzero]
    by_contra hout
    apply hserved.vaddr
    rw [h.iovaToVaddr_eq hrange]
    by_cases hshift : mem.pageShift = 0
    · have hshape : mem.shape.pageShift = 0 := hshift
      rw [if_pos hshape, Nat.not_lt] at hout
      have hwalk : lookupIova mem iova = .error .fault := by
        unfold lookupIova
        rw [if_neg (not_not.mpr hshift)]
        change lookupWalk mem _ 0 0 (mem.position iova % 2 ^ 64) = _
        rw [Nat.mod_eq_of_lt hpos]
        apply h.lookupWalk_fault hshift (bufPerMap_pos mem)
        rw [Nat.zero_mul, Nat.zero_add]
        exact hout
      rw [hwalk]
      rfl
    · have hshape : ¬mem.shape.pageShift = 0 := hshift
      rw [if_neg hshape, Nat.not_lt] at hout
      rw [h.lookupIova_shift hshift hpos]
      have hbehind : mem.bufAt (mem.position iova / 2 ^ mem.pageShift / mem.bufPerMap % 2 ^ 32)
          (mem.position iova / 2 ^ mem.pageShift % mem.bufPerMap) = .error .fault :=
        bufAt_behind hout
      simp only [bind, Except.bind, hbehind]
  · rw [if_neg hzero]
    obtain ⟨as, has, -⟩ := hserved.copy .toMemObj ⟨fun _ => 0, fun _ => 0⟩ none
    exact le_of_pageBytes has (Nat.pos_of_ne_zero hzero)

end RxeMem.Holds

/-! ## Regions of a user -/

/-- The pages whose buffers are written, none for a region without bytes. -/
def Umem.kernelPages (umem : Umem) : List Nat :=
  if 0 < umem.length then umem.pages.reduceOption else []

def userShape (mapShift : Nat) (umem : Umem) (iova : UInt64) : RegionShape :=
  { mapShift, iova
    numMap := (umem.pages.length + 2 ^ mapShift - 1) / 2 ^ mapShift
    pageShift := umem.pageShift, offset := umem.offset, length := umem.length }

/-- The maps have room for the buffers, and they are full when the buffers fill whole maps. -/
theorem room_of_numMap {bpm n : Nat} (hpos : 0 < bpm) :
    n ≤ (n + bpm - 1) / bpm * bpm ∧ (n = (n + bpm - 1) / bpm * bpm ↔ bpm ∣ n) := by
  have hdiv := Nat.div_add_mod (n + bpm - 1) bpm
  have hmod := Nat.mod_lt (n + bpm - 1) hpos
  rw [Nat.mul_comm] at hdiv
  refine ⟨by omega, fun h => ⟨_, h.trans (Nat.mul_comm _ _)⟩, ?_⟩
  rintro ⟨k, rfl⟩
  have hk : (bpm * k + bpm - 1) / bpm = k := by
    rw [Nat.add_sub_assoc hpos, Nat.mul_add_div hpos, Nat.div_eq_of_lt (by omega), Nat.add_zero]
  rw [hk, Nat.mul_comm]

theorem numMap_le {bpm n : Nat} (hpos : 0 < bpm) : (n + bpm - 1) / bpm ≤ n := by
  cases n with
  | zero => rw [Nat.zero_add, Nat.div_eq_of_lt (by omega)]
  | succ n =>
    rw [Nat.div_le_iff_le_mul hpos]
    have hle := Nat.le_mul_of_pos_right n hpos
    rw [Nat.add_mul, Nat.one_mul]
    omega

theorem Umem.offset_eq (umem : Umem) : umem.offset = umem.address % 2 ^ umem.pageShift :=
  Nat.and_two_pow_sub_one_eq_mod _ _

theorem fullAt_le (bpm : Nat) : FullAt (fun numBuf => bpm ≤ numBuf) bpm := by
  intro k hk
  rw [decide_eq_true_iff]
  omega

theorem fullAt_beq (bpm : Nat) : FullAt (fun numBuf => numBuf == bpm) bpm := by
  intro k hk
  exact beq_iff_eq

/-- The loops from the first buffer on. -/
theorem fillBufs_start {mem : RxeMem} {full : Nat → Bool} {size : Nat} {addrs : List Nat}
    {garbage : Nat → Nat → PhysBuf} (hfull : FullAt full mem.bufPerMap)
    (hmap : mem.map = some garbage) (hm : 0 < mem.numMap)
    (hroom : addrs.length ≤ mem.numMap * mem.bufPerMap) :
    fillBufs full size (addrs.map some) 0 0 mem =
      if addrs.length = mem.numMap * mem.bufPerMap then .error .fault
      else .ok (mem.setMap (written mem.bufPerMap (bufsOf size addrs) garbage)) := by
  have hstart : mem.setMap (written mem.bufPerMap [] garbage) = mem := by
    rw [written_nil, setMap_self hmap]
  have hfill := @fillBufs_some full size garbage mem [] 0 0 addrs hfull hm
    (bufPerMap_pos mem) (by simp) (by simpa using hroom)
  rwa [hstart, length_nil, Nat.zero_add, nil_append] at hfill

/-- The region before its buffers are written. -/
def userMem (mapShift : Nat) (umem : Umem) (garbage : Nat → Nat → PhysBuf) : RxeMem :=
  { mapShift
    map := some garbage
    mapMask := 2 ^ mapShift - 1
    numBuf := umem.pages.length
    numMap := (umem.pages.length + 2 ^ mapShift - 1) / 2 ^ mapShift
    maxBuf := (umem.pages.length + 2 ^ mapShift - 1) / 2 ^ mapShift * 2 ^ mapShift
    pageShift := umem.pageShift
    pageMask := 2 ^ umem.pageShift - 1 }

/-- What `rxe_mem_init_user` writes at its end. -/
def userFinish (umem : Umem) (iova : UInt64) (mem : RxeMem) : RxeMem :=
  { mem with
    length := umem.length, iova := iova, offset := umem.offset
    state := .valid, type := .mr }

/-- A list without `none` is one of values. -/
theorem map_some_reduceOption {l : List (Option Nat)} (h : none ∉ l) :
    l.reduceOption.map some = l := by
  induction l with
  | nil => rfl
  | cons x l ih =>
    cases x with
    | none => exact absurd mem_cons_self h
    | some a =>
      exact congrArg (some a :: ·) (ih fun hl => h (mem_cons_of_mem _ hl))

section User

variable (mapShift : Nat) (umem : Umem) (iova : UInt64) (garbage : Nat → Nat → PhysBuf)

theorem rxeMemInitUser_eq :
    rxeMemInitUser mapShift (some umem) iova (some garbage) =
      (userFill umem (userMem mapShift umem garbage)).map (userFinish umem iova) := by
  change (userFill umem (userMem mapShift umem garbage) >>= fun mem =>
    pure (userFinish umem iova mem)) = _
  cases userFill umem (userMem mapShift umem garbage) <;> rfl

theorem userMem_numMap_pos : 0 < (userMem mapShift umem garbage).numMap := by
  have hpages : 0 < umem.pages.length := length_pos_iff.mpr umem.pages_ne_nil
  have hbpm : 0 < 2 ^ mapShift := Nat.two_pow_pos mapShift
  exact Nat.div_pos (by omega) hbpm

theorem rxeMemInitUser_zero (hlen : umem.length = 0) :
    rxeMemInitUser mapShift (some umem) iova (some garbage) =
      .ok (userFinish umem iova (userMem mapShift umem garbage)) := by
  have hfill : userFill umem (userMem mapShift umem garbage) =
      .ok (userMem mapShift umem garbage) := if_neg (by omega)
  rw [rxeMemInitUser_eq, hfill]
  rfl

theorem userFill_pos (hlen : 0 < umem.length) :
    userFill umem (userMem mapShift umem garbage) =
      fillBufs (fun numBuf => 2 ^ mapShift ≤ numBuf) (2 ^ umem.pageShift) umem.pages 0 0
        (userMem mapShift umem garbage) := by
  have hload : (userMem mapShift umem garbage).loadMap 0 = .ok () :=
    loadMap_ok rfl (userMem_numMap_pos mapShift umem garbage)
  unfold userFill
  rw [if_pos hlen, hload]
  rfl

/-- A page without an address: there is no region. -/
theorem rxeMemInitUser_none (hlen : 0 < umem.length) (hnone : none ∈ umem.pages) :
    rxeMemInitUser mapShift (some umem) iova (some garbage) = .error (.errno memEnomem) := by
  have hstart : (userMem mapShift umem garbage).setMap (written (2 ^ mapShift) [] garbage) =
      userMem mapShift umem garbage := by
    rw [written_nil]
    rfl
  have hfill := @fillBufs_none _ (2 ^ umem.pageShift) garbage (userMem mapShift umem garbage) [] 0 0
    umem.pages (fullAt_le _)
    (userMem_numMap_pos mapShift umem garbage) (bufPerMap_pos _) (by simp)
    (by rw [length_nil, Nat.zero_add]; exact (room_of_numMap (Nat.two_pow_pos mapShift)).1)
    hnone
  have hfill' : fillBufs (fun numBuf => 2 ^ mapShift ≤ numBuf) (2 ^ umem.pageShift) umem.pages 0 0
      ((userMem mapShift umem garbage).setMap (written (2 ^ mapShift) [] garbage)) =
        .error (.errno memEnomem) := hfill
  rw [rxeMemInitUser_eq, userFill_pos _ _ _ hlen, ← hstart, hfill']
  rfl

/-- Pages that all have an address fault when they fill whole maps. -/
theorem rxeMemInitUser_some (hlen : 0 < umem.length) (hsome : none ∉ umem.pages) :
    rxeMemInitUser mapShift (some umem) iova (some garbage) =
      if 2 ^ mapShift ∣ umem.pages.length then .error .fault
      else .ok (userFinish umem iova ((userMem mapShift umem garbage).setMap
        (written (2 ^ mapShift) (bufsOf (2 ^ umem.pageShift) umem.kernelPages) garbage))) := by
  have hpages : umem.kernelPages.map some = umem.pages := by
    unfold Umem.kernelPages
    rw [if_pos hlen]
    exact map_some_reduceOption hsome
  have hcount : umem.kernelPages.length = umem.pages.length := by
    rw [← hpages, length_map]
  obtain ⟨hroom, hwhole⟩ := room_of_numMap (n := umem.pages.length) (Nat.two_pow_pos mapShift)
  have hfill := @fillBufs_start (userMem mapShift umem garbage) _ (2 ^ umem.pageShift)
    umem.kernelPages garbage (fullAt_le _) rfl
    (userMem_numMap_pos mapShift umem garbage) (by rw [hcount]; exact hroom)
  rw [hpages, hcount] at hfill
  have hfill' : fillBufs (fun numBuf => 2 ^ mapShift ≤ numBuf) (2 ^ umem.pageShift) umem.pages 0 0
      (userMem mapShift umem garbage) =
        if 2 ^ mapShift ∣ umem.pages.length then .error .fault
        else .ok ((userMem mapShift umem garbage).setMap
          (written (2 ^ mapShift) (bufsOf (2 ^ umem.pageShift) umem.kernelPages) garbage)) := by
    simp only [← hwhole]
    exact hfill
  rw [rxeMemInitUser_eq, userFill_pos _ _ _ hlen, hfill']
  split <;> rfl

theorem userShape_holds (pages : List Nat)
    (hroom : pages.length < (userShape mapShift umem iova).numMap * 2 ^ mapShift) :
    (userFinish umem iova ((userMem mapShift umem garbage).setMap
      (written (2 ^ mapShift) (bufsOf (2 ^ umem.pageShift) pages) garbage))).Holds
        pages garbage where
  state := rfl
  type := rfl
  map := rfl
  room := hroom
  numMap_lt := (numMap_le (Nat.two_pow_pos mapShift)).trans_lt umem.nmap_lt
  pageShift_le := umem.pageShift_le
  mapMask := rfl
  pageMask := rfl

end User

theorem Umem.length_lt (umem : Umem) : umem.length + umem.offset < 2 ^ 64 := by
  have hoffset : umem.offset ≤ umem.address := by
    rw [umem.offset_eq]
    exact Nat.mod_le _ _
  have hno := umem.no_overflow
  omega

/-- An accepted request on a user's region is in the table. -/
theorem Umem.inTable (mapShift : Nat) (umem : Umem) (iova iova' : UInt64) (length : Nat)
    (hpages : umem.length = 0 ∨ none ∉ umem.pages ∧ ¬2 ^ mapShift ∣ umem.pages.length)
    (haccepts : (userShape mapShift umem iova).Accepts iova' length) :
    (userShape mapShift umem iova).InTable umem.kernelPages.length iova' length := by
  have hlt := umem.length_lt
  have hle : (iova' - iova).toNat + length ≤ umem.length :=
    haccepts.le (by change umem.length < _; omega)
  have hposition : (userShape mapShift umem iova).position iova' =
      (iova' - iova).toNat + umem.offset := rfl
  have hcovers := umem.covers
  rw [← umem.offset_eq] at hcovers
  have hnumMap : 0 < (userShape mapShift umem iova).numMap :=
    userMem_numMap_pos mapShift umem zeroBufs
  unfold RegionShape.InTable
  by_cases hzero : length = 0
  · have hshift : ¬(userShape mapShift umem iova).pageShift = 0 := umem.pageShift_pos.ne'
    rw [if_pos hzero, if_neg hshift]
    apply (Nat.mod_le _ _).trans_lt
    rcases hpages with hempty | ⟨-, hwhole⟩
    · have hin : (userShape mapShift umem iova).position iova' < 2 ^ umem.pageShift := by
        rw [hposition, umem.offset_eq]
        omega
      change (userShape mapShift umem iova).position iova' / 2 ^ umem.pageShift / 2 ^ mapShift < _
      rw [Nat.div_eq_of_lt hin, Nat.zero_div]
      exact hnumMap
    · obtain ⟨hroom, hdvd⟩ := room_of_numMap (n := umem.pages.length) (Nat.two_pow_pos mapShift)
      have hpage : (userShape mapShift umem iova).position iova' / 2 ^ umem.pageShift ≤
          umem.pages.length := by
        rw [Nat.div_le_iff_le_mul_add_pred (Nat.two_pow_pos _), hposition, Nat.mul_comm]
        omega
      apply (Nat.div_lt_iff_lt_mul (Nat.two_pow_pos _)).mpr
      exact hpage.trans_lt (Nat.lt_of_le_of_ne hroom fun heq => hwhole (hdvd.mp heq))
  · rw [if_neg hzero, hposition]
    have hpos : 0 < umem.length := by omega
    have hcount : umem.kernelPages.length = umem.pages.length := by
      unfold Umem.kernelPages
      rw [if_pos hpos, ← length_map (f := some),
        map_some_reduceOption (hpages.resolve_left hpos.ne').1]
    rw [hcount]
    change _ ≤ umem.pages.length * 2 ^ umem.pageShift
    omega

/-- The pages of a user do not fill whole maps, or there is nothing to write or no region. -/
def Umem.LeavesBuffer (mapShift : Nat) (umem : Umem) : Prop :=
  umem.length = 0 ∨ none ∈ umem.pages ∨ ¬2 ^ mapShift ∣ umem.pages.length

theorem user_served_iff (crc32 : Crc32) (mapShift : Nat) (umem : Umem) (iova iova' : UInt64)
    (length : Nat) :
    ServedAfter crc32 (rxeMemInitUser mapShift (some umem) iova) umem.kernelPages iova' length ↔
      umem.LeavesBuffer mapShift := by
  constructor
  · intro hserved
    by_contra hfull
    unfold Umem.LeavesBuffer at hfull
    push Not at hfull
    obtain ⟨hlen, hsome, hdvd⟩ := hfull
    have hsetup := hserved (some zeroBufs)
    rw [rxeMemInitUser_some _ _ _ _ (Nat.pos_of_ne_zero hlen) hsome, if_pos hdvd] at hsetup
    exact hsetup
  · intro hleaves kmalloc
    cases kmalloc with
    | none => trivial
    | some garbage =>
      -- a region that was set up from these pages
      have hserve : ∀ mem, mem.shape = userShape mapShift umem iova →
          mem.Holds umem.kernelPages garbage →
          (umem.length = 0 ∨ none ∉ umem.pages ∧ ¬2 ^ mapShift ∣ umem.pages.length) →
          memCheckRange mem iova' length = 0 →
          Served crc32 mem umem.kernelPages iova' length := by
        intro mem hshape hholds hpages hrange
        have haccepts := (accepts_iff hholds.type iova' length).mpr hrange
        rw [hshape] at haccepts
        have hin := umem.inTable mapShift iova iova' length hpages haccepts
        have hlt := umem.length_lt
        have hle : (iova' - iova).toNat + length ≤ umem.length :=
          haccepts.le (by change umem.length < _; omega)
        have hposition : mem.position iova' = (iova' - iova).toNat + umem.offset :=
          congrArg (fun shape => shape.position iova') hshape
        exact hholds.served (by omega) hrange (by rw [hshape]; exact hin)
      by_cases hlen : umem.length = 0
      · have hpages : umem.kernelPages = [] := if_neg (by omega)
        have hholds := userShape_holds mapShift umem iova garbage [] (Nat.mul_pos
          (userMem_numMap_pos mapShift umem garbage) (Nat.two_pow_pos mapShift))
        rw [rxeMemInitUser_zero _ _ _ _ hlen]
        intro hrange
        apply hserve _ rfl _ (.inl hlen) hrange
        rw [hpages]
        simp only [bufsOf, map_nil, written_nil] at hholds
        exact hholds
      · have hpos := Nat.pos_of_ne_zero hlen
        by_cases hnone : none ∈ umem.pages
        · rw [rxeMemInitUser_none _ _ _ _ hpos hnone]
          trivial
        · have hwhole := (hleaves.resolve_left hlen).resolve_left hnone
          rw [rxeMemInitUser_some _ _ _ _ hpos hnone, if_neg hwhole]
          intro hrange
          apply hserve _ rfl _ (.inr ⟨hnone, hwhole⟩) hrange
          apply userShape_holds
          have hcount : umem.kernelPages.length = umem.pages.length := by
            unfold Umem.kernelPages
            rw [if_pos hpos, ← length_map (f := some), map_some_reduceOption hnone]
          obtain ⟨hroom, hdvd⟩ := room_of_numMap (n := umem.pages.length)
            (Nat.two_pow_pos mapShift)
          rw [hcount]
          exact Nat.lt_of_le_of_ne hroom fun heq => hwhole (hdvd.mp heq)

/-! ## Regions of registered pages -/

/-- A region of `rxe_mem_init_fast`, with the page size and the offset it has later. -/
structure FastRegion where
  mapShift : Nat
  maxPages : Nat
  pageShift : Nat
  offset : Nat
  maxPages_lt : maxPages < 2 ^ 31
  pageShift_le : pageShift ≤ 30
  offset_lt : offset < 2 ^ pageShift

namespace FastRegion

def numMap (f : FastRegion) : Nat := (f.maxPages + 2 ^ f.mapShift - 1) / 2 ^ f.mapShift

/-- The region that `rxe_mem_map_pages` is called with. -/
def mem (f : FastRegion) (kmalloc : Option (Nat → Nat → PhysBuf)) : Except MemStop RxeMem := do
  let mem ← rxeMemInitFast f.mapShift f.maxPages kmalloc
  return { mem with pageShift := f.pageShift, pageMask := 2 ^ f.pageShift - 1, offset := f.offset }

def setup (f : FastRegion) (pages : List Nat) (iova : UInt64)
    (kmalloc : Option (Nat → Nat → PhysBuf)) : Except MemStop RxeMem := do
  let mem ← f.mem kmalloc
  rxeMemMapPages mem pages iova

/-- The length that is stored, that of `n` pages as an `int`. -/
def storedLength (f : FastRegion) (n : Nat) : Nat :=
  (I32.wrap (n * 2 ^ f.pageShift : Nat) % 2 ^ 64).toNat

def shape (f : FastRegion) (n : Nat) (iova : UInt64) : RegionShape :=
  { mapShift := f.mapShift, numMap := f.numMap, pageShift := f.pageShift, offset := f.offset
    length := f.storedLength n, iova }

/-- The region before its buffers are written. -/
def start (f : FastRegion) (garbage : Nat → Nat → PhysBuf) : RxeMem :=
  { mapShift := f.mapShift
    map := some garbage
    mapMask := 2 ^ f.mapShift - 1
    numBuf := f.maxPages
    numMap := f.numMap
    maxBuf := f.maxPages
    pageShift := f.pageShift
    pageMask := 2 ^ f.pageShift - 1
    offset := f.offset
    state := .free
    type := .mr }

/-- The region when they are written. -/
def finish (f : FastRegion) (pages : List Nat) (iova : UInt64)
    (garbage : Nat → Nat → PhysBuf) : RxeMem :=
  { f.start (written (2 ^ f.mapShift) (bufsOf (2 ^ f.pageShift) pages) garbage) with
    iova := iova, length := f.storedLength pages.length, state := .valid }

variable (f : FastRegion) (pages : List Nat) (iova : UInt64) (garbage : Nat → Nat → PhysBuf)

/-- The pages fill the maps: the loop, or the first access, goes behind them. -/
theorem setup_spec (hle : pages.length ≤ f.maxPages) :
    f.setup pages iova (some garbage) =
      if pages.length = f.numMap * 2 ^ f.mapShift then .error .fault
      else .ok (f.finish pages iova garbage) := by
  have hroom : pages.length ≤ f.numMap * 2 ^ f.mapShift :=
    hle.trans (room_of_numMap (Nat.two_pow_pos f.mapShift)).1
  have hmap : f.setup pages iova (some garbage) =
      rxeMemMapPages (f.start garbage) pages iova := rfl
  have hmax : ¬(f.start garbage).maxBuf < pages.length := Nat.not_lt.mpr hle
  rw [hmap]
  unfold rxeMemMapPages
  rw [if_neg hmax]
  by_cases hnum : f.numMap = 0
  · have hload : (f.start garbage).loadMap 0 = .error .fault := loadMap_behind (Nat.le_of_eq hnum)
    rw [hnum, Nat.zero_mul] at hroom ⊢
    rw [hload, if_pos (Nat.le_zero.mp hroom)]
    rfl
  · have hload : (f.start garbage).loadMap 0 = .ok () := loadMap_ok rfl (Nat.pos_of_ne_zero hnum)
    have hfill := @fillBufs_start (f.start garbage) _ (2 ^ f.pageShift) pages garbage
      (fullAt_beq _) rfl (Nat.pos_of_ne_zero hnum) hroom
    have hfill' : fillBufs (fun numBuf => numBuf == (f.start garbage).bufPerMap)
        (2 ^ (f.start garbage).pageShift) (pages.map some) 0 0 (f.start garbage) =
          if pages.length = f.numMap * 2 ^ f.mapShift then .error .fault
          else .ok ((f.start garbage).setMap
            (written (2 ^ f.mapShift) (bufsOf (2 ^ f.pageShift) pages) garbage)) := hfill
    rw [hload]
    simp only [bind, Except.bind, hfill']
    by_cases hwhole : pages.length = f.numMap * 2 ^ f.mapShift
    · rw [if_pos hwhole, if_pos hwhole]
    · rw [if_neg hwhole, if_neg hwhole]
      rfl

theorem finish_holds (hle : pages.length < f.numMap * 2 ^ f.mapShift) :
    (f.finish pages iova garbage).Holds pages garbage where
  state := rfl
  type := rfl
  map := rfl
  room := hle
  numMap_lt := (numMap_le (Nat.two_pow_pos f.mapShift)).trans_lt f.maxPages_lt
  pageShift_le := f.pageShift_le
  mapMask := rfl
  pageMask := rfl

/-- A length that is negative as an `int` ends a page or more before the end of the addresses. -/
theorem storedLength_le (n : Nat) : f.storedLength n + 2 ^ f.pageShift ≤ 2 ^ 64 := by
  have hdvd : ∀ k, 30 ≤ k → (2 ^ f.pageShift : Int) ∣ 2 ^ k := fun k hk =>
    pow_dvd_pow 2 (f.pageShift_le.trans hk)
  have hwrap : (2 ^ f.pageShift : Int) ∣ I32.wrap (n * 2 ^ f.pageShift : Nat) := by
    unfold I32.wrap
    rw [Int.emod_def]
    refine Int.dvd_sub (Int.dvd_sub (Int.dvd_add ?_ (hdvd 31 (by decide))) ?_) (hdvd 31 (by decide))
    · push_cast
      exact Int.dvd_mul_left _ _
    · exact (hdvd 32 (by decide)).trans (Int.dvd_mul_right _ _)
  have hrest : (2 ^ f.pageShift : Int) ∣
      2 ^ 64 - I32.wrap (n * 2 ^ f.pageShift : Nat) % 2 ^ 64 := by
    rw [Int.emod_def]
    exact Int.dvd_sub (hdvd 64 (by decide))
      (Int.dvd_sub hwrap ((hdvd 64 (by decide)).trans (Int.dvd_mul_right _ _)))
  have hle := Int.le_of_dvd (by omega) hrest
  have hcast : ((2 ^ f.pageShift : Nat) : Int) = 2 ^ f.pageShift := by push_cast; rfl
  unfold storedLength
  omega

attribute [irreducible] storedLength

/-- There are too many pages, and no region is made; or a buffer is left behind the pages, and an
accepted request is in the table. -/
def Fits (f : FastRegion) (pages : Nat) (iova iova' : UInt64) (length : Nat) : Prop :=
  f.maxPages < pages ∨
    pages ≠ f.numMap * 2 ^ f.mapShift ∧
      ((f.shape pages iova).Accepts iova' length → (f.shape pages iova).InTable pages iova' length)

theorem served_iff (crc32 : Crc32) (iova' : UInt64) (length : Nat) :
    ServedAfter crc32 (f.setup pages iova) pages iova' length ↔
      f.Fits pages.length iova iova' length := by
  -- positions of accepted requests are no larger than a `size_t`
  have hposition : ∀ garbage, (f.shape pages.length iova).Accepts iova' length →
      (f.finish pages iova garbage).position iova' < 2 ^ 64 := by
    intro garbage haccepts
    have hstored := f.storedLength_le pages.length
    have hpos := Nat.two_pow_pos f.pageShift
    have hle : (iova' - iova).toNat + length ≤ f.storedLength pages.length :=
      haccepts.le (by change f.storedLength _ < _; omega)
    have hoffset := f.offset_lt
    have heq : (f.finish pages iova garbage).position iova' = (iova' - iova).toNat + f.offset := rfl
    omega
  constructor
  · intro hserved
    by_cases hmany : f.maxPages < pages.length
    · exact .inl hmany
    · have hsetup := hserved (some zeroBufs)
      rw [f.setup_spec _ _ _ (Nat.not_lt.mp hmany)] at hsetup
      by_cases hwhole : pages.length = f.numMap * 2 ^ f.mapShift
      · rw [if_pos hwhole] at hsetup
        exact hsetup.elim
      · rw [if_neg hwhole] at hsetup
        refine .inr ⟨hwhole, fun haccepts => ?_⟩
        have hroom := (room_of_numMap (n := f.maxPages) (Nat.two_pow_pos f.mapShift)).1
        have hholds := f.finish_holds pages iova zeroBufs
          (Nat.lt_of_le_of_ne ((Nat.not_lt.mp hmany).trans hroom) hwhole)
        have hrange := (accepts_iff hholds.type iova' length).mp haccepts
        exact hholds.inTable (hposition zeroBufs haccepts) hrange (hsetup hrange)
  · intro hfits kmalloc
    cases kmalloc with
    | none => trivial
    | some garbage =>
      rcases hfits with hmany | ⟨hwhole, hin⟩
      · have hmap : f.setup pages iova (some garbage) = .error (.errno memEinval) := if_pos hmany
        rw [hmap]
        trivial
      · by_cases hmany : f.maxPages < pages.length
        · have hmap : f.setup pages iova (some garbage) = .error (.errno memEinval) :=
            if_pos hmany
          rw [hmap]
          trivial
        · rw [f.setup_spec _ _ _ (Nat.not_lt.mp hmany), if_neg hwhole]
          intro hrange
          have hroom := (room_of_numMap (n := f.maxPages) (Nat.two_pow_pos f.mapShift)).1
          have hholds := f.finish_holds pages iova garbage
            (Nat.lt_of_le_of_ne ((Nat.not_lt.mp hmany).trans hroom) hwhole)
          have haccepts := (accepts_iff hholds.type iova' length).mpr hrange
          exact hholds.served (hposition garbage haccepts) hrange (hin haccepts)

end FastRegion

/-- A region is set up within its maps and serves a request exactly when its pages leave a buffer
of the maps unused, and, for registered pages, when the request is in them. -/
theorem region_served_iff (crc32 : Crc32) :
    (∀ mapShift umem iova iova' length,
      ServedAfter crc32 (rxeMemInitUser mapShift (some umem) iova) umem.kernelPages iova' length ↔
        umem.LeavesBuffer mapShift) ∧
    (∀ (f : FastRegion) pages iova iova' length,
      ServedAfter crc32 (f.setup pages iova) pages iova' length ↔
        f.Fits pages.length iova iova' length) :=
  ⟨user_served_iff crc32, fun f pages iova iova' length =>
    f.served_iff pages iova crc32 iova' length⟩

/-- One byte of the reflected CRC-32, bit by bit. -/
def crcByte (crc : UInt32) (byte : UInt8) : UInt32 :=
  (List.range 8).foldl (fun crc _ => crc >>> 1 ^^^ if crc &&& 1 = 1 then 0xedb88320 else 0)
    (crc ^^^ byte.toUInt32)

def crc32Le : Crc32 := ⟨foldl crcByte, fun _ => rfl, fun _ _ _ => foldl_append.symm⟩

def twoPages : FastRegion :=
  { mapShift := 8, maxPages := 2, pageShift := 12, offset := 0
    maxPages_lt := by decide, pageShift_le := by decide, offset_lt := by decide }

theorem twoPages_served :
    ServedAfter crc32Le (twoPages.setup [0x1000, 0x8000] 0) [0x1000, 0x8000] 4096 4096 :=
  (twoPages.served_iff _ 0 crc32Le 4096 4096).mpr
    (.inr ⟨by decide, fun _ => show 4096 + 0 + 4096 ≤ 2 * 2 ^ 12 by decide⟩)

def megabyte : Umem :=
  { address := 0x7f0000000000, length := 256 * 2 ^ 12, pageShift := 12
    pages := List.replicate 256 (some 0xffff888000000000)
    pages_ne_nil := replicate_succ_ne_nil (n := 255)
    nmap_lt := by rw [length_replicate]; decide
    pageShift_pos := by decide
    pageShift_le := by decide
    no_overflow := by decide
    covers := by rw [length_replicate]; decide }

/-- Its 256 pages fill a map, and the loop loads the pointer of a second one. -/
theorem megabyte_not_served :
    ¬ ∀ (crc32 : Crc32) (mapShift : Nat) (umem : Umem) (iova iova' : UInt64) (length : Nat),
      ServedAfter crc32 (rxeMemInitUser mapShift (some umem) iova) umem.kernelPages iova'
        length := by
  intro hall
  have hleaves := (user_served_iff crc32Le 8 megabyte 0 0 1).mp (hall crc32Le 8 megabyte 0 0 1)
  have hlength : megabyte.pages.length = 256 := length_replicate
  rcases hleaves with hempty | hnone | hwhole
  · exact absurd hempty (by decide)
  · exact nomatch eq_of_mem_replicate hnone
  · rw [hlength] at hwhole
    exact hwhole (by decide)

end Rxe.Mr
