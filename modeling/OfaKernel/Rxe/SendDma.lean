-- SUMMARY: The DMA cursor of an rxe work element.
import Mathlib.Data.List.Basic
import OfaKernel.Lib.CInt

/-!
# The DMA cursor

The cursor is the current scatter-gather element, the offset in it and the bytes left of the
whole. `copy_data` moves it as it copies, `advance_dma_data` moves it alone.
-/

namespace Rxe

structure RxeSge where
  addr : UInt64
  length : Nat
  lkey : UInt32
  deriving Repr, DecidableEq

/-- `struct rxe_dma_info`. The elements and the inline data share their place there. -/
structure DmaInfo where
  length : Nat
  resid : Nat
  curSge : Nat := 0
  sgeOffset : Nat := 0
  sge : List RxeSge := []
  inlineData : List UInt8 := []
  deriving Repr, DecidableEq

/-- The regions of a protection domain, and `rxe_mem_copy` on what it works on: the memory, the
rest of the caller's buffer and the checksum. -/
structure SgeMem (σ : Type) where
  lookupMem : UInt32 → Option Nat
  rxeMemCopy : Nat → UInt64 → Nat → σ → Option σ

/-- The address of a byte of an element; its offset is an `int`. -/
def RxeSge.iova (s : RxeSge) (offset : Nat) : UInt64 := s.addr + .ofInt (I32.wrap offset)

def dmaEinval : Int := -22
def dmaEfault : Int := -14
def dmaEnospc : Int := -28

/-- The variables of the two loops: `dma->cur_sge`, `offset`, `resid` and `length`. -/
structure DmaCursor where
  curSge : Nat
  offset : Nat
  resid : Nat
  length : Nat
  deriving Repr, DecidableEq

def DmaCursor.nextSge (c : DmaCursor) : DmaCursor := { c with curSge := c.curSge + 1, offset := 0 }

/-- `bytes` bytes of the current element are done. -/
def DmaCursor.take (c : DmaCursor) (bytes : Nat) : DmaCursor :=
  { c with offset := c.offset + bytes, resid := c.resid - bytes, length := c.length - bytes }

/-- The bytes of an element that a turn takes. -/
def DmaCursor.bytes (c : DmaCursor) (s : RxeSge) : Nat := min c.length (s.length - c.offset)

section Copy

variable {σ : Type} (mem : SgeMem σ)

/-- The copy from or to an element, whose region was looked up when the loop came to it. -/
def copyBytes (s : RxeSge) (c : DmaCursor) (st : σ) : (DmaCursor × σ) × Int :=
  match mem.lookupMem s.lkey with
  | none => ((c, st), dmaEinval)
  | some region =>
    match mem.rxeMemCopy region (s.iova c.offset) (c.bytes s) st with
    | none => ((c, st), dmaEfault)
    | some st => ((c.take (c.bytes s), st), 0)

/-- One turn of the loop of `copy_data`. There is no element behind the list to be read. -/
def copyTurn (sge : List RxeSge) (c : DmaCursor) (st : σ) : (DmaCursor × σ) × Int :=
  match sge[c.curSge]? with
  | none => ((c, st), dmaEinval)
  | some s =>
    if s.length ≤ c.offset then
      match sge[c.curSge + 1]? with
      | none => ((c.nextSge, st), dmaEnospc)
      | some s => if s.length = 0 then ((c.nextSge, st), 0) else copyBytes mem s c.nextSge st
    else copyBytes mem s c st

def copyLoop (sge : List RxeSge) : Nat → DmaCursor → σ → (DmaCursor × σ) × Int
  | 0, c, st => ((c, st), 0)
  | fuel + 1, c, st =>
    if c.length = 0 then ((c, st), 0)
    else
      let r := copyTurn mem sge c st
      if r.2 = 0 then copyLoop sge fuel r.1.1 r.1.2 else r

end Copy

def advanceTurn (sge : List RxeSge) (c : DmaCursor) : DmaCursor × Int :=
  match sge[c.curSge]? with
  | none => (c, dmaEinval)
  | some s =>
    if s.length ≤ c.offset then
      match sge[c.curSge + 1]? with
      | none => (c.nextSge, dmaEnospc)
      | some s => (c.nextSge.take (c.nextSge.bytes s), 0)
    else (c.take (c.bytes s), 0)

def advanceLoop (sge : List RxeSge) : Nat → DmaCursor → DmaCursor × Int
  | 0, c => (c, 0)
  | fuel + 1, c =>
    if c.length = 0 then (c, 0)
    else
      let r := advanceTurn sge c
      if r.2 = 0 then advanceLoop sge fuel r.1 else r

/-- Every turn goes to the next element or takes a byte. -/
def DmaInfo.fuel (dma : DmaInfo) (length : Nat) : Nat := dma.sge.length + length

def DmaInfo.cursor (dma : DmaInfo) (length : Nat) : DmaCursor :=
  ⟨dma.curSge, dma.sgeOffset, dma.resid, length⟩

/-- The descriptor after a loop: `cur_sge` was written all along, the rest at its end. -/
def DmaInfo.finish (dma : DmaInfo) (c : DmaCursor) (err : Int) : DmaInfo :=
  if err = 0 then { dma with curSge := c.curSge, sgeOffset := c.offset, resid := c.resid }
  else { dma with curSge := c.curSge }

/-- The descriptor of an element that nothing was taken of. -/
def DmaInfo.rewind (dma : DmaInfo) : DmaInfo :=
  { dma with resid := dma.length, curSge := 0, sgeOffset := 0 }

/-- `copy_data` for a length that is not negative. The rest is read as an `int`. -/
def copyData {σ : Type} (mem : SgeMem σ) (dma : DmaInfo) (length : Nat) (st : σ) :
    (DmaInfo × σ) × Int :=
  if length = 0 then ((dma, st), 0)
  else if I32.wrap dma.resid < length then ((dma, st), dmaEinval)
  else
    let r := copyLoop mem dma.sge (dma.fuel length) (dma.cursor length) st
    ((dma.finish r.1.1 r.2, r.1.2), r.2)

def advanceDmaData (dma : DmaInfo) (length : Nat) : DmaInfo × Int :=
  let r := advanceLoop dma.sge (dma.fuel length) (dma.cursor length)
  (dma.finish r.1 r.2, r.2)

/-! ## The two loops in step -/

variable {σ : Type} {mem : SgeMem σ} {sge : List RxeSge} {c : DmaCursor} {st : σ}

theorem copyBytes_ok {s : RxeSge} (h : (copyBytes mem s c st).2 = 0) :
    (copyBytes mem s c st).1.1 = c.take (c.bytes s) := by
  unfold copyBytes at h ⊢
  split
  · simp_all [dmaEinval]
  · split <;> simp_all [dmaEfault]

/-- A turn of `copy_data` that succeeds moves the cursor as one of `advance_dma_data` does. -/
theorem advanceTurn_of_copyTurn (h : (copyTurn mem sge c st).2 = 0) :
    advanceTurn sge c = ((copyTurn mem sge c st).1.1, 0) := by
  unfold copyTurn at h ⊢
  unfold advanceTurn
  cases hcur : sge[c.curSge]? with
  | none =>
    rw [hcur] at h
    cases h
  | some s =>
    rw [hcur] at h
    dsimp only at h ⊢
    by_cases hend : s.length ≤ c.offset
    · rw [if_pos hend] at h ⊢
      rw [if_pos hend]
      cases hnext : sge[c.curSge + 1]? with
      | none =>
        rw [hnext] at h
        cases h
      | some s' =>
        rw [hnext] at h
        dsimp only at h ⊢
        by_cases hzero : s'.length = 0
        · -- nothing is taken of an element without bytes
          have hnone : c.nextSge.bytes s' = 0 := by
            unfold DmaCursor.bytes
            rw [hzero, Nat.zero_sub, Nat.min_zero]
          rw [if_pos hzero, hnone]
          rfl
        · rw [if_neg hzero] at h ⊢
          rw [copyBytes_ok h]
    · rw [if_neg hend] at h ⊢
      rw [if_neg hend, copyBytes_ok h]

theorem advanceLoop_of_copyLoop {fuel : Nat} (h : (copyLoop mem sge fuel c st).2 = 0) :
    advanceLoop sge fuel c = ((copyLoop mem sge fuel c st).1.1, 0) := by
  induction fuel generalizing c st with
  | zero => rfl
  | succ fuel ih =>
    unfold copyLoop at h ⊢
    unfold advanceLoop
    by_cases hlen : c.length = 0
    · rw [if_pos hlen, if_pos hlen]
    · rw [if_neg hlen] at h ⊢
      rw [if_neg hlen]
      by_cases hturn : (copyTurn mem sge c st).2 = 0
      · rw [if_pos hturn] at h ⊢
        rw [advanceTurn_of_copyTurn hturn, if_pos rfl]
        exact ih h
      · rw [if_neg hturn] at h
        exact absurd h hturn

/-- The list has no element for the cursor. -/
def DmaCursor.Behind (sge : List RxeSge) (c : DmaCursor) : Prop := sge.length ≤ c.curSge

/-- What a turn that succeeds does: it takes bytes, or goes on by an element. -/
theorem advanceTurn_spec (hle : c.length ≤ c.resid) (hpos : 0 < c.length) {c' : DmaCursor}
    (h : advanceTurn sge c = (c', 0)) :
    c'.length ≤ c'.resid ∧ c'.resid + c.length = c.resid + c'.length ∧
      (sge.length - c'.curSge) + c'.length < (sge.length - c.curSge) + c.length := by
  have htake : ∀ (c₁ : DmaCursor) (s : RxeSge), c₁.length ≤ c₁.resid →
      (c₁.take (c₁.bytes s)).length ≤ (c₁.take (c₁.bytes s)).resid ∧
        (c₁.take (c₁.bytes s)).resid + c₁.length =
          c₁.resid + (c₁.take (c₁.bytes s)).length := by
    intro c₁ s hle₁
    have hb : c₁.bytes s ≤ c₁.length := Nat.min_le_left _ _
    unfold DmaCursor.take
    all_goals dsimp only; omega
  unfold advanceTurn at h
  split at h
  case h_1 => cases h
  case h_2 s hs =>
    have hlt : c.curSge < sge.length := (List.getElem?_eq_some_iff.mp hs).1
    split at h
    case isTrue hend =>
      split at h
      case h_1 => cases h
      case h_2 s' hs' =>
        cases h
        obtain ⟨hle', hres'⟩ := htake c.nextSge s' hle
        refine ⟨hle', hres', ?_⟩
        have hlen : (c.nextSge.take (c.nextSge.bytes s')).length ≤ c.length := Nat.sub_le _ _
        have hcur : (c.nextSge.take (c.nextSge.bytes s')).curSge = c.curSge + 1 := rfl
        omega
    case isFalse hmid =>
      cases h
      obtain ⟨hle', hres'⟩ := htake c s hle
      have hbytes : 0 < c.bytes s := Nat.lt_min.mpr ⟨hpos, by omega⟩
      have hlen : (c.take (c.bytes s)).length = c.length - c.bytes s := rfl
      have hcur : (c.take (c.bytes s)).curSge = c.curSge := rfl
      omega

theorem behind_of_advanceTurn (h : (advanceTurn sge c).2 ≠ 0) :
    (advanceTurn sge c).1.Behind sge := by
  unfold advanceTurn at h ⊢
  split
  case h_1 hnone => exact List.getElem?_eq_none_iff.mp hnone
  case h_2 s hs =>
    rw [hs] at h
    dsimp only at h
    split
    case isTrue hend =>
      rw [if_pos hend] at h
      split
      case h_1 hnone => exact List.getElem?_eq_none_iff.mp hnone
      case h_2 s' hs' =>
        rw [hs'] at h
        exact absurd rfl h
    case isFalse hmid =>
      rw [if_neg hmid] at h
      exact absurd rfl h

/-- What the loop does: it takes all the bytes, or it runs over the end of the list. -/
theorem advanceLoop_spec {fuel : Nat} (hle : c.length ≤ c.resid)
    (hfuel : (sge.length - c.curSge) + c.length ≤ fuel) :
    ((advanceLoop sge fuel c).2 = 0 ∧ (advanceLoop sge fuel c).1.resid + c.length = c.resid) ∨
      ((advanceLoop sge fuel c).2 ≠ 0 ∧ (advanceLoop sge fuel c).1.Behind sge) := by
  induction fuel generalizing c with
  | zero =>
    have hzero : c.length = 0 := by omega
    exact .inl ⟨rfl, by rw [hzero]; rfl⟩
  | succ fuel ih =>
    unfold advanceLoop
    by_cases hlen : c.length = 0
    · rw [if_pos hlen, hlen]
      exact .inl ⟨rfl, rfl⟩
    · rw [if_neg hlen]
      by_cases hturn : (advanceTurn sge c).2 = 0
      · rw [if_pos hturn]
        have hstep : advanceTurn sge c = ((advanceTurn sge c).1, 0) := by rw [← hturn]
        obtain ⟨hle', hres, hless⟩ := advanceTurn_spec hle (by omega) hstep
        rcases ih hle' (by omega) with ⟨hok, hres'⟩ | hfail
        · exact .inl ⟨hok, by omega⟩
        · exact .inr hfail
      · rw [if_neg hturn]
        exact .inr ⟨hturn, behind_of_advanceTurn hturn⟩

/-- The cursor never goes back. -/
theorem curSge_advanceLoop (sge : List RxeSge) (c : DmaCursor) (fuel : Nat) :
    c.curSge ≤ (advanceLoop sge fuel c).1.curSge := by
  have hturn : ∀ c : DmaCursor, c.curSge ≤ (advanceTurn sge c).1.curSge := by
    intro c
    unfold advanceTurn
    repeat' split
    all_goals first | exact Nat.le_refl _ | exact Nat.le_succ _
  induction fuel generalizing c with
  | zero => exact Nat.le_refl _
  | succ fuel ih =>
    unfold advanceLoop
    dsimp only
    split
    case isTrue => exact Nat.le_refl _
    case isFalse =>
      split
      · exact Nat.le_trans (hturn c) (ih _)
      · exact hturn c

variable {dma : DmaInfo} {length : Nat}

theorem advanceDmaData_of_copyData (h : (copyData mem dma length st).2 = 0) :
    advanceDmaData dma length = ((copyData mem dma length st).1.1, 0) := by
  unfold copyData at h ⊢
  by_cases hlen : length = 0
  · have hloop : advanceLoop dma.sge (dma.fuel length) (dma.cursor length) =
        (dma.cursor length, 0) := by
      subst hlen
      cases dma.fuel 0 <;> rfl
    unfold advanceDmaData
    rw [if_pos hlen, hloop]
    rfl
  · rw [if_neg hlen] at h ⊢
    by_cases hres : I32.wrap dma.resid < length
    · rw [if_pos hres] at h
      cases h
    · rw [if_neg hres] at h ⊢
      dsimp only at h ⊢
      unfold advanceDmaData
      rw [advanceLoop_of_copyLoop h, h]

theorem rewind_finish (dma : DmaInfo) (c : DmaCursor) (err : Int) :
    (dma.finish c err).rewind = dma.rewind := by
  unfold DmaInfo.finish
  split <;> rfl

theorem rewind_copyData (mem : SgeMem σ) (dma : DmaInfo) (length : Nat) (st : σ) :
    (copyData mem dma length st).1.1.rewind = dma.rewind := by
  unfold copyData
  split
  · rfl
  · split
    · rfl
    · exact rewind_finish _ _ _

theorem rewind_advanceDmaData (dma : DmaInfo) (length : Nat) :
    (advanceDmaData dma length).1.rewind = dma.rewind := rewind_finish _ _ _

/-- Advancing takes `length` bytes, or it leaves the bytes to go and runs over the list. -/
theorem advanceDmaData_spec (hle : length ≤ dma.resid) :
    ((advanceDmaData dma length).2 = 0 ∧
        (advanceDmaData dma length).1.resid = dma.resid - length) ∨
      ((advanceDmaData dma length).2 ≠ 0 ∧
        (advanceDmaData dma length).1.resid = dma.resid ∧
        dma.sge.length ≤ (advanceDmaData dma length).1.curSge) := by
  have hfuel : dma.sge.length - dma.curSge + length ≤ dma.fuel length := by
    unfold DmaInfo.fuel
    omega
  unfold advanceDmaData DmaInfo.finish
  dsimp only
  rcases advanceLoop_spec (c := dma.cursor length) hle hfuel with ⟨hok, hres⟩ | ⟨hfail, hbehind⟩
  · rw [if_pos hok]
    exact .inl ⟨hok, Nat.eq_sub_of_add_eq hres⟩
  · rw [if_neg hfail]
    exact .inr ⟨hfail, rfl, hbehind⟩

theorem curSge_advanceDmaData (dma : DmaInfo) (length : Nat) :
    dma.curSge ≤ (advanceDmaData dma length).1.curSge := by
  have hloop := curSge_advanceLoop dma.sge (dma.cursor length) (dma.fuel length)
  unfold advanceDmaData DmaInfo.finish
  dsimp only
  split <;> exact hloop

theorem copyData_behind (mem : SgeMem σ) (st : σ) (hbehind : dma.sge.length ≤ dma.curSge)
    (hpos : 0 < length) :
    (copyData mem dma length st).2 ≠ 0 := by
  have hcur : dma.sge[dma.curSge]? = none := List.getElem?_eq_none_iff.mpr hbehind
  have hturn : copyTurn mem dma.sge (dma.cursor length) st =
      ((dma.cursor length, st), dmaEinval) := by
    unfold copyTurn DmaInfo.cursor
    rw [hcur]
  have hfuel : dma.fuel length = (dma.sge.length + (length - 1)) + 1 := by
    unfold DmaInfo.fuel
    omega
  unfold copyData
  rw [if_neg (Nat.ne_of_gt hpos)]
  split
  case isTrue => simp [dmaEinval]
  case isFalse =>
    have hlen : (dma.cursor length).length ≠ 0 := Nat.ne_of_gt hpos
    rw [hfuel, copyLoop, if_neg hlen, hturn]
    simp [dmaEinval]

end Rxe
