-- SUMMARY: Runs of `copy_data` over the chunks of a descriptor.
import OfaKernel.Rxe.SgeCursor
import Mathlib.Data.List.Induction
import Mathlib.Data.List.TakeWhile

/-!
# The chunks of a descriptor

Calls that take a descriptor chunk by chunk move its bytes in order, up to the first byte that
cannot be moved.
-/

open List

namespace Rxe

/-- The length of the elements together. -/
def sgeTotal (sge : List RxeSge) : Nat := (sge.map (·.length)).sum

/-- A descriptor as it is posted. -/
def freshDma (sge : List RxeSge) : DmaInfo :=
  { length := sgeTotal sge, resid := sgeTotal sge, sge := sge }

/-- The element the cursor is in when `a` bytes were taken: that of the last one of them. -/
def curElem (sge : List RxeSge) (a : Nat) : Nat :=
  if a = 0 then 0 else ((sgeBytes sge)[a - 1]?.map (·.elem)).getD 0

/-- The bytes of that element that are left. -/
def currentBytes (sge : List RxeSge) (a : Nat) : List SgeByte :=
  ((sgeBytes sge).drop a).takeWhile fun b => b.elem = curElem sge a

def curOffset (sge : List RxeSge) (a : Nat) : Nat :=
  (sge[curElem sge a]?.map (·.length)).getD 0 - (currentBytes sge a).length

/-- A byte as the next call addresses it. -/
def addressed (sge : List RxeSge) (a : Nat) (b : SgeByte) : SgeByte :=
  (⟨curElem sge a, curOffset sge a, 0, 0⟩ : DmaCursor).formed b

/-- The descriptor when `a` bytes were taken. -/
structure DmaInfo.AtByte (dma : DmaInfo) (sge : List RxeSge) (a : Nat) : Prop where
  elements : dma.sge = sge
  inside : (dma.cursor 0).Inside sge
  rest : (dma.cursor 0).restBytes sge = (sgeBytes sge).drop a
  resid : dma.resid = sgeTotal sge - a
  elem : dma.curSge = curElem sge a

section Position

variable {sge : List RxeSge} {dma : DmaInfo} {a n : Nat}

theorem length_bytesFrom (i : Nat) (sge : List RxeSge) :
    (bytesFrom i sge).length = sgeTotal sge := by
  induction sge generalizing i with
  | nil => rfl
  | cons s sge ih =>
    unfold bytesFrom
    rw [length_append, length_elemBytes, ih]
    rfl

theorem length_sgeBytes (sge : List RxeSge) : (sgeBytes sge).length = sgeTotal sge :=
  length_bytesFrom 0 sge

theorem freshDma_atByte (sge : List RxeSge) : (freshDma sge).AtByte sge 0 where
  elements := rfl
  inside := fun s _ => Nat.zero_le _
  rest := by
    cases sge with
    | nil => rfl
    | cons s sge => rfl
  resid := rfl
  elem := rfl

/-- The bytes left in the element of the cursor. -/
theorem DmaInfo.AtByte.hereBytes (h : dma.AtByte sge a) :
    (dma.cursor 0).hereBytes sge = currentBytes sge a := by
  have helem : curElem sge a = (dma.cursor 0).curSge := h.elem.symm
  unfold currentBytes
  rw [← h.rest, helem]
  unfold DmaCursor.restBytes
  have hhere : ∀ b ∈ (dma.cursor 0).hereBytes sge, b.elem = (dma.cursor 0).curSge := by
    intro b hb
    unfold DmaCursor.hereBytes at hb
    split at hb
    case h_1 => cases hb
    case h_2 s hs =>
      obtain ⟨k, -, rfl⟩ := mem_map.mp hb
      rfl
  have hlater : (laterBytes sge ((dma.cursor 0).curSge + 1)).takeWhile
      (fun b => decide (b.elem = (dma.cursor 0).curSge)) = [] := by
    rw [takeWhile_eq_nil_iff]
    intro hpos hb
    have hle := le_elem_of_mem (get_mem _ ⟨0, hpos⟩)
    have heq := of_decide_eq_true hb
    omega
  rw [takeWhile_append_of_pos (by simpa using hhere), hlater, append_nil]

theorem DmaInfo.AtByte.offset (h : dma.AtByte sge a) {s : RxeSge} (hs : sge[dma.curSge]? = some s) :
    dma.sgeOffset = curOffset sge a := by
  have hcur : sge[(dma.cursor 0).curSge]? = some s := hs
  have hle : dma.sgeOffset ≤ s.length := h.inside s hs
  have hlen : (currentBytes sge a).length = s.length - dma.sgeOffset := by
    rw [← h.hereBytes, DmaCursor.hereBytes_some hcur, length_elemBytes]
    rfl
  unfold curOffset
  rw [hlen, ← h.elem, hs, Option.map_some, Option.getD_some]
  omega

/-- The bytes behind the cursor are addressed as their number says. -/
theorem DmaInfo.AtByte.map_formed (h : dma.AtByte sge a) {bytes : List SgeByte}
    (hbytes : ∀ b ∈ bytes, b ∈ (sgeBytes sge).drop a) :
    bytes.map (dma.cursor n).formed = bytes.map (addressed sge a) := by
  refine map_congr_left fun b hb => ?_
  have hpos : 0 < ((dma.cursor 0).restBytes sge).length := by
    rw [h.rest]
    exact length_pos_of_mem (hbytes b hb)
  obtain ⟨s, hs, -⟩ := DmaCursor.next_elem hpos
  unfold addressed DmaCursor.formed
  rw [← h.offset hs, ← h.elem]
  rfl

theorem length_le_sgeTotal {s : RxeSge} (hs : s ∈ sge) : s.length ≤ sgeTotal sge := by
  obtain ⟨before, after, rfl⟩ := append_of_mem hs
  unfold sgeTotal
  rw [map_append, sum_append, map_cons, sum_cons]
  omega

/-- At the start of a descriptor, and everywhere in a short one, the bytes are addressed as they
should be. -/
theorem addressed_eq (h : sgeTotal sge < 2 ^ 31 ∨ a = 0) (b : SgeByte) : addressed sge a b = b := by
  refine DmaCursor.formed_of_small ?_ b
  change curOffset sge a < 2 ^ 31
  rcases h with hshort | rfl
  · unfold curOffset
    cases hs : sge[curElem sge a]? with
    | none =>
      rw [Option.map_none, Option.getD_none, Nat.zero_sub]
      decide
    | some s =>
      have hle := length_le_sgeTotal (mem_of_getElem? hs)
      rw [Option.map_some, Option.getD_some]
      omega
  · cases sge with
    | nil => decide
    | cons s sge =>
      rw [← (freshDma_atByte (s :: sge)).offset rfl]
      exact Nat.two_pow_pos 31

theorem DmaInfo.AtByte.advance (h : dma.AtByte sge a) (hn : n ≤ sgeTotal sge - a) :
    ∃ c', advanceLoop sge (dma.fuel n) (dma.cursor n) = (c', 0) ∧
      advanceDmaData dma n = (dma.finish c' 0, 0) ∧ (dma.finish c' 0).AtByte sge (a + n) := by
  have hrest : (dma.cursor n).restBytes sge = (sgeBytes sge).drop a := h.rest
  have hlen : ((dma.cursor n).restBytes sge).length = sgeTotal sge - a := by
    rw [hrest, length_drop, length_sgeBytes]
  have hfuel : sge.length - (dma.cursor n).curSge + (dma.cursor n).length ≤ dma.fuel n := by
    unfold DmaInfo.fuel
    rw [h.elements]
    exact Nat.add_le_add_right (Nat.sub_le _ _) _
  obtain ⟨c', hloop, hinside, hrest', hresid, helem, hsame⟩ :=
    advanceLoop_take (c := dma.cursor n) (by rw [hlen]; exact hn) h.inside hfuel
  refine ⟨c', hloop, ?_, h.elements, hinside, ?_, ?_, ?_⟩
  · unfold advanceDmaData
    rw [h.elements, hloop]
  · refine hrest'.trans ?_
    rw [hrest, drop_drop]
    rfl
  · have hresid' : c'.resid = dma.resid - n := hresid
    change c'.resid = _
    rw [hresid', h.resid, Nat.sub_sub]
  · unfold curElem
    by_cases hzero : n = 0
    · subst hzero
      rw [hsame rfl]
      exact h.elem
    · have hlabel := helem (Nat.pos_of_ne_zero hzero)
      change ((dma.cursor n).restBytes sge)[n - 1]?.map _ = _ at hlabel
      rw [hrest, List.getElem?_drop] at hlabel
      rw [if_neg (by omega), show a + n - 1 = a + (n - 1) by omega, hlabel]
      rfl

end Position

/-! ## One call -/

section Call

variable {σ : Type} (acc : SgeAccess σ) {sge : List RxeSge} {dma : DmaInfo} {a n : Nat}

theorem dmaEinval_ne : dmaEinval ≠ 0 := by decide

/-- A call on a rest that is negative as an `int` is refused. -/
theorem copyData_large (h : dma.AtByte sge a) (hn : n ≠ 0) (hlarge : 2 ^ 31 ≤ sgeTotal sge - a)
    (hlt : sgeTotal sge < 2 ^ 32) (st : σ) :
    copyData acc.toSgeMem dma n st = ((dma, st), dmaEinval) := by
  have hneg : I32.wrap dma.resid < n := by
    rw [h.resid, I32.wrap_natCast (by omega), if_neg (by omega)]
    omega
  unfold copyData
  rw [if_neg hn, if_pos hneg]

/-- Any other call moves its bytes, as it addresses them, and advances over them; or it fails, and
leaves the descriptor as it was exactly when a byte of the current element could not be moved. -/
theorem copyData_spec (h : dma.AtByte sge a) (hn : n ≤ sgeTotal sge - a)
    (hsmall : sgeTotal sge - a < 2 ^ 31) (st : σ) :
    match acc.moveBytes ((((sgeBytes sge).drop a).take n).map (addressed sge a)) st with
    | some st' => copyData acc.toSgeMem dma n st = (((advanceDmaData dma n).1, st'), 0)
    | none => (copyData acc.toSgeMem dma n st).2 ≠ 0 ∧
        ((copyData acc.toSgeMem dma n st).1.1 = dma ↔
          acc.moveBytes (((currentBytes sge a).take n).map (addressed sge a)) st = none) := by
  obtain ⟨c', hloop, hadvance, -⟩ := h.advance hn
  by_cases hzero : n = 0
  · subst hzero
    have hmap : copyData acc.toSgeMem dma 0 st = ((dma, st), 0) := if_pos rfl
    have hstay : (advanceDmaData dma 0).1 = dma := by
      unfold advanceDmaData
      have hnone : advanceLoop dma.sge (dma.fuel 0) (dma.cursor 0) = (dma.cursor 0, 0) := by
        cases dma.fuel 0 <;> rfl
      rw [hnone]
      rfl
    rw [take_zero, hmap, hstay]
    rfl
  · have hfits : ¬I32.wrap dma.resid < n := by
      rw [h.resid, I32.wrap_natCast (by omega), if_pos hsmall]
      omega
    have hrest : (dma.cursor n).restBytes sge = (sgeBytes sge).drop a := h.rest
    have hhere : (dma.cursor n).hereBytes sge = currentBytes sge a := h.hereBytes
    have hcopy := @copyLoop_spec _ acc sge (dma.cursor n) (dma.fuel n) st
      (by
        rw [hrest, length_drop, length_sgeBytes]
        exact hn) (by
        unfold DmaInfo.fuel
        rw [h.elements]
        exact Nat.add_le_add_right (Nat.sub_le _ _) _)
    have hlength : (dma.cursor n).length = n := rfl
    have hcurrent : ∀ b ∈ (currentBytes sge a).take n, b ∈ (sgeBytes sge).drop a := fun b hb =>
      (takeWhile_sublist _).subset (mem_of_mem_take hb)
    rw [hrest, hhere, hlength, hloop, h.map_formed fun b hb => mem_of_mem_take hb,
      h.map_formed hcurrent] at hcopy
    unfold copyData
    rw [if_neg hzero, if_neg hfits, h.elements]
    cases hmove : acc.moveBytes ((((sgeBytes sge).drop a).take n).map (addressed sge a)) st with
    | some st' =>
      rw [hmove] at hcopy
      rw [hcopy, hadvance]
    | none =>
      rw [hmove] at hcopy
      obtain ⟨c₂, st', e, hcopy, he, -, hiff⟩ := hcopy
      dsimp only
      rw [hcopy]
      refine ⟨he, ?_⟩
      have hfinish : dma.finish c₂ e = { dma with curSge := c₂.curSge } := if_neg he
      rw [← hiff]
      rw [hfinish]
      exact ⟨fun heq => congrArg DmaInfo.curSge heq, fun hcur => by rw [hcur]; rfl⟩

end Call

/-! ## The calls of a split -/

/-- A descriptor, whose length is a `u32`, and a split of its length into chunks, which are `int`s.
-/
structure ChunkedDma where
  sge : List RxeSge
  chunks : List Nat
  length_lt : sgeTotal sge < 2 ^ 32
  chunks_lt : ∀ n ∈ chunks, n < 2 ^ 31
  chunks_sum : chunks.sum = sgeTotal sge

section Calls

variable {σ : Type} (acc : SgeAccess σ)

/-- A call moves the first `n` of the bytes when they can be moved, and otherwise fails and leaves
the descriptor as it was. -/
def CallMoves (dma : DmaInfo) (bytes : List SgeByte) (n : Nat) (st : σ) : Prop :=
  match acc.moveBytes (bytes.take n) st with
  | some st' => ∃ dma', copyData acc.toSgeMem dma n st = ((dma', st'), 0)
  | none => (copyData acc.toSgeMem dma n st).2 ≠ 0 ∧
      (copyData acc.toSgeMem dma n st).1.1 = dma

/-- The calls of a split move the bytes in order, and each call after them does too. Advancing by
the same chunks succeeds and reaches the same descriptors. -/
structure ChunksMove (d : ChunkedDma) (st : σ) : Prop where
  copy : ∀ ks n ns, d.chunks = ks ++ n :: ns → ∀ dma st',
    copyCalls acc.toSgeMem ks (freshDma d.sge) st = ((dma, st'), 0) →
      acc.moveBytes ((sgeBytes d.sge).take ks.sum) st = some st' ∧
        CallMoves acc dma ((sgeBytes d.sge).drop ks.sum) n st'
  advance : ∀ ks ns, d.chunks = ks ++ ns → ∃ dma,
    advanceCalls ks (freshDma d.sge) = (dma, 0) ∧
      (∀ dma' st', copyCalls acc.toSgeMem ks (freshDma d.sge) st = ((dma', st'), 0) →
        dma' = dma) ∧
      ∀ n st₁ dma' st₂, copyData acc.toSgeMem dma n st₁ = ((dma', st₂), 0) →
        acc.moveBytes (((sgeBytes d.sge).drop ks.sum).take n) st₁ = some st₂

/-- A call of `n` bytes behind `a` of them goes right: it takes none, or all can be moved and the
rest fits an `int`, or a byte of the current element cannot be moved. -/
def CallClean (sge : List RxeSge) (a n : Nat) (st : σ) : Prop :=
  n = 0 ∨
    if (acc.moveBytes (((sgeBytes sge).drop a).take n) st).isSome then
      sgeTotal sge - a < 2 ^ 31
    else
      2 ^ 31 ≤ sgeTotal sge - a ∨ acc.moveBytes ((currentBytes sge a).take n) st = none

/-- Bytes that are moved from where a call behind `a` of them looks are those that it should move.
-/
def AddressClean (sge : List RxeSge) (a : Nat) : Prop :=
  2 ^ 31 ≤ sgeTotal sge - a ∨ ∀ n st st', n ≤ sgeTotal sge - a →
    acc.moveBytes ((((sgeBytes sge).drop a).take n).map (addressed sge a)) st = some st' →
      acc.moveBytes (((sgeBytes sge).drop a).take n) st = some st'

variable {acc} {sge : List RxeSge} {dma : DmaInfo} {a n : Nat}

/-- A call is right exactly when it is clean. -/
theorem callMoves_iff (h : dma.AtByte sge a) (hn : n ≤ sgeTotal sge - a)
    (hlt : sgeTotal sge < 2 ^ 32) (hat : sgeTotal sge < 2 ^ 31 ∨ a = 0) (st : σ) :
    CallMoves acc dma ((sgeBytes sge).drop a) n st ↔ CallClean acc sge a n st := by
  unfold CallMoves CallClean
  by_cases hzero : n = 0
  · subst hzero
    exact ⟨fun _ => .inl rfl, fun _ => ⟨dma, rfl⟩⟩
  · rw [or_iff_right hzero]
    rcases Nat.lt_or_ge (sgeTotal sge - a) (2 ^ 31) with hsmall | hlarge
    · have hcopy := copyData_spec acc h hn hsmall st
      simp only [map_congr_left fun b _ => addressed_eq hat b, map_id'] at hcopy
      cases hmove : acc.moveBytes (((sgeBytes sge).drop a).take n) st with
      | some st' =>
        rw [hmove] at hcopy
        exact ⟨fun _ => hsmall, fun _ => ⟨_, hcopy⟩⟩
      | none =>
        rw [hmove] at hcopy
        change (copyData acc.toSgeMem dma n st).2 ≠ 0 ∧ _ ↔ _ ∨ _
        rw [and_iff_right hcopy.1, hcopy.2, or_iff_right (Nat.not_le.mpr hsmall)]
    · have hcopy := copyData_large acc h hzero hlarge hlt st
      rw [hcopy]
      cases hmove : acc.moveBytes (((sgeBytes sge).drop a).take n) st with
      | some st' =>
        refine ⟨fun ⟨dma', heq⟩ => ?_, fun hsmall => absurd hlarge (Nat.not_le.mpr hsmall)⟩
        exact absurd (congrArg Prod.snd heq) dmaEinval_ne
      | none => exact ⟨fun _ => .inl hlarge, fun _ => ⟨dmaEinval_ne, rfl⟩⟩

/-- A call that succeeds moved its bytes, as it addresses them. -/
theorem moves_of_ok (h : dma.AtByte sge a) (hlt : sgeTotal sge < 2 ^ 32) {dma' : DmaInfo}
    {st st' : σ} (hok : copyData acc.toSgeMem dma n st = ((dma', st'), 0)) :
    n ≤ sgeTotal sge - a ∧ (n = 0 ∨ sgeTotal sge - a < 2 ^ 31) ∧
      acc.moveBytes ((((sgeBytes sge).drop a).take n).map (addressed sge a)) st = some st' ∧
      dma' = (advanceDmaData dma n).1 := by
  by_cases hzero : n = 0
  · subst hzero
    have hstay : (advanceDmaData dma 0).1 = dma := by
      unfold advanceDmaData
      have hnone : advanceLoop dma.sge (dma.fuel 0) (dma.cursor 0) = (dma.cursor 0, 0) := by
        cases dma.fuel 0 <;> rfl
      rw [hnone]
      rfl
    obtain ⟨rfl, rfl⟩ := Prod.mk.inj (congrArg Prod.fst hok)
    exact ⟨Nat.zero_le _, .inl rfl, rfl, hstay.symm⟩
  · have hresid : dma.resid = sgeTotal sge - a := h.resid
    have hfits : ¬I32.wrap dma.resid < n := by
      intro hneg
      unfold copyData at hok
      rw [if_neg hzero, if_pos hneg] at hok
      exact absurd (congrArg Prod.snd hok) dmaEinval_ne
    have hsmall : sgeTotal sge - a < 2 ^ 31 ∧ n ≤ sgeTotal sge - a := by
      rw [hresid, I32.wrap_natCast (by omega)] at hfits
      all_goals omega
    have hcopy := copyData_spec acc h hsmall.2 hsmall.1 st
    cases hmove : acc.moveBytes ((((sgeBytes sge).drop a).take n).map (addressed sge a)) st with
    | some st₂ =>
      rw [hmove] at hcopy
      rw [hcopy] at hok
      obtain ⟨rfl, rfl⟩ := Prod.mk.inj (congrArg Prod.fst hok)
      exact ⟨hsmall.2, .inr hsmall.1, rfl, rfl⟩
    | none =>
      rw [hmove] at hcopy
      exact absurd (congrArg Prod.snd hok) hcopy.1

theorem copyCalls_append (mem : SgeMem σ) (ks ns : List Nat) (dma : DmaInfo) (st : σ) :
    copyCalls mem (ks ++ ns) dma st =
      if (copyCalls mem ks dma st).2 = 0 then
        copyCalls mem ns (copyCalls mem ks dma st).1.1 (copyCalls mem ks dma st).1.2
      else copyCalls mem ks dma st := by
  induction ks generalizing dma st with
  | nil => rfl
  | cons n ks ih =>
    rw [cons_append, copyCalls, copyCalls]
    by_cases hok : (copyData mem dma n st).2 = 0
    · rw [if_pos hok, if_pos hok, ih]
    · rw [if_neg hok, if_neg hok, if_neg hok]

theorem advanceCalls_spec {ks : List Nat} (h : dma.AtByte sge a)
    (hn : ks.sum ≤ sgeTotal sge - a) :
    ∃ dma', advanceCalls ks dma = (dma', 0) ∧ dma'.AtByte sge (a + ks.sum) := by
  induction ks generalizing dma a with
  | nil => exact ⟨dma, rfl, h⟩
  | cons n ks ih =>
    rw [sum_cons] at hn ⊢
    obtain ⟨c', -, hadvance, hat⟩ := h.advance (n := n) (by omega)
    obtain ⟨dma', hcalls, hat'⟩ := ih hat (by omega)
    refine ⟨dma', ?_, by rw [← Nat.add_assoc]; exact hat'⟩
    unfold advanceCalls
    rw [hadvance]
    exact hcalls

/-- Calls that all succeed from the start on, or in a short descriptor, moved the bytes in order,
and left the descriptor where advancing does. -/
theorem copyCalls_ok {ks : List Nat} (h : dma.AtByte sge a) (hlt : sgeTotal sge < 2 ^ 32)
    (hat : sgeTotal sge < 2 ^ 31 ∨ a = 0) {dma' : DmaInfo} {st st' : σ}
    (hok : copyCalls acc.toSgeMem ks dma st = ((dma', st'), 0)) :
    dma'.AtByte sge (a + ks.sum) ∧ (sgeTotal sge < 2 ^ 31 ∨ a + ks.sum = 0) ∧
      advanceCalls ks dma = (dma', 0) ∧
      acc.moveBytes (((sgeBytes sge).drop a).take ks.sum) st = some st' := by
  induction ks generalizing dma a st with
  | nil =>
    obtain ⟨rfl, rfl⟩ := Prod.mk.inj (congrArg Prod.fst hok)
    exact ⟨h, hat, rfl, rfl⟩
  | cons n ks ih =>
    unfold copyCalls at hok
    dsimp only at hok
    split at hok
    case isFalse hfail => exact absurd (congrArg Prod.snd hok) hfail
    case isTrue hfirst =>
      have hcopy : copyData acc.toSgeMem dma n st =
          (((copyData acc.toSgeMem dma n st).1.1, (copyData acc.toSgeMem dma n st).1.2),
            0) := by rw [← hfirst]
      obtain ⟨hle, hshort, hmove, hdma⟩ := moves_of_ok h hlt hcopy
      simp only [map_congr_left fun b _ => addressed_eq hat b, map_id'] at hmove
      obtain ⟨c', -, hadvance, hnext⟩ := h.advance hle
      rw [hadvance] at hdma
      rw [hdma] at hok
      obtain ⟨hat', hshort', hcalls, hrest⟩ := ih hnext (by omega) hok
      rw [sum_cons, ← Nat.add_assoc]
      refine ⟨hat', hshort', ?_, ?_⟩
      · unfold advanceCalls
        rw [hadvance]
        exact hcalls
      · rw [take_add, drop_drop, acc.moveBytes_append, hmove]
        exact hrest

/-- The first calls of a split take no more than there is. -/
theorem ChunkedDma.sum_le (d : ChunkedDma) {ks ns : List Nat} (h : d.chunks = ks ++ ns) :
    ks.sum + ns.sum = sgeTotal d.sge := by
  rw [← sum_append, ← h, d.chunks_sum]

/-- In a split whose calls all are right, calls whose bytes can be moved succeed. -/
theorem ChunksMove.calls_ok {d : ChunkedDma} {st st' : σ} (h : ChunksMove acc d st)
    {ks ns : List Nat} (hks : d.chunks = ks ++ ns)
    (hmove : acc.moveBytes ((sgeBytes d.sge).take ks.sum) st = some st') :
    ∃ dma, copyCalls acc.toSgeMem ks (freshDma d.sge) st = ((dma, st'), 0) := by
  induction ks using List.reverseRecOn generalizing ns st' with
  | nil =>
    obtain rfl := Option.some.inj hmove
    exact ⟨_, rfl⟩
  | append_singleton ks n ih =>
    rw [sum_append, sum_singleton, take_add, acc.moveBytes_append] at hmove
    obtain ⟨st₁, hfirst, hlast⟩ := Option.bind_eq_some_iff.mp hmove
    have hks' : d.chunks = ks ++ n :: ns := by rw [hks, append_assoc]; rfl
    obtain ⟨dma, hcalls⟩ := ih hks' hfirst
    have hcall := (h.copy ks n ns hks' dma st₁ hcalls).2
    unfold CallMoves at hcall
    rw [hlast] at hcall
    obtain ⟨dma', hcall⟩ := hcall
    refine ⟨dma', ?_⟩
    rw [copyCalls_append, hcalls, if_pos rfl]
    unfold copyCalls
    rw [hcall]
    rfl

/-- The chunks of a descriptor are moved as they should exactly when every call whose turn comes
is clean, and a call behind any of the chunks looks for bytes only where it should. -/
theorem chunks_move_iff (acc : SgeAccess σ) (d : ChunkedDma) (st : σ) :
    ChunksMove acc d st ↔
      (∀ ks n ns st', d.chunks = ks ++ n :: ns →
        acc.moveBytes ((sgeBytes d.sge).take ks.sum) st = some st' →
          CallClean acc d.sge ks.sum n st') ∧
      ∀ ks ns, d.chunks = ks ++ ns → AddressClean acc d.sge ks.sum := by
  have hfresh := freshDma_atByte d.sge
  have hlt := d.length_lt
  -- the descriptor and the memory after calls that succeed
  have hreach : ∀ {ks dma st'}, copyCalls acc.toSgeMem ks (freshDma d.sge) st = ((dma, st'), 0) →
      dma.AtByte d.sge ks.sum ∧ (sgeTotal d.sge < 2 ^ 31 ∨ ks.sum = 0) ∧
        advanceCalls ks (freshDma d.sge) = (dma, 0) ∧
        acc.moveBytes ((sgeBytes d.sge).take ks.sum) st = some st' := by
    intro ks dma st' hok
    have hcalls := copyCalls_ok hfresh hlt (.inr rfl) hok
    rwa [Nat.zero_add, drop_zero] at hcalls
  -- and after advancing
  have hadvance : ∀ {ks ns}, d.chunks = ks ++ ns → ∃ dma,
      advanceCalls ks (freshDma d.sge) = (dma, 0) ∧ dma.AtByte d.sge ks.sum := by
    intro ks ns hks
    have hsum := d.sum_le hks
    have hcalls := @advanceCalls_spec _ _ _ ks hfresh (by omega)
    rwa [Nat.zero_add] at hcalls
  constructor
  · intro h
    refine ⟨fun ks n ns st' hks hmove => ?_, fun ks ns hks => ?_⟩
    · obtain ⟨dma, hcalls⟩ := h.calls_ok hks hmove
      obtain ⟨hat, hshort, -⟩ := hreach hcalls
      have hsum := d.sum_le hks
      rw [sum_cons] at hsum
      exact (callMoves_iff hat (by omega) hlt hshort st').mp (h.copy ks n ns hks dma st' hcalls).2
    · obtain ⟨dma, hcalls, hat⟩ := hadvance hks
      obtain ⟨dma', hcalls', -, hgoOn⟩ := h.advance ks ns hks
      obtain rfl : dma' = dma := congrArg Prod.fst (hcalls'.symm.trans hcalls)
      unfold AddressClean
      by_cases hlarge : 2 ^ 31 ≤ sgeTotal d.sge - ks.sum
      · exact .inl hlarge
      · refine .inr fun n st₁ st₂ hn hmove => ?_
        have hcopy := copyData_spec acc hat hn (Nat.lt_of_not_le hlarge) st₁
        rw [hmove] at hcopy
        exact hgoOn n st₁ _ st₂ hcopy
  · rintro ⟨hclean, haddress⟩
    refine ⟨fun ks n ns hks dma st' hcalls => ?_, fun ks ns hks => ?_⟩
    · obtain ⟨hat, hshort, -, hmove⟩ := hreach hcalls
      have hsum := d.sum_le hks
      rw [sum_cons] at hsum
      exact ⟨hmove,
        (callMoves_iff hat (by omega) hlt hshort st').mpr (hclean ks n ns st' hks hmove)⟩
    · obtain ⟨dma, hcalls, hat⟩ := hadvance hks
      refine ⟨dma, hcalls, fun dma' st' hok => ?_, fun n st₁ dma' st₂ hok => ?_⟩
      · exact congrArg Prod.fst ((hreach hok).2.2.1.symm.trans hcalls)
      · obtain ⟨hle, hshort, hmove, -⟩ := moves_of_ok hat hlt hok
        by_cases hzero : n = 0
        · subst hzero
          exact hmove
        · rcases haddress ks ns hks with hlarge | hall
          · exact absurd (hshort.resolve_left hzero) (Nat.not_lt.mpr hlarge)
          · exact hall n st₁ st₂ hle hmove

end Calls

/-- Regions whose copies are noted by their addresses; only the key 1 has one. -/
def oneRegion : SgeAccess (List UInt64) where
  lookupMem := fun lkey => if lkey = 1 then some 0 else none
  rxeMemCopy := fun _ iova n st => some (st ++ (List.range n).map fun k => iova + .ofNat k)
  copy_add := by
    intro region iova n k st _ _
    have haddr : ∀ j, iova + .ofNat (n + j) = iova + .ofNat n + .ofNat j := fun j => by
      rw [UInt64.ofNat_add, UInt64.add_assoc]
    rw [range_add, map_append, map_map, ← append_assoc]
    simp only [Option.bind_some, Function.comp_def, haddr]

/-- Two elements of four bytes, the second without a region, taken by one call. -/
def secondWithoutRegion : ChunkedDma where
  sge := [⟨0x1000, 4, 1⟩, ⟨0x2000, 4, 2⟩]
  chunks := [8]
  length_lt := by decide
  chunks_lt := by decide
  chunks_sum := by decide

/-- The call fails and leaves the cursor at the start of the second element. -/
theorem failed_call_moves_cursor :
    ¬ ∀ (σ : Type) (acc : SgeAccess σ) (d : ChunkedDma) (st : σ), ChunksMove acc d st := by
  intro hall
  have hcall := ((hall _ oneRegion secondWithoutRegion []).copy [] 8 [] rfl _ _ rfl).2
  exact absurd (congrArg DmaInfo.curSge hcall.2) (by decide)

end Rxe
