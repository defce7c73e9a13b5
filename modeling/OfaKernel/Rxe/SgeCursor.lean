-- SUMMARY: `copy_data` and `advance_dma_data` take the bytes of the elements in order.
import OfaKernel.Rxe.SendDma

/-!
# The bytes behind the DMA cursor

What is left of a descriptor's bytes behind the cursor says what the next call takes. A call that
fails behind the element it began in leaves the cursor in another one.
-/

open List

namespace Rxe

/-! ## Copying in either direction -/

/-- A copy is one of its bytes in order. -/
structure SgeAccess (σ : Type) extends SgeMem σ where
  copy_add : ∀ region iova n k st, 0 < n → 0 < k →
    rxeMemCopy region iova (n + k) st =
      (rxeMemCopy region iova n st).bind (rxeMemCopy region (iova + .ofNat n) k)

/-- Calls of `copy_data` one after the other, to the first that fails. -/
def copyCalls {σ : Type} (mem : SgeMem σ) : List Nat → DmaInfo → σ → (DmaInfo × σ) × Int
  | [], dma, st => ((dma, st), 0)
  | n :: ns, dma, st =>
    let r := copyData mem dma n st
    if r.2 = 0 then copyCalls mem ns r.1.1 r.1.2 else r

/-- Calls of `advance_dma_data` one after the other, to the first that fails. -/
def advanceCalls : List Nat → DmaInfo → DmaInfo × Int
  | [], dma => (dma, 0)
  | n :: ns, dma =>
    let r := advanceDmaData dma n
    if r.2 = 0 then advanceCalls ns r.1 else r

/-! ## The bytes of the elements -/

/-- A byte of an element. -/
structure SgeByte where
  elem : Nat
  lkey : UInt32
  addr : UInt64
  deriving Repr, DecidableEq

/-- `n` bytes of the element `i`, from an offset on. -/
def elemBytes (i : Nat) (s : RxeSge) (offset n : Nat) : List SgeByte :=
  (List.range' offset n).map fun k => ⟨i, s.lkey, s.addr + .ofNat k⟩

/-- The bytes of elements, of which the first has the number `i`. -/
def bytesFrom : Nat → List RxeSge → List SgeByte
  | _, [] => []
  | i, s :: sge => elemBytes i s 0 s.length ++ bytesFrom (i + 1) sge

/-- The bytes of a descriptor, element by element. -/
def sgeBytes (sge : List RxeSge) : List SgeByte := bytesFrom 0 sge

/-- The bytes of the elements from `i` on. -/
def laterBytes (sge : List RxeSge) (i : Nat) : List SgeByte := bytesFrom i (sge.drop i)

def DmaCursor.hereBytes (sge : List RxeSge) (c : DmaCursor) : List SgeByte :=
  match sge[c.curSge]? with
  | none => []
  | some s => elemBytes c.curSge s c.offset (s.length - c.offset)

def DmaCursor.restBytes (sge : List RxeSge) (c : DmaCursor) : List SgeByte :=
  c.hereBytes sge ++ laterBytes sge (c.curSge + 1)

/-- A byte of the current element as it is addressed in the first turn of a call, from the `int`
that the offset is taken for. -/
def DmaCursor.formed (c : DmaCursor) (b : SgeByte) : SgeByte :=
  if b.elem = c.curSge then
    { b with addr := b.addr - .ofNat c.offset + .ofInt (I32.wrap c.offset) }
  else b

theorem length_elemBytes (i : Nat) (s : RxeSge) (offset n : Nat) :
    (elemBytes i s offset n).length = n := by
  unfold elemBytes
  rw [length_map, length_range']

theorem elemBytes_add (i : Nat) (s : RxeSge) (offset n k : Nat) :
    elemBytes i s offset (n + k) = elemBytes i s offset n ++ elemBytes i s (offset + n) k := by
  unfold elemBytes
  rw [← map_append, List.range'_append_1]

/-- Bytes of the elements from `i` on are of no earlier one. -/
theorem le_elem_of_mem {i : Nat} {sge : List RxeSge} {b : SgeByte} (hb : b ∈ bytesFrom i sge) :
    i ≤ b.elem := by
  induction sge generalizing i with
  | nil => cases hb
  | cons s sge ih =>
    rcases mem_append.mp hb with hhere | hlater
    · obtain ⟨k, -, rfl⟩ := mem_map.mp hhere
      exact Nat.le_refl _
    · exact (Nat.le_succ i).trans (ih hlater)

theorem laterBytes_some {sge : List RxeSge} {i : Nat} {s : RxeSge} (h : sge[i]? = some s) :
    laterBytes sge i = elemBytes i s 0 s.length ++ laterBytes sge (i + 1) := by
  obtain ⟨hi, rfl⟩ := List.getElem?_eq_some_iff.mp h
  unfold laterBytes
  rw [drop_eq_getElem_cons hi]
  rfl

theorem laterBytes_none {sge : List RxeSge} {i : Nat} (h : sge[i]? = none) :
    laterBytes sge i = [] := by
  unfold laterBytes
  rw [drop_eq_nil_of_le (List.getElem?_eq_none_iff.mp h)]
  rfl

namespace SgeAccess

variable {σ : Type} (acc : SgeAccess σ)

def moveByte (st : σ) (b : SgeByte) : Option σ :=
  (acc.lookupMem b.lkey).bind fun region => acc.rxeMemCopy region b.addr 1 st

def moveBytes (bytes : List SgeByte) (st : σ) : Option σ := bytes.foldlM acc.moveByte st

@[simp] theorem moveBytes_nil (st : σ) : acc.moveBytes [] st = some st := rfl

theorem moveBytes_cons (b : SgeByte) (bytes : List SgeByte) (st : σ) :
    acc.moveBytes (b :: bytes) st = (acc.moveByte st b).bind (acc.moveBytes bytes) := rfl

theorem moveBytes_append (xs ys : List SgeByte) (st : σ) :
    acc.moveBytes (xs ++ ys) st = (acc.moveBytes xs st).bind (acc.moveBytes ys) := by
  unfold moveBytes
  rw [foldlM_append]
  rfl

/-- Bytes of one element are moved as `rxe_mem_copy` copies them. -/
theorem moveBytes_elem (i : Nat) (s : RxeSge) {offset n : Nat} (hn : 0 < n) (st : σ) :
    acc.moveBytes (elemBytes i s offset n) st =
      (acc.lookupMem s.lkey).bind fun region =>
        acc.rxeMemCopy region (s.addr + .ofNat offset) n st := by
  induction n generalizing offset st with
  | zero => cases hn
  | succ n ih =>
    have hcons : elemBytes i s offset (n + 1) =
        ⟨i, s.lkey, s.addr + .ofNat offset⟩ :: elemBytes i s (offset + 1) n := rfl
    rw [hcons, moveBytes_cons]
    unfold moveByte
    cases hregion : acc.lookupMem s.lkey with
    | none => rfl
    | some region =>
      dsimp only [Option.bind_some]
      by_cases hzero : n = 0
      · subst hzero
        cases acc.rxeMemCopy region (s.addr + .ofNat offset) (0 + 1) st <;> rfl
      · have haddr : s.addr + .ofNat (offset + 1) = s.addr + .ofNat offset + .ofNat 1 := by
          rw [UInt64.ofNat_add, UInt64.add_assoc]
        rw [Nat.add_comm n 1, acc.copy_add _ _ _ _ _ Nat.one_pos (Nat.pos_of_ne_zero hzero)]
        congr 1
        funext st'
        rw [ih (Nat.pos_of_ne_zero hzero), hregion, haddr]
        rfl

end SgeAccess

/-! ## The cursor and the bytes behind it -/

section Cursor

variable {sge : List RxeSge} {c : DmaCursor} {s : RxeSge}

theorem DmaCursor.hereBytes_some (h : sge[c.curSge]? = some s) :
    c.hereBytes sge = elemBytes c.curSge s c.offset (s.length - c.offset) := by
  unfold hereBytes
  rw [h]

/-- Behind the end of its element the cursor has the bytes of the elements after it. -/
theorem DmaCursor.hereBytes_end (h : sge[c.curSge]? = some s) (hend : s.length ≤ c.offset) :
    c.hereBytes sge = [] := by
  rw [hereBytes_some h, Nat.sub_eq_zero_of_le hend]
  rfl

theorem DmaCursor.restBytes_nextSge (hhere : c.hereBytes sge = []) :
    c.nextSge.restBytes sge = c.restBytes sge := by
  have hrest : c.restBytes sge = laterBytes sge (c.curSge + 1) := by
    unfold restBytes
    rw [hhere, nil_append]
  rw [hrest]
  cases hnext : sge[c.curSge + 1]? with
  | none =>
    have hlen := List.getElem?_eq_none_iff.mp hnext
    have hafter : sge[c.curSge + 2]? = none := List.getElem?_eq_none (by omega)
    have hnone : c.nextSge.hereBytes sge = [] := by
      unfold hereBytes
      rw [show sge[c.nextSge.curSge]? = none from hnext]
    unfold restBytes
    rw [hnone, laterBytes_none hnext]
    exact laterBytes_none hafter
  | some s =>
    unfold restBytes
    rw [hereBytes_some (c := c.nextSge) hnext, laterBytes_some hnext]
    rfl

theorem DmaCursor.hereBytes_take (h : sge[c.curSge]? = some s) {b : Nat}
    (hb : b ≤ s.length - c.offset) :
    c.hereBytes sge = elemBytes c.curSge s c.offset b ++ (c.take b).hereBytes sge := by
  have hhere : (c.take b).hereBytes sge =
      elemBytes c.curSge s (c.offset + b) (s.length - (c.offset + b)) :=
    hereBytes_some (c := c.take b) h
  rw [hereBytes_some h, hhere, ← elemBytes_add]
  congr 1
  omega

theorem DmaCursor.restBytes_take (h : sge[c.curSge]? = some s) {b : Nat}
    (hb : b ≤ s.length - c.offset) :
    (c.take b).restBytes sge = (c.restBytes sge).drop b ∧
      (c.restBytes sge).take b = elemBytes c.curSge s c.offset b := by
  have hlen := length_elemBytes c.curSge s c.offset b
  unfold restBytes
  rw [hereBytes_take h hb, append_assoc]
  exact ⟨(drop_left' hlen).symm, take_left' hlen⟩

/-- Behind the end of its element the cursor has only bytes of later ones. -/
theorem DmaCursor.curSge_lt (hhere : c.hereBytes sge = []) {b : SgeByte}
    (hb : b ∈ c.restBytes sge) : c.curSge < b.elem := by
  unfold restBytes at hb
  rw [hhere, nil_append] at hb
  exact le_elem_of_mem hb

theorem DmaCursor.formed_of_lt {b : SgeByte} (hb : c.curSge < b.elem) : c.formed b = b :=
  if_neg hb.ne'

theorem DmaCursor.map_formed_of_lt {bytes : List SgeByte} (h : ∀ b ∈ bytes, c.curSge < b.elem) :
    bytes.map c.formed = bytes :=
  (map_congr_left fun b hb => formed_of_lt (h b hb)).trans (map_id bytes)

/-- Only an offset that is negative as an `int` leads astray. -/
theorem DmaCursor.formed_of_small (hsmall : c.offset < 2 ^ 31) (b : SgeByte) : c.formed b = b := by
  have hwrap : I32.wrap c.offset = c.offset := by
    rw [I32.wrap_natCast (by omega), if_pos hsmall]
  have hnat : UInt64.ofInt c.offset = .ofNat c.offset := congrArg UInt64.ofNat (by omega)
  have haddr : b.addr - .ofNat c.offset + .ofInt (c.offset : Int) = b.addr := by
    rw [hnat]
    exact UInt64.sub_add_cancel _ _
  unfold formed
  rw [hwrap, haddr, ite_self]

/-- The bytes of the current element are addressed as if it began elsewhere. -/
theorem DmaCursor.map_formed_elem (s : RxeSge) (c : DmaCursor) (n : Nat) :
    (elemBytes c.curSge s c.offset n).map c.formed =
      elemBytes c.curSge { s with addr := s.iova c.offset - .ofNat c.offset } c.offset n := by
  unfold elemBytes
  rw [map_map]
  refine map_congr_left fun k _ => ?_
  have haddr : s.addr + .ofNat k - .ofNat c.offset + .ofInt (I32.wrap c.offset) =
      s.iova c.offset - .ofNat c.offset + .ofNat k := by
    unfold RxeSge.iova
    grind
  simp only [Function.comp_apply, formed, if_true, haddr]

/-- Where the bytes behind the cursor begin: in its element, or in the next one that there is. -/
theorem DmaCursor.next_elem (hpos : 0 < (c.restBytes sge).length) :
    ∃ s, sge[c.curSge]? = some s ∧
      (c.offset < s.length ∨
        s.length ≤ c.offset ∧ c.hereBytes sge = [] ∧ ∃ s', sge[c.curSge + 1]? = some s') := by
  cases hcur : sge[c.curSge]? with
  | none =>
    have hlen := List.getElem?_eq_none_iff.mp hcur
    have hnext : sge[c.curSge + 1]? = none := List.getElem?_eq_none (by omega)
    unfold restBytes hereBytes at hpos
    rw [hcur, laterBytes_none hnext] at hpos
    exact absurd hpos (Nat.lt_irrefl 0)
  | some s =>
    refine ⟨s, rfl, ?_⟩
    rcases Nat.lt_or_ge c.offset s.length with hmid | hend
    · exact .inl hmid
    · have hhere := hereBytes_end hcur hend
      refine .inr ⟨hend, hhere, ?_⟩
      cases hnext : sge[c.curSge + 1]? with
      | none =>
        unfold restBytes at hpos
        rw [hhere, laterBytes_none hnext] at hpos
        exact absurd hpos (Nat.lt_irrefl 0)
      | some s' => exact ⟨s', rfl⟩

/-- The cursor stands in its element, or there is none. -/
def DmaCursor.Inside (sge : List RxeSge) (c : DmaCursor) : Prop :=
  ∀ s, sge[c.curSge]? = some s → c.offset ≤ s.length

/-- What a turn of `advance_dma_data` does: it takes bytes of the element the cursor is in or of
the next one. -/
theorem advanceTurn_take (hpos : 0 < c.length) (hin : c.length ≤ (c.restBytes sge).length) :
    ∃ c₁ s, (c₁ = c ∨ c₁ = c.nextSge ∧ c.hereBytes sge = []) ∧ sge[c₁.curSge]? = some s ∧
      c₁.restBytes sge = c.restBytes sge ∧ advanceTurn sge c = (c₁.take (c₁.bytes s), 0) ∧
      (c₁.bytes s = 0 → c₁.curSge = c.curSge + 1) := by
  obtain ⟨s, hs, hmid | ⟨hend, hhere, s', hs'⟩⟩ := @DmaCursor.next_elem sge c (by omega)
  · refine ⟨c, s, .inl rfl, hs, rfl, ?_, fun hzero => ?_⟩
    · unfold advanceTurn
      rw [hs]
      exact if_neg (Nat.not_le.mpr hmid)
    · unfold DmaCursor.bytes at hzero
      omega
  · refine ⟨c.nextSge, s', .inr ⟨rfl, hhere⟩, hs', DmaCursor.restBytes_nextSge hhere, ?_,
      fun _ => rfl⟩
    unfold advanceTurn
    rw [hs, hs']
    exact if_pos hend

/-- Advancing over bytes that are there succeeds, and leaves those behind them. The cursor is in
the element of the last one of them. -/
theorem advanceLoop_take {fuel : Nat} (hin : c.length ≤ (c.restBytes sge).length)
    (hinside : c.Inside sge) (hfuel : (sge.length - c.curSge) + c.length ≤ fuel) :
    ∃ c', advanceLoop sge fuel c = (c', 0) ∧ c'.Inside sge ∧
      c'.restBytes sge = (c.restBytes sge).drop c.length ∧
      c'.resid = c.resid - c.length ∧
      (0 < c.length → (c.restBytes sge)[c.length - 1]?.map (·.elem) = some c'.curSge) ∧
      (c.length = 0 → c' = c) := by
  induction fuel generalizing c with
  | zero =>
    have hzero : c.length = 0 := by omega
    refine ⟨c, rfl, hinside, by rw [hzero, drop_zero], by omega, by omega, fun _ => rfl⟩
  | succ fuel ih =>
    unfold advanceLoop
    by_cases hzero : c.length = 0
    · rw [if_pos hzero]
      exact ⟨c, rfl, hinside, by rw [hzero, drop_zero], by omega, by omega, fun _ => rfl⟩
    · obtain ⟨c₁, s, hc₁, hs, hrest, hturn, hstep⟩ :=
        advanceTurn_take (Nat.pos_of_ne_zero hzero) hin
      obtain ⟨hlength, hresid, hcur, hoffset⟩ : c₁.length = c.length ∧ c₁.resid = c.resid ∧
          c.curSge ≤ c₁.curSge ∧ c₁.offset ≤ s.length := by
        rcases hc₁ with rfl | ⟨rfl, -⟩
        · exact ⟨rfl, rfl, Nat.le_refl _, hinside s hs⟩
        · exact ⟨rfl, rfl, Nat.le_succ _, Nat.zero_le _⟩
      obtain ⟨b, hb⟩ : ∃ b, b = c₁.bytes s := ⟨_, rfl⟩
      have hble : b ≤ s.length - c₁.offset ∧ b ≤ c.length := by
        rw [hb, ← hlength]
        exact ⟨Nat.min_le_right _ _, Nat.min_le_left _ _⟩
      obtain ⟨hdrop, htake⟩ := DmaCursor.restBytes_take hs hble.1
      rw [hrest] at hdrop htake
      rw [← hb] at hturn hstep
      have hlt : c₁.curSge < sge.length := (List.getElem?_eq_some_iff.mp hs).1
      -- the cursor after the turn
      have hlength' : (c₁.take b).length = c.length - b := congrArg (· - b) hlength
      have hresid' : (c₁.take b).resid = c.resid - b := congrArg (· - b) hresid
      have hcur' : (c₁.take b).curSge = c₁.curSge := rfl
      have hinside' : (c₁.take b).Inside sge := by
        intro s' hs'
        obtain rfl := Option.some.inj (hs'.symm.trans hs)
        change c₁.offset + b ≤ s'.length
        omega
      obtain ⟨c', hloop, hin', hrest', hres', hlabel, hsame⟩ := ih (c := c₁.take b)
        (by rw [hdrop, hlength', length_drop]; omega) hinside' (by
          by_cases hb0 : b = 0
          · omega
          · omega)
      rw [if_neg hzero, hturn]
      refine ⟨c', hloop, hin', ?_, by omega, fun _ => ?_, fun h => absurd h hzero⟩
      · rw [hrest', hdrop, hlength', drop_drop, Nat.add_sub_cancel' hble.2]
      · by_cases hdone : c.length - b = 0
        · -- the turn took the last byte
          rw [hsame (hlength'.trans hdone), ← List.getElem?_take_of_lt (j := b) (by omega), htake,
            elemBytes, List.getElem?_map, List.getElem?_range' (by omega)]
          rfl
        · rw [hlength', hdrop, List.getElem?_drop] at hlabel
          rw [← hlabel (by omega)]
          congr 2
          omega

end Cursor

section Copy

variable {σ : Type} (acc : SgeAccess σ) {sge : List RxeSge} {c : DmaCursor}

/-- The copy at an element moves its bytes, as they are addressed, or fails and moves none. -/
theorem copyBytes_spec (s : RxeSge) (c : DmaCursor) (st : σ) (hpos : 0 < c.bytes s) :
    match acc.moveBytes ((elemBytes c.curSge s c.offset (c.bytes s)).map c.formed) st with
    | some st' => copyBytes acc.toSgeMem s c st = ((c.take (c.bytes s), st'), 0)
    | none => ∃ e ≠ 0, copyBytes acc.toSgeMem s c st = ((c, st), e) := by
  have haddr : s.iova c.offset - .ofNat c.offset + .ofNat c.offset = s.iova c.offset :=
    UInt64.sub_add_cancel _ _
  rw [c.map_formed_elem, acc.moveBytes_elem _ _ hpos, haddr]
  unfold copyBytes
  cases hregion : acc.lookupMem s.lkey with
  | none => exact ⟨dmaEinval, by decide, rfl⟩
  | some region =>
    dsimp only [Option.bind_some]
    cases hcopy : acc.rxeMemCopy region (s.iova c.offset) (c.bytes s) st with
    | none => exact ⟨dmaEfault, by decide, rfl⟩
    | some st' => rfl

/-- A turn of `copy_data` is one of `advance_dma_data` whose bytes are moved as they are addressed,
or it fails in the element of these bytes. -/
theorem copyTurn_spec (st : σ) (hpos : 0 < c.length)
    (hin : c.length ≤ (c.restBytes sge).length) :
    ∃ c₁ s, (c₁ = c ∨ c₁ = c.nextSge ∧ c.hereBytes sge = []) ∧ sge[c₁.curSge]? = some s ∧
      c₁.restBytes sge = c.restBytes sge ∧ advanceTurn sge c = (c₁.take (c₁.bytes s), 0) ∧
      (c₁.bytes s = 0 → c₁.curSge = c.curSge + 1) ∧
      match acc.moveBytes (((c.restBytes sge).take (c₁.bytes s)).map c.formed) st with
      | some st' => copyTurn acc.toSgeMem sge c st = ((c₁.take (c₁.bytes s), st'), 0)
      | none => ∃ e ≠ 0, copyTurn acc.toSgeMem sge c st = ((c₁, st), e) := by
  obtain ⟨c₁, s, hc₁, hs, hrest, hturn, hstep⟩ := advanceTurn_take hpos hin
  refine ⟨c₁, s, hc₁, hs, hrest, hturn, hstep, ?_⟩
  have htake := (DmaCursor.restBytes_take hs (Nat.min_le_right c₁.length _)).2
  rw [hrest] at htake
  change (c.restBytes sge).take (c₁.bytes s) = elemBytes c₁.curSge s c₁.offset (c₁.bytes s) at htake
  rcases hc₁ with rfl | ⟨rfl, hhere⟩
  · -- the element the cursor is in has bytes left
    have hbytes : c₁.bytes s ≠ 0 := fun hzero => absurd (hstep hzero) (by omega)
    have hmid : ¬s.length ≤ c₁.offset := by
      unfold DmaCursor.bytes at hbytes
      omega
    have hcopy : copyTurn acc.toSgeMem sge c₁ st = copyBytes acc.toSgeMem s c₁ st := by
      unfold copyTurn
      rw [hs]
      exact if_neg hmid
    rw [htake, hcopy]
    exact copyBytes_spec acc s c₁ st (Nat.pos_of_ne_zero hbytes)
  · obtain ⟨s₀, hs₀, hend⟩ : ∃ s₀, sge[c.curSge]? = some s₀ ∧ s₀.length ≤ c.offset := by
      obtain ⟨s₀, hs₀, hmid | ⟨hend, -⟩⟩ := @DmaCursor.next_elem sge c (by omega)
      · rw [DmaCursor.hereBytes_some hs₀, ← length_eq_zero_iff, length_elemBytes] at hhere
        omega
      · exact ⟨s₀, hs₀, hend⟩
    have hnext : sge[c.curSge + 1]? = some s := hs
    have hcopy : copyTurn acc.toSgeMem sge c st =
        if s.length = 0 then ((c.nextSge, st), 0)
        else copyBytes acc.toSgeMem s c.nextSge st := by
      unfold copyTurn
      rw [hs₀, hnext]
      exact if_pos hend
    -- its first byte is at the offset 0
    have hformed : ((c.restBytes sge).take (c.nextSge.bytes s)).map c.formed =
        (elemBytes c.nextSge.curSge s c.nextSge.offset (c.nextSge.bytes s)).map
          c.nextSge.formed := by
      rw [← htake]
      refine map_congr_left fun b hb => ?_
      rw [DmaCursor.formed_of_lt (DmaCursor.curSge_lt hhere (mem_of_mem_take hb)),
        DmaCursor.formed_of_small (c := c.nextSge) (show 0 < 2 ^ 31 by decide)]
    rw [hformed, hcopy]
    by_cases hzero : s.length = 0
    · have hbytes : c.nextSge.bytes s = 0 := by
        unfold DmaCursor.bytes
        omega
      rw [hbytes, if_pos hzero]
      rfl
    · have hbytes : 0 < c.nextSge.bytes s := Nat.lt_min.mpr ⟨hpos, by
        change 0 < s.length - 0
        omega⟩
      rw [if_neg hzero]
      exact copyBytes_spec acc s c.nextSge st hbytes

/-- The loop moves the next bytes and leaves the cursor where advancing does; or it fails, in the
element it began in exactly when a byte of that element could not be moved. -/
theorem copyLoop_spec {fuel : Nat} (st : σ) (hin : c.length ≤ (c.restBytes sge).length)
    (hfuel : (sge.length - c.curSge) + c.length ≤ fuel) :
    match acc.moveBytes (((c.restBytes sge).take c.length).map c.formed) st with
    | some st' =>
      copyLoop acc.toSgeMem sge fuel c st = (((advanceLoop sge fuel c).1, st'), 0)
    | none => ∃ c' st' e, copyLoop acc.toSgeMem sge fuel c st = ((c', st'), e) ∧ e ≠ 0 ∧
        c.curSge ≤ c'.curSge ∧ (c'.curSge = c.curSge ↔
          acc.moveBytes (((c.hereBytes sge).take c.length).map c.formed) st = none) := by
  induction fuel generalizing c st with
  | zero =>
    have hzero : c.length = 0 := by omega
    rw [hzero, take_zero]
    rfl
  | succ fuel ih =>
    unfold copyLoop advanceLoop
    by_cases hzero : c.length = 0
    · rw [if_pos hzero, if_pos hzero, hzero, take_zero]
      rfl
    · rw [if_neg hzero, if_neg hzero]
      obtain ⟨c₁, s, hc₁, hs, hrest, hturn, hstep, hcopy⟩ :=
        copyTurn_spec acc st (Nat.pos_of_ne_zero hzero) hin
      have hlt : c₁.curSge < sge.length := (List.getElem?_eq_some_iff.mp hs).1
      obtain ⟨hlength, hcur⟩ : c₁.length = c.length ∧ c.curSge ≤ c₁.curSge := by
        rcases hc₁ with rfl | ⟨rfl, -⟩
        · exact ⟨rfl, Nat.le_refl _⟩
        · exact ⟨rfl, Nat.le_succ _⟩
      obtain ⟨b, hb⟩ : ∃ b, b = c₁.bytes s := ⟨_, rfl⟩
      have hble : b ≤ s.length - c₁.offset ∧ b ≤ c.length := by
        rw [hb, ← hlength]
        exact ⟨Nat.min_le_right _ _, Nat.min_le_left _ _⟩
      -- a turn takes all that is asked for, or all that the element has
      have hdone : c.length - b = 0 ∨ (c₁.take b).hereBytes sge = [] := by
        by_cases hall : c.length ≤ b
        · exact .inl (Nat.sub_eq_zero_of_le hall)
        · refine .inr (DmaCursor.hereBytes_end (c := c₁.take b) hs ?_)
          change s.length ≤ c₁.offset + b
          unfold DmaCursor.bytes at hb
          omega
      rw [← hb] at hturn hstep hcopy
      obtain ⟨hdrop, htake⟩ := DmaCursor.restBytes_take hs hble.1
      rw [hrest] at hdrop htake
      have hlater : ∀ x ∈ ((c.restBytes sge).drop b).take (c.length - b), c₁.curSge < x.elem := by
        intro x hx
        rcases hdone with hnone | hend
        · rw [hnone, take_zero] at hx
          cases hx
        · rw [← hdrop] at hx
          exact DmaCursor.curSge_lt hend (mem_of_mem_take hx)
      have hsplit : ((c.restBytes sge).take c.length).map c.formed =
          ((c.restBytes sge).take b).map c.formed ++
            ((c.restBytes sge).drop b).take (c.length - b) := by
        conv_lhs => rw [← Nat.add_sub_cancel' hble.2, take_add, map_append]
        congr 1
        exact DmaCursor.map_formed_of_lt fun x hx => hcur.trans_lt (hlater x hx)
      -- the bytes of this element are those of the turn, or none at all
      have hhere : (c.hereBytes sge).take c.length =
          if c₁ = c then (c.restBytes sge).take b else [] := by
        rcases hc₁ with rfl | ⟨rfl, hnone⟩
        · rw [if_pos rfl, DmaCursor.hereBytes_take hs hble.1, htake, take_append,
            length_elemBytes, take_of_length_le (by rw [length_elemBytes]; exact hble.2)]
          rcases hdone with hnone | hend
          · rw [hnone, take_zero, append_nil]
          · rw [hend, take_nil, append_nil]
        · have hne : c.nextSge ≠ c := fun h =>
            absurd (congrArg DmaCursor.curSge h) (Nat.succ_ne_self _)
          rw [if_neg hne, hnone, take_nil]
      have hsame : c₁.curSge = c.curSge ↔ c₁ = c := by
        rcases hc₁ with rfl | ⟨rfl, -⟩
        · exact Iff.rfl.trans (by simp)
        · exact ⟨fun h => absurd h (Nat.succ_ne_self _), fun h => congrArg _ h⟩
      rw [hsplit, acc.moveBytes_append, hhere, hturn]
      cases hmove : acc.moveBytes (((c.restBytes sge).take b).map c.formed) st with
      | none =>
        rw [hmove] at hcopy
        obtain ⟨e, he, hcopy⟩ := hcopy
        rw [hcopy, if_neg he]
        refine ⟨c₁, st, e, rfl, he, hcur, hsame.trans ?_⟩
        by_cases hc : c₁ = c
        · rw [if_pos hc, hmove]
          simp [hc]
        · simp [hc]
      | some st₁ =>
        rw [hmove] at hcopy
        rw [hcopy]
        simp only [if_true, Option.bind_some]
        have hnext := ih (c := c₁.take b) st₁ (by
            change c₁.length - b ≤ _
            rw [hdrop, length_drop]
            omega) (by
            change sge.length - c₁.curSge + (c₁.length - b) ≤ fuel
            by_cases hb0 : b = 0
            · omega
            · omega)
        have hlen' : (c₁.take b).length = c.length - b := congrArg (· - b) hlength
        have hformed : (((c.restBytes sge).drop b).take (c.length - b)).map (c₁.take b).formed =
            ((c.restBytes sge).drop b).take (c.length - b) :=
          DmaCursor.map_formed_of_lt (c := c₁.take b) hlater
        have hnone : ((c₁.take b).hereBytes sge).take (c.length - b) = [] := by
          rcases hdone with hnone | hend
          · rw [hnone, take_zero]
          · rw [hend, take_nil]
        rw [hlen', hdrop, hformed, hnone] at hnext
        cases hrestmove : acc.moveBytes (((c.restBytes sge).drop b).take (c.length - b)) st₁ with
        | some st' =>
          rw [hrestmove] at hnext
          exact hnext
        | none =>
          rw [hrestmove] at hnext
          obtain ⟨c', st', e, hloop, he, hle, hiff⟩ := hnext
          have hne : c'.curSge ≠ c₁.curSge := fun h => absurd (hiff.mp h) (by simp)
          have hle : c₁.curSge ≤ c'.curSge := hle
          refine ⟨c', st', e, hloop, he, hcur.trans hle, iff_of_false (by omega) ?_⟩
          by_cases hc : c₁ = c
          · rw [if_pos hc, hmove]
            exact Option.some_ne_none _
          · rw [if_neg hc]
            exact Option.some_ne_none _

end Copy

end Rxe
