-- SUMMARY: Every sequence of calls to the doorbell-register allocator.
import Mathlib.Tactic.Ring
import OfaKernel.Lib.Run
import OfaKernel.Mlx5.UarPages

/-!
# Doorbell registers over runs

The callers hold registers and page references. `BfregData.Sound` says how the pages follow from
the holders. A reference that a call has taken and not yet passed on is `inHand`.
-/

open List

namespace Mlx5

/-! ## Offsets -/

namespace UarCaps

variable (caps : UarCaps)

theorem uarsPerSysPage_pos : 0 < caps.uarsPerSysPage := by
  unfold uarsPerSysPage
  split
  · exact caps.uars_pos ‹_›
  · exact Nat.one_pos

theorem uarsPerSysPage_le : caps.uarsPerSysPage * adapterPageSize ≤ 2 ^ 31 := by
  unfold uarsPerSysPage
  split
  · exact caps.uars_fit ‹_›
  · decide

theorem bfregs_lt : caps.bfregs < 2 ^ 32 := by
  have h := caps.uarsPerSysPage_le
  simp only [bfregs, bfregsPerUar, adapterPageSize] at h ⊢
  omega

/-- The offset of a register within its adapter page. -/
theorem bfreg_offset_lt (i : Nat) (hi : i < bfregsPerUar) :
    i * 2 ^ caps.logBfRegSize + bfOffset < adapterPageSize := by
  have hpos : 0 < 2 ^ caps.logBfRegSize := Nat.two_pow_pos _
  calc i * 2 ^ caps.logBfRegSize + bfOffset
      < bfregsPerUar * 2 ^ caps.logBfRegSize + bfOffset :=
        Nat.add_lt_add_right (Nat.mul_lt_mul_of_pos_right hi hpos) _
    _ ≤ adapterPageSize := by rw [Nat.add_comm]; exact caps.bfregs_fit

end UarCaps

/-- `mlx5_free_bfreg` recovers the number that `alloc_bfreg` chose. -/
theorem addrToDbiInSyspage_mapOffset (caps : UarCaps) (up : UarsPage) (bfreg : SqBfreg) {dbi : Nat}
    (halign : up.map % adapterPageSize = 0) (hdbi : dbi < caps.bfregs)
    (hmap : bfreg.map = up.map + caps.mapOffset dbi) :
    addrToDbiInSyspage caps up bfreg = dbi := by
  have hlt := caps.bfregs_lt
  have hin := caps.bfreg_offset_lt (dbi % bfregsPerUar) (Nat.mod_lt _ (by decide))
  have hpos : 0 < 2 ^ caps.logBfRegSize := Nat.two_pow_pos _
  have huar : (bfreg.map - up.map) >>> adapterPageShift = dbi / bfregsPerUar := by
    rw [hmap, Nat.add_sub_cancel_left, Nat.shiftRight_eq_div_pow]
    unfold UarCaps.mapOffset
    rw [show 2 ^ adapterPageShift = adapterPageSize from rfl, Nat.add_assoc, Nat.mul_comm,
      Nat.mul_add_div (by decide), Nat.div_eq_of_lt hin, Nat.add_zero]
  have hidx : (bfreg.map % adapterPageSize - bfOffset) / 2 ^ caps.logBfRegSize =
      dbi % bfregsPerUar := by
    have hmod : bfreg.map % adapterPageSize =
        dbi % bfregsPerUar * 2 ^ caps.logBfRegSize + bfOffset := by
      rw [hmap, Nat.add_mod, halign, Nat.zero_add, Nat.mod_mod]
      unfold UarCaps.mapOffset
      rw [Nat.add_assoc, Nat.mul_comm, Nat.mul_add_mod, Nat.mod_eq_of_lt hin]
    rw [hmod, Nat.add_sub_cancel, Nat.mul_div_cancel _ hpos]
  have hq : U32.wrap (dbi / bfregsPerUar) = dbi / bfregsPerUar :=
    U32.wrap_of_lt ((Nat.div_le_self _ _).trans_lt (hdbi.trans hlt))
  have hr : U32.wrap (dbi % bfregsPerUar) = dbi % bfregsPerUar :=
    U32.wrap_of_lt ((Nat.mod_le _ _).trans_lt (hdbi.trans hlt))
  unfold addrToDbiInSyspage
  rw [huar, hidx, hq, hr]
  simp only [Nat.div_add_mod']
  exact U32.wrap_of_lt (hdbi.trans hlt)

/-! ## Registers given out -/

/-- A register in a caller's hands, with the number that was chosen for it. -/
structure LiveBfreg where
  bfreg : SqBfreg
  dbi : Nat
deriving DecidableEq

/-- Page and number of a register. -/
def LiveBfreg.place (l : LiveBfreg) : Nat × Nat := (l.bfreg.up, l.dbi)

/-- The kind of a register is that of its number. -/
def isFastPath (dbi : Nat) : Bool := decide (nonFpBfregsPerUar ≤ dbi % bfregsPerUar)

/-- Who refers to the pages. -/
structure BfregHolders where
  live : List LiveBfreg
  held : List Nat
  inHand : Option Nat

namespace BfregHolders

/-- The references to a page. -/
def refs (h : BfregHolders) (a : Nat) : Nat :=
  h.live.countP (fun l => l.bfreg.up = a) + h.held.count a + if h.inHand = some a then 1 else 0

/-- Register `i` of page `a` is given out. -/
def Taken (h : BfregHolders) (a i : Nat) : Prop := ∃ l ∈ h.live, l.bfreg.up = a ∧ l.dbi = i

instance (h : BfregHolders) (a i : Nat) : Decidable (h.Taken a i) :=
  inferInstanceAs (Decidable (∃ l ∈ h.live, _))

/-- The registers of one kind that are not given out. -/
def openBits (h : BfregHolders) (caps : UarCaps) (a : Nat) (fp : Bool) : Bitmap := fun i =>
  decide (i < caps.bfregs) && decide (isFastPath i = fp) && !decide (h.Taken a i)

end BfregHolders

structure UarsPage.Sound (caps : UarCaps) (h : BfregHolders) (a : Nat) (up : UarsPage) :
    Prop where
  align : up.map % adapterPageSize = 0
  bfregs : up.bfregs = caps.bfregs
  bitmap : ∀ fp, up.bitmap fp = h.openBits caps a fp
  avail : ∀ fp, up.avail fp = (up.bitmap fp).weight caps.bfregs
  some_avail : ∃ fp, 0 < up.avail fp
  refCount : up.refCount = h.refs a
  referenced : 0 < h.refs a

/-- The pages follow from their holders; `kind a` is the list that page `a` belongs on. -/
structure PagesSound (caps : UarCaps) (kind : Nat → Bool) (page : Nat → Option UarsPage)
    (h : BfregHolders) : Prop where
  sound : ∀ a up, page a = some up → up.Sound caps h a
  present : ∀ a, 0 < h.refs a → (page a).isSome
  live : ∀ l ∈ h.live, ∃ up, page l.bfreg.up = some up ∧ l.bfreg.wc = kind l.bfreg.up ∧
    l.bfreg.map = up.map + caps.mapOffset l.dbi ∧ l.dbi < caps.bfregs
  apart : (h.live.map LiveBfreg.place).Nodup
  held : ∀ a ∈ h.held, kind a = false

namespace BfregData

/-- A page with registers of both kinds available. -/
def Open (s : BfregData) (a : Nat) : Prop :=
  ∃ up, s.page a = some up ∧ ∀ fp, 0 < up.avail fp

/-- The lists hold the open pages, each once and on the list of its kind. -/
structure Listed (kind : Nat → Bool) (s : BfregData) : Prop where
  nodup : ∀ wc, (s.head wc).Nodup
  mem : ∀ wc a, a ∈ s.head wc ↔ s.Open a ∧ kind a = wc

structure Sound (caps : UarCaps) (kind : Nat → Bool) (s : BfregData) (h : BfregHolders) :
    Prop where
  pages : PagesSound caps kind s.page h
  lists : s.Listed kind

end BfregData

/-! ## Lists -/

namespace BfregData

variable {kind kind' : Nat → Bool} {s s' : BfregData} {a : Nat} {up : UarsPage}

@[simp] theorem page_setPage_self : (s.setPage a up).page a = some up := by
  simp [setPage]

theorem page_setPage_of_ne {b : Nat} (h : b ≠ a) : (s.setPage a up).page b = s.page b := by
  simp [setPage, h]

theorem deref_eq (h : s.page a = some up) : s.deref a = .ok up := by
  simp [deref, h]

theorem open_iff_of_page (h : s.page a = some up) : s.Open a ↔ ∀ fp, 0 < up.avail fp := by
  simp [Open, h]

theorem open_congr {b : Nat} (h : s'.page b = s.page b) : s'.Open b ↔ s.Open b := by
  simp [Open, h]

theorem mem_heads_iff : (a ∈ s.regHead ∨ a ∈ s.wcHead) ↔ ∃ wc, a ∈ s.head wc := by
  simp [head]

theorem Listed.mem_heads (hs : s.Listed kind) : (a ∈ s.regHead ∨ a ∈ s.wcHead) ↔ s.Open a := by
  rw [mem_heads_iff]
  simp [hs.mem]

theorem Listed.keep (hs : s.Listed kind) (hhead : ∀ wc, s'.head wc = s.head wc)
    (hopen : ∀ b, s'.Open b ↔ s.Open b) : s'.Listed kind where
  nodup wc := hhead wc ▸ hs.nodup wc
  mem wc b := by rw [hhead, hs.mem, hopen]

theorem Listed.erase (hs : s.Listed kind) (hhead : ∀ wc, s'.head wc = (s.head wc).erase a)
    (hopen : ∀ b, s'.Open b ↔ s.Open b ∧ b ≠ a) : s'.Listed kind where
  nodup wc := by
    rw [hhead]
    exact (hs.nodup wc).erase a
  mem wc b := by
    rw [hhead, (hs.nodup wc).mem_erase_iff, hs.mem, hopen]
    tauto

theorem Listed.insert (hs : s.Listed kind) (hkind : ∀ b ≠ a, kind' b = kind b)
    (hnew : ¬s.Open a)
    (hhead : ∀ wc, (s'.head wc).Perm (if wc = kind' a then a :: s.head wc else s.head wc))
    (hopen : ∀ b, s'.Open b ↔ b = a ∨ s.Open b) : s'.Listed kind' where
  nodup wc := by
    rw [(hhead wc).nodup_iff]
    split
    · exact nodup_cons.mpr ⟨fun h => hnew ((hs.mem wc a).mp h).1, hs.nodup wc⟩
    · exact hs.nodup wc
  mem wc b := by
    rw [(hhead wc).mem_iff, hopen]
    by_cases hb : b = a
    · subst hb
      split
      · simp [*]
      · rw [hs.mem]
        exact ⟨fun h => absurd h.1 hnew, fun h => absurd h.2.symm ‹_›⟩
    · rw [hkind b hb]
      split <;> simp [hb, hs.mem]

theorem listDel_eq (hmem : a ∈ s.regHead ∨ a ∈ s.wcHead)
    (hdisj : ∀ wc wc', a ∈ s.head wc → a ∈ s.head wc' → wc = wc') :
    ∃ s', s.listDel a = .ok s' ∧ s'.page = s.page ∧
      ∀ wc, s'.head wc = (s.head wc).erase a := by
  by_cases hreg : a ∈ s.regHead
  · have hwc : a ∉ s.wcHead := fun h => Bool.noConfusion (hdisj false true hreg h)
    refine ⟨{ s with regHead := s.regHead.erase a }, by simp [listDel, hreg], rfl, ?_⟩
    rintro (_ | _)
    · rfl
    · exact (erase_of_not_mem hwc).symm
  · have hwc : a ∈ s.wcHead := hmem.resolve_left hreg
    refine ⟨{ s with wcHead := s.wcHead.erase a }, by simp [listDel, hreg, hwc], rfl, ?_⟩
    rintro (_ | _)
    · exact (erase_of_not_mem hreg).symm
    · rfl

theorem Listed.unique (hs : s.Listed kind) (wc wc' : Bool) (h : a ∈ s.head wc)
    (h' : a ∈ s.head wc') : wc = wc' :=
  ((hs.mem wc a).mp h).2.symm.trans ((hs.mem wc' a).mp h').2

theorem head_setHead (wc wc' : Bool) (l : List Nat) :
    (s.setHead wc l).head wc' = if wc' = wc then l else s.head wc' := by
  cases wc <;> cases wc' <;> rfl

@[simp] theorem page_setHead (wc : Bool) (l : List Nat) : (s.setHead wc l).page = s.page := by
  cases wc <;> rfl

theorem listAdd_eq (wc : Bool) (h : ¬(a ∈ s.regHead ∨ a ∈ s.wcHead)) :
    s.listAdd wc a = .ok (s.setHead wc (a :: s.head wc)) := if_neg h

theorem listAddTail_eq (wc : Bool) (h : ¬(a ∈ s.regHead ∨ a ∈ s.wcHead)) :
    s.listAddTail wc a = .ok (s.setHead wc (s.head wc ++ [a])) := if_neg h

end BfregData

/-! ## Pages -/

namespace UarsPage

variable (up : UarsPage) (fp : Bool) (b : Bitmap) (n : Nat)

@[simp] theorem map_update : (up.update fp b n).map = up.map := by cases fp <;> rfl

@[simp] theorem bfregs_update : (up.update fp b n).bfregs = up.bfregs := by cases fp <;> rfl

@[simp] theorem refCount_update : (up.update fp b n).refCount = up.refCount := by cases fp <;> rfl

theorem bitmap_update (fp' : Bool) :
    (up.update fp b n).bitmap fp' = if fp' = fp then b else up.bitmap fp' := by
  cases fp <;> cases fp' <;> rfl

theorem avail_update (fp' : Bool) :
    (up.update fp b n).avail fp' = if fp' = fp then n else up.avail fp' := by
  cases fp <;> cases fp' <;> rfl

end UarsPage

section

variable {caps : UarCaps} {kind kind' : Nat → Bool} {page : Nat → Option UarsPage}
  {h h' : BfregHolders} {a : Nat} {up up' : UarsPage}

theorem UarsPage.Sound.congr (hs : up.Sound caps h a) (hrefs : h'.refs a = h.refs a)
    (htaken : ∀ i, h'.Taken a i ↔ h.Taken a i) : up.Sound caps h' a where
  align := hs.align
  bfregs := hs.bfregs
  bitmap fp := by
    rw [hs.bitmap fp]
    funext i
    simp [BfregHolders.openBits, htaken]
  avail := hs.avail
  some_avail := hs.some_avail
  refCount := hrefs ▸ hs.refCount
  referenced := hrefs ▸ hs.referenced

theorem PagesSound.update (hs : PagesSound caps kind page h) (hup : up'.Sound caps h' a)
    (hkind : ∀ b ≠ a, kind' b = kind b) (hrefs : ∀ b ≠ a, h'.refs b = h.refs b)
    (htaken : ∀ b ≠ a, ∀ i, h'.Taken b i ↔ h.Taken b i)
    (hlive : ∀ l ∈ h'.live, (l.bfreg.up = a → l.bfreg.wc = kind' a ∧
      l.bfreg.map = up'.map + caps.mapOffset l.dbi ∧ l.dbi < caps.bfregs) ∧
      (l.bfreg.up ≠ a → l ∈ h.live))
    (hapart : (h'.live.map LiveBfreg.place).Nodup)
    (hheld : ∀ b ∈ h'.held, kind' b = false) :
    PagesSound caps kind' (Function.update page a (some up')) h' where
  sound b up hb := by
    by_cases hba : b = a
    · subst hba
      rw [Function.update_self] at hb
      cases hb
      exact hup
    · rw [Function.update_of_ne hba] at hb
      exact (hs.sound b up hb).congr (hrefs b hba) (htaken b hba)
  present b hb := by
    by_cases hba : b = a
    · simp [hba]
    · rw [Function.update_of_ne hba]
      exact hs.present b (hrefs b hba ▸ hb)
  live l hl := by
    obtain ⟨hself, hother⟩ := hlive l hl
    by_cases hla : l.bfreg.up = a
    · rw [hla, Function.update_self]
      exact ⟨up', rfl, hself hla⟩
    · rw [Function.update_of_ne hla, hkind _ hla]
      exact hs.live l (hother hla)
  apart := hapart
  held := hheld

/-- Only page references move between the call and its callers. -/
theorem PagesSound.congr (hs : PagesSound caps kind page h) (hlive : h'.live = h.live)
    (hrefs : ∀ b, h'.refs b = h.refs b) (hheld : ∀ b ∈ h'.held, kind b = false) :
    PagesSound caps kind page h' where
  sound b up hb := (hs.sound b up hb).congr (hrefs b) fun i => by
    simp [BfregHolders.Taken, hlive]
  present b hb := hs.present b (hrefs b ▸ hb)
  live := hlive ▸ hs.live
  apart := hlive ▸ hs.apart
  held := hheld

end

/-! ## A new page -/

def bitsBelow (p : Nat → Bool) (n : Nat) : Bitmap := fun i => decide (i < n) && p i

theorem bitsBelow_succ (p : Nat → Bool) (n : Nat) :
    bitsBelow p (n + 1) = if p n then (bitsBelow p n).setBit n else bitsBelow p n := by
  funext i
  have hlt : i < n + 1 ↔ i = n ∨ i < n := by omega
  rcases eq_or_ne i n with rfl | hi
  · split <;> simp [bitsBelow, *]
  · split <;> simp [bitsBelow, hlt, hi, Bitmap.setBit_of_ne hi]

theorem initBitmaps_eq (n : Nat) :
    initBitmaps n = (bitsBelow (fun i => !isFastPath i) n, bitsBelow isFastPath n) := by
  induction n with
  | zero =>
    refine Prod.ext ?_ ?_ <;> funext i <;> simp [initBitmaps, bitsBelow, Bitmap.zero]
  | succ n ih =>
    unfold initBitmaps at ih ⊢
    rw [range_succ, foldl_append, ih, foldl_cons, foldl_nil,
      bitsBelow_succ, bitsBelow_succ]
    split
    · have hn : isFastPath n = false := by simp [isFastPath, *]
      simp [hn]
    · have hn : isFastPath n = true := by
        simp only [isFastPath, decide_eq_true_eq]
        omega
      simp [hn]

/-- Two registers of each kind in an adapter page. -/
theorem weight_isFastPath (fp : Bool) (k : Nat) :
    Bitmap.weight (fun i => decide (isFastPath i = fp)) (k * bfregsPerUar) = k * 2 := by
  induction k with
  | zero => simp
  | succ k ih =>
    have hk : (k + 1) * bfregsPerUar = k * bfregsPerUar + 1 + 1 + 1 + 1 := by
      simp [bfregsPerUar, Nat.add_mul]
    rw [hk, Bitmap.weight_succ, Bitmap.weight_succ, Bitmap.weight_succ, Bitmap.weight_succ, ih]
    cases fp <;> simp [isFastPath, bfregsPerUar, nonFpBfregsPerUar] <;> omega

/-- A page as `alloc_uars_page` leaves it: every register free, one reference. -/
structure UarsPage.Fresh (caps : UarCaps) (up : UarsPage) : Prop where
  bfregs : up.bfregs = caps.bfregs
  bitmap : ∀ fp, up.bitmap fp = bitsBelow (fun i => decide (isFastPath i = fp)) caps.bfregs
  avail : ∀ fp, up.avail fp = caps.uarsPerSysPage * 2
  refCount : up.refCount = 1

theorem allocUarsPage_ok {caps : UarCaps} {wc : Bool} {ans : UarAnswers} {a : Nat}
    {up : UarsPage} (h : allocUarsPage caps wc ans = .ok (a, up)) :
    ans.kzalloc = some a ∧ ans.ioremap = some up.map ∧ up.Fresh caps := by
  unfold allocUarsPage at h
  split at h
  · cases h
  · split at h
    · split at h
      · cases h
      · split at h
        · cases h
        · cases h
          refine ⟨‹_›, ‹_›, rfl, ?_, ?_, rfl⟩
          · rintro (_ | _)
            all_goals simp [UarsPage.bitmap, initBitmaps_eq]
          · have hhalf (k : Nat) : k * bfregsPerUar * 2 / bfregsPerUar = k * 2 := by
              simp only [bfregsPerUar]
              omega
            rintro (_ | _)
            all_goals exact hhalf _
    · cases h

section

variable {caps : UarCaps} {kind : Nat → Bool} {page : Nat → Option UarsPage}
  {h : BfregHolders} {a : Nat} {up : UarsPage}

theorem UarsPage.Fresh.avail_pos (hf : up.Fresh caps) (fp : Bool) : 0 < up.avail fp := by
  have := caps.uarsPerSysPage_pos
  rw [hf.avail]
  omega

theorem UarsPage.Fresh.weight (hf : up.Fresh caps) (fp : Bool) :
    (up.bitmap fp).weight caps.bfregs = up.avail fp := by
  rw [hf.avail, hf.bitmap, ← weight_isFastPath fp]
  exact Bitmap.weight_congr fun i hi => by simp [bitsBelow, show i < caps.bfregs from hi]

theorem BfregHolders.refs_inHand (hh : h.inHand = none) (b : Nat) :
    { h with inHand := some a }.refs b = h.refs b + if b = a then 1 else 0 := by
  simp [BfregHolders.refs, hh, eq_comm]

/-- A page that nobody can refer to yet. -/
theorem UarsPage.Fresh.sound (hf : up.Fresh caps) (hs : PagesSound caps kind page h)
    (hh : h.inHand = none) (hnone : page a = none) (halign : up.map % adapterPageSize = 0) :
    up.Sound caps { h with inHand := some a } a := by
  have hrefs : h.refs a = 0 := by
    by_contra hpos
    have := hs.present a (Nat.pos_of_ne_zero hpos)
    simp [hnone] at this
  have hrefs' : { h with inHand := some a }.refs a = 1 := by
    rw [BfregHolders.refs_inHand hh, hrefs]
    simp
  have htaken (i : Nat) : ¬{ h with inHand := some a }.Taken a i := by
    rintro ⟨l, hl, rfl, -⟩
    obtain ⟨up', hup', -⟩ := hs.live l hl
    simp [hnone] at hup'
  exact
    { align := halign
      bfregs := hf.bfregs
      bitmap := fun fp => by
        rw [hf.bitmap fp]
        funext i
        simp [bitsBelow, BfregHolders.openBits, htaken]
      avail := fun fp => (hf.weight fp).symm
      some_avail := ⟨true, hf.avail_pos true⟩
      refCount := by rw [hf.refCount, hrefs']
      referenced := by rw [hrefs']; exact Nat.one_pos }

theorem PagesSound.addPage (hs : PagesSound caps kind page h) (hh : h.inHand = none)
    (hnone : page a = none) (hf : up.Fresh caps) (halign : up.map % adapterPageSize = 0)
    (wc : Bool) :
    PagesSound caps (Function.update kind a wc) (Function.update page a (some up))
      { h with inHand := some a } := by
  have hlive (l : LiveBfreg) (hl : l ∈ h.live) : l.bfreg.up ≠ a := by
    rintro rfl
    obtain ⟨up', hup', -⟩ := hs.live l hl
    simp [hnone] at hup'
  have hheld (b : Nat) (hb : b ∈ h.held) : b ≠ a := by
    rintro rfl
    have hpos : 0 < h.refs b := by
      have := count_pos_iff.mpr hb
      unfold BfregHolders.refs
      omega
    have := hs.present b hpos
    simp [hnone] at this
  apply hs.update (hf.sound hs hh hnone halign)
  · intro b hb
    exact Function.update_of_ne hb _ _
  · intro b hb
    rw [BfregHolders.refs_inHand hh, if_neg hb, Nat.add_zero]
  · intro b _ i
    exact Iff.rfl
  · intro l hl
    exact ⟨fun hla => absurd hla (hlive l hl), fun _ => hl⟩
  · exact hs.apart
  · intro b hb
    rw [Function.update_of_ne (hheld b hb)]
    exact hs.held b hb

theorem PagesSound.getPage (hs : PagesSound caps kind page h) (hh : h.inHand = none)
    (hup : page a = some up) :
    PagesSound caps kind (Function.update page a (some up.krefGet))
      { h with inHand := some a } := by
  have hup' := hs.sound a up hup
  have hrefs : { h with inHand := some a }.refs a = h.refs a + 1 := by
    rw [BfregHolders.refs_inHand hh, if_pos rfl]
  have hnew : up.krefGet.Sound caps { h with inHand := some a } a :=
    { align := hup'.align
      bfregs := hup'.bfregs
      bitmap := hup'.bitmap
      avail := hup'.avail
      some_avail := hup'.some_avail
      refCount := by rw [hrefs, ← hup'.refCount]; rfl
      referenced := by rw [hrefs]; exact Nat.succ_pos _ }
  apply hs.update hnew
  · intro b _
    rfl
  · intro b hb
    rw [BfregHolders.refs_inHand hh, if_neg hb, Nat.add_zero]
  · intro b _ i
    exact Iff.rfl
  · intro l hl
    refine ⟨?_, fun _ => hl⟩
    rintro rfl
    obtain ⟨up₀, hup₀, hrest⟩ := hs.live l hl
    rw [hup] at hup₀
    cases hup₀
    exact hrest
  · exact hs.apart
  · exact hs.held

end

/-! ## Taking a register and giving it back -/

section

variable {caps : UarCaps} {kind : Nat → Bool} {page : Nat → Option UarsPage}
  {h : BfregHolders} {a : Nat} {up : UarsPage} {fp : Bool}

namespace UarsPage.Sound

theorem bit_eq (hs : up.Sound caps h a) {i : Nat} :
    up.bitmap fp i = true ↔ i < caps.bfregs ∧ isFastPath i = fp ∧ ¬h.Taken a i := by
  rw [hs.bitmap fp]
  simp [BfregHolders.openBits, and_assoc]

theorem avail_lt (hs : up.Sound caps h a) (fp : Bool) : up.avail fp < 2 ^ 32 := by
  rw [hs.avail fp]
  exact (Bitmap.weight_le _ _).trans_lt caps.bfregs_lt

/-- A positive counter means that the search finds a register. -/
theorem findFirstBit_lt (hs : up.Sound caps h a) (hpos : 0 < up.avail fp) :
    (up.bitmap fp).findFirstBit up.bfregs < up.bfregs := by
  by_contra hnone
  have hall := Bitmap.findFirstBit_none hnone
  rw [hs.bfregs] at hall
  have hzero : (up.bitmap fp).weight caps.bfregs = 0 := by
    exact (Bitmap.weight_congr hall).trans (Bitmap.weight_zero _)
  rw [hs.avail fp, hzero] at hpos
  exact absurd hpos (lt_irrefl 0)

end UarsPage.Sound

/-- The holders after register `l` of the page in hand has been given out. -/
def BfregHolders.take (h : BfregHolders) (l : LiveBfreg) : BfregHolders :=
  { live := l :: h.live, held := h.held, inHand := none }

variable {l : LiveBfreg}

theorem BfregHolders.refs_take (hh : h.inHand = some l.bfreg.up) (b : Nat) :
    (h.take l).refs b = h.refs b := by
  by_cases hb : l.bfreg.up = b
  · simp [take, refs, hh, hb]
    omega
  · simp [take, refs, hh, hb]

theorem BfregHolders.taken_take (l : LiveBfreg) (b i : Nat) :
    (h.take l).Taken b i ↔ (l.bfreg.up = b ∧ l.dbi = i) ∨ h.Taken b i := by
  simp [take, Taken]

theorem UarsPage.Sound.take (hs : up.Sound caps h a) (hh : h.inHand = some a) (hla : l.bfreg.up = a)
    (hbit : up.bitmap fp l.dbi = true) (hother : 0 < up.avail (!fp)) :
    (up.update fp ((up.bitmap fp).clearBit l.dbi) (U32.dec (up.avail fp))).Sound caps
      (h.take l) a := by
  obtain ⟨hlt, hfp, -⟩ := hs.bit_eq.mp hbit
  have hweight := Bitmap.weight_clearBit hlt hbit
  have hpos : 0 < up.avail fp := by
    rw [hs.avail fp]
    exact Bitmap.weight_pos hlt hbit
  have hdec : U32.dec (up.avail fp) = up.avail fp - 1 := U32.dec_of_pos hpos (hs.avail_lt fp)
  exact
    { align := by simpa using hs.align
      bfregs := by simpa using hs.bfregs
      bitmap := fun fp' => by
        funext i
        rw [UarsPage.bitmap_update, Bool.eq_iff_iff]
        have htaken := BfregHolders.taken_take (h := h) l a i
        split
        · subst fp'
          rw [Bitmap.clearBit_eq_true, hs.bit_eq]
          simp only [BfregHolders.openBits, Bool.and_eq_true, decide_eq_true_eq,
            Bool.not_eq_true', decide_eq_false_iff_not, htaken, hla, true_and, not_or]
          tauto
        · rw [hs.bit_eq]
          simp only [BfregHolders.openBits, Bool.and_eq_true, decide_eq_true_eq,
            Bool.not_eq_true', decide_eq_false_iff_not, htaken, hla, true_and, not_or]
          constructor
          · rintro ⟨h₁, h₂, h₃⟩
            exact ⟨⟨h₁, h₂⟩, by rintro rfl; exact absurd (h₂.symm.trans hfp) ‹_›, h₃⟩
          · rintro ⟨⟨h₁, h₂⟩, -, h₃⟩
            exact ⟨h₁, h₂, h₃⟩
      avail := fun fp' => by
        rw [UarsPage.bitmap_update, UarsPage.avail_update]
        split
        · rw [hdec, hs.avail fp]
          omega
        · exact hs.avail fp'
      some_avail := ⟨!fp, by rw [UarsPage.avail_update]; simpa using hother⟩
      refCount := by
        rw [UarsPage.refCount_update, hs.refCount, BfregHolders.refs_take (hla ▸ hh)]
      referenced := by
        rw [BfregHolders.refs_take (hla ▸ hh)]
        exact hs.referenced }

theorem PagesSound.take (hs : PagesSound caps kind page h) (hh : h.inHand = some a)
    (hup : page a = some up) (hla : l.bfreg.up = a) (hwc : l.bfreg.wc = kind a)
    (hmap : l.bfreg.map = up.map + caps.mapOffset l.dbi) (hbit : up.bitmap fp l.dbi = true)
    (hother : 0 < up.avail (!fp)) :
    PagesSound caps kind
      (Function.update page a
        (some (up.update fp ((up.bitmap fp).clearBit l.dbi) (U32.dec (up.avail fp)))))
      (h.take l) := by
  have hup' := hs.sound a up hup
  obtain ⟨hlt, -, hfree⟩ := hup'.bit_eq.mp hbit
  apply hs.update (hup'.take hh hla hbit hother)
  · intro b _
    rfl
  · intro b _
    exact BfregHolders.refs_take (hla ▸ hh) b
  · intro b hb i
    rw [BfregHolders.taken_take, hla]
    simp [hb.symm]
  · intro l' hl'
    rcases mem_cons.mp hl' with rfl | hl'
    · exact ⟨fun _ => ⟨hwc, by simpa using hmap, hlt⟩, fun hne => absurd hla hne⟩
    · refine ⟨?_, fun _ => hl'⟩
      rintro rfl
      obtain ⟨up₀, hup₀, hrest⟩ := hs.live l' hl'
      rw [hup] at hup₀
      cases hup₀
      simpa using hrest
  · refine nodup_cons.mpr ⟨?_, hs.apart⟩
    intro hmem
    obtain ⟨l', hl', heq⟩ := mem_map.mp hmem
    obtain ⟨h₁, h₂⟩ := Prod.mk.inj heq
    exact hfree ⟨l', hl', h₁.trans hla, h₂⟩
  · exact hs.held

/-- The holders while register `l` is being given back. -/
def BfregHolders.give (h : BfregHolders) (l : LiveBfreg) : BfregHolders :=
  { live := h.live.erase l, held := h.held, inHand := some l.bfreg.up }

theorem BfregHolders.refs_give (hh : h.inHand = none) (hl : l ∈ h.live) (b : Nat) :
    (h.give l).refs b = h.refs b := by
  have hcount := countP_erase (p := fun l => decide (l.bfreg.up = b)) (l := h.live) (a := l)
  by_cases hb : l.bfreg.up = b
  · have hpos : 0 < h.live.countP fun l => decide (l.bfreg.up = b) :=
      countP_pos_iff.mpr ⟨l, hl, by simpa using hb⟩
    simp only [hl, hb, decide_true, and_self, if_true] at hcount
    simp only [give, refs, hh, hb, hcount, if_true]
    simp
    omega
  · simp only [give, refs, hh, hcount]
    simp [hb]

theorem BfregHolders.taken_give (hl : l ∈ h.live) (hapart : (h.live.map LiveBfreg.place).Nodup)
    (b i : Nat) :
    (h.give l).Taken b i ↔ h.Taken b i ∧ ¬(l.bfreg.up = b ∧ l.dbi = i) := by
  have hnodup : h.live.Nodup := hapart.of_map _
  constructor
  · rintro ⟨l', hl', rfl, rfl⟩
    obtain ⟨hne, hl'⟩ := hnodup.mem_erase_iff.mp hl'
    refine ⟨⟨l', hl', rfl, rfl⟩, ?_⟩
    rintro ⟨h₁, h₂⟩
    exact hne (inj_on_of_nodup_map hapart hl' hl (by simp [LiveBfreg.place, h₁, h₂]))
  · rintro ⟨⟨l', hl', rfl, rfl⟩, hne⟩
    refine ⟨l', hnodup.mem_erase_iff.mpr ⟨?_, hl'⟩, rfl, rfl⟩
    rintro rfl
    exact hne ⟨rfl, rfl⟩

theorem UarsPage.Sound.give (hs : up.Sound caps h a) (hh : h.inHand = none) (hl : l ∈ h.live)
    (hapart : (h.live.map LiveBfreg.place).Nodup) (hla : l.bfreg.up = a) (hlt : l.dbi < caps.bfregs)
    (hfp : isFastPath l.dbi = fp) :
    U32.inc (up.avail fp) = up.avail fp + 1 ∧
    (up.update fp ((up.bitmap fp).setBit l.dbi) (U32.inc (up.avail fp))).Sound caps
      (h.give l) a := by
  have hclear : up.bitmap fp l.dbi = false := by
    rw [Bool.eq_false_iff, Ne, hs.bit_eq]
    exact fun hbit => hbit.2.2 ⟨l, hl, hla, rfl⟩
  have hweight := Bitmap.weight_setBit hlt hclear
  have hinc : U32.inc (up.avail fp) = up.avail fp + 1 := by
    apply U32.inc_of_lt
    rw [hs.avail fp, ← hweight]
    exact (Bitmap.weight_le _ _).trans_lt caps.bfregs_lt
  have htaken := BfregHolders.taken_give hl hapart a
  refine ⟨hinc,
    { align := by simpa using hs.align
      bfregs := by simpa using hs.bfregs
      bitmap := fun fp' => by
        funext i
        rw [UarsPage.bitmap_update, Bool.eq_iff_iff]
        split
        · subst fp'
          rw [Bitmap.setBit_eq_true, hs.bit_eq]
          simp only [BfregHolders.openBits, Bool.and_eq_true, decide_eq_true_eq,
            Bool.not_eq_true', decide_eq_false_iff_not, htaken, hla, true_and]
          constructor
          · rintro (rfl | ⟨h₁, h₂, h₃⟩)
            · exact ⟨⟨hlt, hfp⟩, fun hne => hne.2 rfl⟩
            · exact ⟨⟨h₁, h₂⟩, fun hne => h₃ hne.1⟩
          · rintro ⟨⟨h₁, h₂⟩, h₃⟩
            by_cases hi : i = l.dbi
            · exact .inl hi
            · exact .inr ⟨h₁, h₂, fun ht => h₃ ⟨ht, fun he => hi he.symm⟩⟩
        · rw [hs.bit_eq]
          simp only [BfregHolders.openBits, Bool.and_eq_true, decide_eq_true_eq,
            Bool.not_eq_true', decide_eq_false_iff_not, htaken, hla, true_and]
          constructor
          · rintro ⟨h₁, h₂, h₃⟩
            exact ⟨⟨h₁, h₂⟩, fun hne => h₃ hne.1⟩
          · rintro ⟨⟨h₁, h₂⟩, h₃⟩
            refine ⟨h₁, h₂, fun ht => h₃ ⟨ht, ?_⟩⟩
            rintro rfl
            exact absurd (h₂.symm.trans hfp) ‹_›
      avail := fun fp' => by
        rw [UarsPage.bitmap_update, UarsPage.avail_update]
        split
        · rw [hinc, hs.avail fp, hweight]
        · exact hs.avail fp'
      some_avail := ⟨fp, by rw [UarsPage.avail_update, if_pos rfl, hinc]; exact Nat.succ_pos _⟩
      refCount := by
        rw [UarsPage.refCount_update, hs.refCount, BfregHolders.refs_give hh hl]
      referenced := by
        rw [BfregHolders.refs_give hh hl]
        exact hs.referenced }⟩

theorem PagesSound.give (hs : PagesSound caps kind page h) (hh : h.inHand = none) (hl : l ∈ h.live)
    (hup : page l.bfreg.up = some up) (hfp : isFastPath l.dbi = fp) :
    PagesSound caps kind
      (Function.update page l.bfreg.up
        (some (up.update fp ((up.bitmap fp).setBit l.dbi) (U32.inc (up.avail fp)))))
      (h.give l) := by
  have hlt : l.dbi < caps.bfregs := by
    obtain ⟨-, -, -, -, hlt⟩ := hs.live l hl
    exact hlt
  apply hs.update ((hs.sound _ up hup).give hh hl hs.apart rfl hlt hfp).2
  · intro b _
    rfl
  · intro b _
    exact BfregHolders.refs_give hh hl b
  · intro b hb i
    rw [BfregHolders.taken_give hl hs.apart]
    simp [hb.symm]
  · intro l' hl'
    have hl' := mem_of_mem_erase hl'
    refine ⟨?_, fun _ => hl'⟩
    intro heq
    obtain ⟨up₀, hup₀, hrest⟩ := hs.live l' hl'
    rw [heq] at hup₀ hrest
    rw [hup] at hup₀
    cases hup₀
    simpa using hrest
  · exact hs.apart.sublist (erase_sublist.map _)
  · exact hs.held

/-- The holders after the page in hand has been dropped. -/
def BfregHolders.drop (h : BfregHolders) : BfregHolders := { h with inHand := none }

theorem BfregHolders.refs_drop (hh : h.inHand = some a) (b : Nat) :
    h.refs b = h.drop.refs b + if b = a then 1 else 0 := by
  simp [drop, refs, hh, eq_comm]

theorem PagesSound.dropShared (hs : PagesSound caps kind page h) (hh : h.inHand = some a)
    (hup : page a = some up) {n : Nat} (hcount : up.refCount = n + 2) :
    PagesSound caps kind (Function.update page a (some { up with refCount := n + 1 }))
      h.drop := by
  have hup' := hs.sound a up hup
  have hrefs : h.drop.refs a = n + 1 := by
    have hr := BfregHolders.refs_drop hh a
    rw [if_pos rfl, ← hup'.refCount, hcount] at hr
    exact (Nat.succ.inj hr).symm
  have hnew : UarsPage.Sound caps h.drop a { up with refCount := n + 1 } :=
    { align := hup'.align
      bfregs := hup'.bfregs
      bitmap := hup'.bitmap
      avail := hup'.avail
      some_avail := hup'.some_avail
      refCount := hrefs.symm
      referenced := by rw [hrefs]; exact Nat.succ_pos n }
  apply hs.update hnew
  · intro b _
    rfl
  · intro b hb
    rw [BfregHolders.refs_drop hh b, if_neg hb, Nat.add_zero]
  · intro b _ i
    exact Iff.rfl
  · intro l hl
    refine ⟨?_, fun _ => hl⟩
    rintro rfl
    obtain ⟨up₀, hup₀, hrest⟩ := hs.live l hl
    rw [hup] at hup₀
    cases hup₀
    exact hrest
  · exact hs.apart
  · exact hs.held

/-- With the last reference every register of the page is free, and the page can go. -/
theorem PagesSound.dropLast (hs : PagesSound caps kind page h) (hh : h.inHand = some a)
    (hup : page a = some up) (hcount : up.refCount = 1) :
    (∀ fp, 0 < up.avail fp) ∧
      PagesSound caps kind (Function.update page a none) h.drop := by
  have hup' := hs.sound a up hup
  have hrefs : h.drop.refs a = 0 := by
    have hr := BfregHolders.refs_drop hh a
    rw [if_pos rfl, ← hup'.refCount, hcount] at hr
    exact (Nat.succ.inj hr).symm
  have hlive (l : LiveBfreg) (hl : l ∈ h.live) : l.bfreg.up ≠ a := by
    intro hla
    have hpos : 0 < h.live.countP fun l => decide (l.bfreg.up = a) :=
      countP_pos_iff.mpr ⟨l, hl, by simpa using hla⟩
    have hle : h.live.countP (fun l => decide (l.bfreg.up = a)) ≤ h.drop.refs a :=
      (Nat.le_add_right _ _).trans (Nat.le_add_right _ _)
    omega
  constructor
  · intro fp
    rw [hup'.avail fp, hup'.bitmap fp]
    have hopen : ∀ i < caps.bfregs,
        h.openBits caps a fp i = decide (isFastPath i = fp) := by
      intro i hi
      have hfree : ¬h.Taken a i := by
        rintro ⟨l, hl, hla, -⟩
        exact hlive l hl hla
      simp [BfregHolders.openBits, hi, hfree]
    have hweight : Bitmap.weight (h.openBits caps a fp) caps.bfregs = caps.uarsPerSysPage * 2 :=
      (Bitmap.weight_congr hopen).trans (weight_isFastPath fp _)
    rw [hweight]
    exact Nat.mul_pos caps.uarsPerSysPage_pos (by decide)
  · have hdrop (b : Nat) (hb : b ≠ a) : h.drop.refs b = h.refs b := by
      rw [BfregHolders.refs_drop hh b, if_neg hb, Nat.add_zero]
    exact
      { sound := fun b up hb => by
          by_cases hba : b = a
          · simp [hba] at hb
          · rw [Function.update_of_ne hba] at hb
            exact (hs.sound b up hb).congr (hdrop b hba) fun i => Iff.rfl
        present := fun b hb => by
          by_cases hba : b = a
          · rw [hba, hrefs] at hb
            exact absurd hb (lt_irrefl 0)
          · rw [Function.update_of_ne hba]
            exact hs.present b (hdrop b hba ▸ hb)
        live := fun l hl => by
          rw [Function.update_of_ne (hlive l hl)]
          exact hs.live l hl
        apart := hs.apart
        held := hs.held }

end

/-! ## Calls -/

/-- The memory for a page is not in use, and the page is mapped at a page boundary. -/
def UarAnswers.Valid (ans : UarAnswers) (s : BfregData) : Prop :=
  (∀ a ∈ ans.kzalloc, s.page a = none) ∧ ∀ map ∈ ans.ioremap, map % adapterPageSize = 0

instance (ans : UarAnswers) (s : BfregData) : Decidable (ans.Valid s) :=
  inferInstanceAs (Decidable ((∀ a ∈ ans.kzalloc, s.page a = none) ∧ ∀ map ∈ ans.ioremap, _))

namespace BfregData

variable {caps : UarCaps} {kind : Nat → Bool} {s : BfregData} {h : BfregHolders} {a : Nat}

theorem open_setPage_of_ne {up : UarsPage} {b : Nat} (hb : b ≠ a) :
    (s.setPage a up).Open b ↔ s.Open b := open_congr (page_setPage_of_ne hb)

theorem open_setPage_self {up : UarsPage} :
    (s.setPage a up).Open a ↔ ∀ fp, 0 < up.avail fp := open_iff_of_page page_setPage_self

theorem Sound.krefPut (hs : s.Sound caps kind h) (hh : h.inHand = some a) :
    ∃ s', s.krefPut a = .ok s' ∧ s'.Sound caps kind h.drop := by
  obtain ⟨up, hup⟩ := Option.isSome_iff_exists.mp <|
    hs.pages.present a (by rw [BfregHolders.refs_drop hh]; simp)
  have hpos : 0 < up.refCount := by
    rw [(hs.pages.sound a up hup).refCount]
    exact (hs.pages.sound a up hup).referenced
  unfold BfregData.krefPut
  rw [deref_eq hup]
  rcases hcount : up.refCount with _ | _ | n
  · omega
  · -- the last reference: the page leaves its list and is freed
    obtain ⟨havail, hpages⟩ := hs.pages.dropLast hh hup hcount
    have hopen : s.Open a := (open_iff_of_page hup).mpr havail
    obtain ⟨s₁, hdel, hpage, hhead⟩ :=
      listDel_eq (hs.lists.mem_heads.mpr hopen) hs.lists.unique
    refine ⟨{ s₁ with page := Function.update s₁.page a none }, by simp [hcount, upRelFunc, hdel],
      ?_⟩
    refine ⟨hpage ▸ hpages, hs.lists.erase hhead ?_⟩
    intro b
    by_cases hb : b = a
    · simp [hb, Open]
    · simp [hb, Open, hpage]
  · refine ⟨s.setPage a { up with refCount := n + 1 }, by simp [hcount],
      hs.pages.dropShared hh hup hcount, hs.lists.keep (fun _ => rfl) ?_⟩
    intro b
    by_cases hb : b = a
    · rw [hb, open_setPage_self, open_iff_of_page hup]
      rfl
    · exact open_setPage_of_ne hb

theorem Sound.takeBfreg (hs : s.Sound caps kind h) (hh : h.inHand = some a) (hopen : s.Open a)
    (fp : Bool) :
    ∃ s' bfreg dbi, takeBfreg caps s a (kind a) fp = .ok (s', bfreg, dbi) ∧
      s'.Sound caps kind (h.take ⟨bfreg, dbi⟩) := by
  obtain ⟨up, hup, havail⟩ := hopen
  have hup' := hs.pages.sound a up hup
  set dbi := (up.bitmap fp).findFirstBit up.bfregs with hdbi
  have hlt : dbi < up.bfregs := hup'.findFirstBit_lt (havail fp)
  have hbit : up.bitmap fp dbi = true := Bitmap.findFirstBit_spec hlt
  set bfreg : SqBfreg := ⟨up.map + caps.mapOffset dbi, a, kind a, up.index + dbi / bfregsPerUar⟩
    with hbfreg
  set up₁ := up.update fp ((up.bitmap fp).clearBit dbi) (U32.dec (up.avail fp)) with hup₁
  have hpages : PagesSound caps kind (s.setPage a up₁).page (h.take ⟨bfreg, dbi⟩) :=
    hs.pages.take (l := ⟨bfreg, dbi⟩) hh hup rfl rfl rfl hbit (havail !fp)
  have hopen₁ : (s.setPage a up₁).Open a ↔ U32.dec (up.avail fp) ≠ 0 := by
    rw [open_setPage_self, ← Nat.pos_iff_ne_zero]
    constructor
    · intro hall
      simpa [hup₁, UarsPage.avail_update] using hall fp
    · intro hdec fp'
      rw [hup₁, UarsPage.avail_update]
      split
      · exact hdec
      · exact havail fp'
  unfold Mlx5.takeBfreg
  rw [deref_eq hup]
  simp only [← hdbi, ← hup₁, ← hbfreg, if_neg (Nat.not_le.mpr hlt)]
  by_cases hzero : U32.dec (up.avail fp) = 0
  · -- the kind is used up: the page leaves its list
    have hmem := hs.lists.mem_heads.mpr ⟨up, hup, havail⟩
    obtain ⟨s₁, hdel, hpage, hhead⟩ := listDel_eq (s := s.setPage a up₁) hmem hs.lists.unique
    refine ⟨s₁, bfreg, dbi, by simp [hzero, hdel], hpage ▸ hpages, hs.lists.erase hhead ?_⟩
    intro b
    rw [open_congr (show s₁.page b = (s.setPage a up₁).page b by rw [hpage])]
    by_cases hb : b = a
    · simp [hb, hopen₁, hzero]
    · simp [hb, open_setPage_of_ne hb]
  · refine ⟨_, bfreg, dbi, by simp [hzero], hpages, hs.lists.keep (fun _ => rfl) ?_⟩
    intro b
    by_cases hb : b = a
    · rw [hb, hopen₁, open_iff_of_page hup]
      exact ⟨fun _ => havail, fun _ => hzero⟩
    · exact open_setPage_of_ne hb

variable {ans : UarAnswers}

/-- A new page goes on a list. -/
theorem Sound.addPage (hs : s.Sound caps kind h) (hh : h.inHand = none) {wc : Bool} {up : UarsPage}
    (hans : ans.Valid s) (hup : allocUarsPage caps wc ans = .ok (a, up)) :
    ∃ s', (s.setPage a up).listAdd wc a = .ok s' ∧ s'.Open a ∧
      s'.Sound caps (Function.update kind a wc) { h with inHand := some a } := by
  obtain ⟨hkz, hmap, hf⟩ := allocUarsPage_ok hup
  have hnone : s.page a = none := hans.1 a hkz
  have hclosed : ¬s.Open a := by
    rintro ⟨up', hup', -⟩
    simp [hnone] at hup'
  have hadd := listAdd_eq (s := s.setPage a up) (a := a) wc
    (fun hmem => hclosed (hs.lists.mem_heads.mp hmem))
  refine ⟨_, hadd, ?_, ?_, hs.lists.insert (a := a) ?_ hclosed ?_ ?_⟩
  · exact ⟨up, by simp, hf.avail_pos⟩
  · rw [page_setHead]
    exact hs.pages.addPage hh hnone hf (hans.2 _ hmap) wc
  · intro b hb
    exact Function.update_of_ne hb _ _
  · intro wc'
    rw [head_setHead, Function.update_self]
    split
    · subst wc'
      exact List.Perm.refl _
    · exact List.Perm.refl _
  · intro b
    rw [open_congr (show ((s.setPage a up).setHead wc _).page b = (s.setPage a up).page b by
      rw [page_setHead])]
    by_cases hb : b = a
    · simp [hb, open_setPage_self, hf.avail_pos]
    · simp [hb, open_setPage_of_ne hb]

theorem Sound.getPage (hs : s.Sound caps kind h) (hh : h.inHand = none) {up : UarsPage}
    (hup : s.page a = some up) :
    (s.setPage a up.krefGet).Sound caps kind { h with inHand := some a } := by
  refine ⟨hs.pages.getPage hh hup, hs.lists.keep (fun _ => rfl) ?_⟩
  intro b
  by_cases hb : b = a
  · rw [hb, open_setPage_self, open_iff_of_page hup]
    rfl
  · exact open_setPage_of_ne hb

theorem Sound.allocBfreg (hs : s.Sound caps kind h) (hh : h.inHand = none) (hans : ans.Valid s)
    (wc fp : Bool) :
    (∃ err, allocBfreg caps s wc fp ans = .ok (s, .error err)) ∨
    ∃ kind' s' r, allocBfreg caps s wc fp ans = .ok (s', .ok r) ∧
      s'.Sound caps kind' { h with live := ⟨r.1, r.2⟩ :: h.live } := by
  have htake (a : Nat) (l : LiveBfreg) :
      BfregHolders.take { h with inHand := some a } l = { h with live := l :: h.live } := by
    simp [BfregHolders.take, ← hh]
  unfold Mlx5.allocBfreg
  cases hhead : s.head wc with
  | nil =>
    cases hnew : allocUarsPage caps wc ans with
    | error err => exact .inl ⟨err, by simp⟩
    | ok new =>
      obtain ⟨s₁, hadd, hopen, hs₁⟩ := hs.addPage hh hans hnew
      obtain ⟨s', bfreg, dbi, hok, hs'⟩ := hs₁.takeBfreg rfl hopen fp
      rw [Function.update_self] at hok
      rw [htake] at hs'
      exact .inr ⟨_, s', (bfreg, dbi), by simp [hadd, hok, Except.map], hs'⟩
  | cons a rest =>
    have hmem : a ∈ s.head wc := hhead ▸ mem_cons_self
    obtain ⟨⟨up, hup, havail⟩, hkind⟩ := (hs.lists.mem wc a).mp hmem
    have hopen : (s.setPage a up.krefGet).Open a := open_setPage_self.mpr havail
    obtain ⟨s', bfreg, dbi, hok, hs'⟩ := (hs.getPage hh hup).takeBfreg rfl hopen fp
    rw [hkind] at hok
    rw [htake] at hs'
    exact .inr ⟨kind, s', (bfreg, dbi), by simp [deref_eq hup, hok, Except.map], hs'⟩

theorem Sound.mlx5AllocBfreg (hs : s.Sound caps kind h) (hh : h.inHand = none)
    {ans ans' : UarAnswers} (hans : ans.Valid s) (hans' : ans'.Valid s) (wc fp : Bool) :
    (∃ err, mlx5AllocBfreg caps s wc fp ans ans' = .ok (s, .error err)) ∨
    ∃ kind' s' r, mlx5AllocBfreg caps s wc fp ans ans' = .ok (s', .ok r) ∧
      s'.Sound caps kind' { h with live := ⟨r.1, r.2⟩ :: h.live } := by
  unfold Mlx5.mlx5AllocBfreg
  rcases hs.allocBfreg hh hans wc fp with ⟨err, herr⟩ | ⟨kind', s', r, hok, hs'⟩
  · rw [herr]
    by_cases hagain : err = errAGAIN ∧ wc = true
    · simpa [hagain] using hs.allocBfreg hh hans' false fp
    · exact .inl ⟨err, by simp [hagain]⟩
  · exact .inr ⟨kind', s', r, by rw [hok], hs'⟩

theorem Sound.getUarsPage (hs : s.Sound caps kind h) (hh : h.inHand = none) (hans : ans.Valid s) :
    (∃ err, getUarsPage caps s ans = .ok (s, .error err)) ∨
    ∃ kind' s' a, getUarsPage caps s ans = .ok (s', .ok a) ∧
      s'.Sound caps kind' { h with held := a :: h.held } := by
  -- the reference in hand becomes the caller's
  have hkeep {kind' : Nat → Bool} {s' : BfregData} {a : Nat}
      (hs' : s'.Sound caps kind' { h with inHand := some a }) (hkind : kind' a = false) :
      s'.Sound caps kind' { h with held := a :: h.held } := by
    refine ⟨hs'.pages.congr rfl (fun b => ?_) ?_, hs'.lists⟩
    · simp [BfregHolders.refs, hh, count_cons]
      omega
    · intro b hb
      rcases mem_cons.mp hb with rfl | hb
      · exact hkind
      · exact hs'.pages.held b hb
  unfold Mlx5.getUarsPage
  cases hhead : s.regHead with
  | nil =>
    cases hnew : allocUarsPage caps false ans with
    | error err => exact .inl ⟨err, by simp⟩
    | ok new =>
      obtain ⟨a, up⟩ := new
      obtain ⟨s₁, hadd, -, hs₁⟩ := hs.addPage hh hans hnew
      exact .inr ⟨_, s₁, a, by simp [hadd], hkeep hs₁ (Function.update_self _ _ _)⟩
  | cons a rest =>
    have hmem : a ∈ s.head false := by simp [head, hhead]
    obtain ⟨⟨up, hup, -⟩, hkind⟩ := (hs.lists.mem false a).mp hmem
    exact .inr ⟨kind, s.setPage a up.krefGet, a, by simp [deref_eq hup],
      hkeep (hs.getPage hh hup) hkind⟩

theorem Sound.putUarsPage (hs : s.Sound caps kind h) (hh : h.inHand = none) (ha : a ∈ h.held) :
    ∃ s', putUarsPage s a = .ok s' ∧
      s'.Sound caps kind { h with held := h.held.erase a } := by
  have hs₁ : s.Sound caps kind { h with held := h.held.erase a, inHand := some a } := by
    refine ⟨hs.pages.congr rfl (fun b => ?_) fun b hb => hs.pages.held b (mem_of_mem_erase hb),
      hs.lists⟩
    have hpos := count_pos_iff.mpr ha
    simp only [BfregHolders.refs, hh, count_erase]
    by_cases hb : a = b
    · subst hb
      simp
      omega
    · simp [hb]
  obtain ⟨s', hok, hs'⟩ := hs₁.krefPut rfl
  refine ⟨s', hok, ?_⟩
  simpa [BfregHolders.drop, ← hh] using hs'

theorem Sound.addrToDbi (hs : s.Sound caps kind h) {l : LiveBfreg} (hl : l ∈ h.live) :
    ∃ up, s.page l.bfreg.up = some up ∧ addrToDbiInSyspage caps up l.bfreg = l.dbi := by
  obtain ⟨up, hup, -, hmap, hlt⟩ := hs.pages.live l hl
  exact ⟨up, hup, addrToDbiInSyspage_mapOffset caps up l.bfreg
    (hs.pages.sound _ up hup).align hlt hmap⟩

theorem Sound.freeBfreg (hs : s.Sound caps kind h) (hh : h.inHand = none) {l : LiveBfreg}
    (hl : l ∈ h.live) :
    ∃ s', freeBfreg caps s l.bfreg = .ok s' ∧
      s'.Sound caps kind { h with live := h.live.erase l } := by
  obtain ⟨up, hup, hdbi⟩ := hs.addrToDbi hl
  obtain ⟨-, -, hwc, -, hlt⟩ := hs.pages.live l hl
  have hup' := hs.pages.sound _ up hup
  set fp := isFastPath l.dbi with hfp
  set up₁ := up.update fp ((up.bitmap fp).setBit l.dbi) (U32.inc (up.avail fp)) with hup₁
  obtain ⟨hinc, -⟩ := hup'.give hh hl hs.pages.apart rfl hlt hfp.symm
  have hpages : PagesSound caps kind (s.setPage l.bfreg.up up₁).page (h.give l) :=
    hs.pages.give hh hl hup hfp.symm
  have hdrop : (h.give l).drop = { h with live := h.live.erase l } := by
    simp [BfregHolders.give, BfregHolders.drop, ← hh]
  have hother : ∀ fp', fp' ≠ fp → up₁.avail fp' = up.avail fp' := by
    intro fp' hne
    rw [hup₁, UarsPage.avail_update, if_neg hne]
  have hself : up₁.avail fp = up.avail fp + 1 := by
    rw [hup₁, UarsPage.avail_update, if_pos rfl, hinc]
  unfold Mlx5.freeBfreg
  rw [deref_eq hup]
  simp only [hdbi, ← show fp = decide (nonFpBfregsPerUar ≤ l.dbi % bfregsPerUar) from hfp, ← hup₁]
  by_cases hone : U32.inc (up.avail fp) = 1
  · -- the kind was used up and the other one was not: the page returns to its list
    have hclosed : ¬s.Open l.bfreg.up := by
      rw [open_iff_of_page hup]
      intro hall
      exact absurd (hall fp) (by omega)
    have hopen₁ : (s.setPage l.bfreg.up up₁).Open l.bfreg.up := by
      rw [open_setPage_self]
      intro fp'
      by_cases hfp' : fp' = fp
      · rw [hfp', hself]
        exact Nat.succ_pos _
      · rw [hother fp' hfp']
        obtain ⟨fp₀, hpos⟩ := hup'.some_avail
        have hne : fp₀ ≠ fp := by
          rintro rfl
          omega
        rwa [(Bool.eq_not_of_ne hfp').trans (Bool.eq_not_of_ne hne).symm]
    have hadd := listAddTail_eq (s := s.setPage l.bfreg.up up₁) l.bfreg.wc
      (fun hmem => hclosed (hs.lists.mem_heads.mp hmem))
    have hlisted : ((s.setPage l.bfreg.up up₁).setHead l.bfreg.wc
        ((s.setPage l.bfreg.up up₁).head l.bfreg.wc ++ [l.bfreg.up])).Listed kind :=
      hs.lists.insert (fun _ _ => rfl) hclosed
      (fun wc' => by
        rw [head_setHead, hwc]
        split
        · subst wc'
          exact perm_append_singleton _ _
        · exact List.Perm.refl _)
      (fun b => by
        rw [open_congr (show _ = (s.setPage l.bfreg.up up₁).page b by rw [page_setHead])]
        by_cases hb : b = l.bfreg.up
        · simp [hb, hopen₁]
        · simp [hb, open_setPage_of_ne hb])
    obtain ⟨s', hput, hs'⟩ := Sound.krefPut (h := h.give l) ⟨by rw [page_setHead]; exact hpages,
      hlisted⟩ rfl
    exact ⟨s', by rw [if_pos hone, hadd]; exact hput, hdrop ▸ hs'⟩
  · have hlisted : (s.setPage l.bfreg.up up₁).Listed kind :=
      hs.lists.keep (fun _ => rfl) (fun b => by
      by_cases hb : b = l.bfreg.up
      · rw [hb, open_setPage_self, open_iff_of_page hup]
        refine forall_congr' fun fp' => ?_
        by_cases hfp' : fp' = fp
        · rw [hfp', hself]
          omega
        · rw [hother fp' hfp']
      · exact open_setPage_of_ne hb)
    obtain ⟨s', hput, hs'⟩ := Sound.krefPut (h := h.give l) ⟨hpages, hlisted⟩ rfl
    exact ⟨s', by simp [hone, hput], hdrop ▸ hs'⟩

end BfregData

/-! ## Runs -/

/-- The allocator, what its callers hold, and the first fault. -/
structure BfregState where
  data : BfregData
  live : List LiveBfreg
  held : List Nat
  fault : Option UarFault

/-- A call, with what it is given and what the surroundings answer. -/
inductive BfregCall
  | allocBfreg (mapWc fastPath : Bool) (ans ans' : UarAnswers)
  | freeBfreg (l : LiveBfreg)
  | getUarsPage (ans : UarAnswers)
  | putUarsPage (a : Nat)

namespace BfregState

def init : BfregState := ⟨BfregData.init, [], [], none⟩

def step (caps : UarCaps) (s : BfregState) : BfregCall → BfregState
  | .allocBfreg mapWc fastPath ans ans' =>
    match mlx5AllocBfreg caps s.data mapWc fastPath ans ans' with
    | .error f => { s with fault := some f }
    | .ok (data, .error _) => { s with data }
    | .ok (data, .ok (bfreg, dbi)) => { s with data, live := ⟨bfreg, dbi⟩ :: s.live }
  | .freeBfreg l =>
    match Mlx5.freeBfreg caps s.data l.bfreg with
    | .error f => { s with fault := some f }
    | .ok data => { s with data, live := s.live.erase l }
  | .getUarsPage ans =>
    match Mlx5.getUarsPage caps s.data ans with
    | .error f => { s with fault := some f }
    | .ok (data, .error _) => { s with data }
    | .ok (data, .ok a) => { s with data, held := a :: s.held }
  | .putUarsPage a =>
    match Mlx5.putUarsPage s.data a with
    | .error f => { s with fault := some f }
    | .ok data => { s with data, held := s.held.erase a }

/-- The callers give back what they hold. -/
def Valid (s : BfregState) : BfregCall → Prop
  | .allocBfreg _ _ ans ans' => ans.Valid s.data ∧ ans'.Valid s.data
  | .freeBfreg l => l ∈ s.live
  | .getUarsPage ans => ans.Valid s.data
  | .putUarsPage a => a ∈ s.held

instance (s : BfregState) : (call : BfregCall) → Decidable (s.Valid call)
  | .allocBfreg _ _ ans ans' => inferInstanceAs (Decidable (ans.Valid s.data ∧ ans'.Valid s.data))
  | .freeBfreg l => inferInstanceAs (Decidable (l ∈ s.live))
  | .getUarsPage ans => inferInstanceAs (Decidable (ans.Valid s.data))
  | .putUarsPage a => inferInstanceAs (Decidable (a ∈ s.held))

def holders (s : BfregState) : BfregHolders := ⟨s.live, s.held, none⟩

structure Inv (caps : UarCaps) (s : BfregState) : Prop where
  fault : s.fault = none
  sound : ∃ kind, s.data.Sound caps kind s.holders

/-- What callers rely on. -/
structure Consistent (caps : UarCaps) (s : BfregState) : Prop where
  /-- No list operation met a page in the wrong place, and every search found a register. -/
  no_fault : s.fault = none
  /-- No two live registers are one register of one page. -/
  apart : (s.live.map LiveBfreg.place).Nodup
  counters : ∀ a up, s.data.page a = some up →
    up.regAvail = up.regBitmap.weight up.bfregs ∧ up.fpAvail = up.fpBitmap.weight up.bfregs
  listed : ∀ a, a ∈ s.data.regHead ++ s.data.wcHead ↔
    ∃ up, s.data.page a = some up ∧ 0 < up.regAvail ∧ 0 < up.fpAvail
  listed_once : (s.data.regHead ++ s.data.wcHead).Nodup
  /-- A page is on the list that its registers were taken from. -/
  kind : ∀ l ∈ s.live, ∀ wc, l.bfreg.up ∈ s.data.head wc → l.bfreg.wc = wc
  /-- Freeing a register finds the number it was allocated under. -/
  recovered : ∀ l ∈ s.live, ∃ up, s.data.page l.bfreg.up = some up ∧
    addrToDbiInSyspage caps up l.bfreg = l.dbi
  /-- A page stays exactly while it has a register or a user. -/
  present : ∀ a, (s.data.page a).isSome ↔ (∃ l ∈ s.live, l.bfreg.up = a) ∨ a ∈ s.held

variable {caps : UarCaps} {s : BfregState}

theorem Inv.init (caps : UarCaps) : Inv caps init where
  fault := rfl
  sound := by
    refine ⟨fun _ => false, ⟨?_, ?_, ?_, ?_, ?_⟩, ⟨?_, ?_⟩⟩
    · intro a up hup
      cases hup
    · intro a ha
      simp [BfregHolders.refs, holders, BfregState.init] at ha
    · intro l hl
      cases hl
    · exact nodup_nil
    · intro a ha
      cases ha
    · rintro (_ | _) <;> exact nodup_nil
    · rintro (_ | _) a <;>
        simp [BfregData.head, BfregData.init, BfregState.init, BfregData.Open]

/-- Every call keeps the invariant. -/
theorem Inv.step (hs : Inv caps s) {call : BfregCall} (hvalid : s.Valid call) :
    Inv caps (s.step caps call) := by
  obtain ⟨hfault, kind, hsound⟩ := hs
  cases call with
  | allocBfreg mapWc fastPath ans ans' =>
    rcases hsound.mlx5AllocBfreg rfl hvalid.1 hvalid.2 mapWc fastPath with
      ⟨err, herr⟩ | ⟨kind', data, r, hok, hs'⟩
    · simpa only [BfregState.step, herr] using ⟨hfault, kind, hsound⟩
    · simp only [BfregState.step, hok]
      exact ⟨hfault, kind', hs'⟩
  | freeBfreg l =>
    obtain ⟨data, hok, hs'⟩ := hsound.freeBfreg rfl hvalid
    simp only [BfregState.step, hok]
    exact ⟨hfault, kind, hs'⟩
  | getUarsPage ans =>
    rcases hsound.getUarsPage rfl hvalid with ⟨err, herr⟩ | ⟨kind', data, a, hok, hs'⟩
    · simpa only [BfregState.step, herr] using ⟨hfault, kind, hsound⟩
    · simp only [BfregState.step, hok]
      exact ⟨hfault, kind', hs'⟩
  | putUarsPage a =>
    obtain ⟨data, hok, hs'⟩ := hsound.putUarsPage rfl hvalid
    simp only [BfregState.step, hok]
    exact ⟨hfault, kind, hs'⟩

theorem Inv.consistent (hs : Inv caps s) : Consistent caps s := by
  obtain ⟨hfault, kind, hpages, hlists⟩ := hs
  have hboth (up : UarsPage) : (∀ fp, 0 < up.avail fp) ↔ 0 < up.regAvail ∧ 0 < up.fpAvail := by
    simp [UarsPage.avail]
  refine ⟨hfault, hpages.apart, ?_, ?_, ?_, ?_, ?_, ?_⟩
  · intro a up hup
    have hup' := hpages.sound a up hup
    rw [hup'.bfregs]
    exact ⟨hup'.avail false, hup'.avail true⟩
  · intro a
    rw [mem_append, hlists.mem_heads]
    simp only [BfregData.Open, hboth]
  · have hreg := hlists.nodup false
    have hwc := hlists.nodup true
    refine hreg.append hwc ?_
    intro a h₁ h₂
    exact Bool.noConfusion (hlists.unique false true h₁ h₂)
  · intro l hl wc hmem
    obtain ⟨up, -, hkind, -⟩ := hpages.live l hl
    rw [hkind]
    exact ((hlists.mem wc _).mp hmem).2
  · intro l hl
    exact BfregData.Sound.addrToDbi ⟨hpages, hlists⟩ hl
  · intro a
    have hrefs : 0 < s.holders.refs a ↔ (∃ l ∈ s.live, l.bfreg.up = a) ∨ a ∈ s.held := by
      simp [BfregHolders.refs, holders]
    rw [← hrefs]
    constructor
    · intro hsome
      obtain ⟨up, hup⟩ := Option.isSome_iff_exists.mp hsome
      exact (hpages.sound a up hup).referenced
    · exact hpages.present a

end BfregState

/-- Whatever callers do with registers and pages they hold, and whichever allocations fail,
the allocator stays consistent. -/
theorem bfregs_every_run (caps : UarCaps) (calls : List BfregCall)
    (hvalid : Run.Steps (BfregState.step caps) BfregState.Valid .init calls) :
    ∀ s ∈ Run.states (BfregState.step caps) .init calls, s.Consistent caps := by
  intro s hs
  have hinv : BfregState.Inv caps s :=
    hvalid.invariant (fun _ _ hi hv => hi.step hv) (BfregState.Inv.init caps) s hs
  exact hinv.consistent

/-- A device with one UAR in a page and registers of 256 bytes. -/
def oneUarCaps : UarCaps where
  uar4k := false
  numOfUarsPerPage := 0
  logBfRegSize := 8
  uars_pos := nofun
  uars_fit := nofun
  bfregs_fit := by decide

/-- Everything succeeds: a page at `a`. -/
def newPageAnswers (a : Nat) : UarAnswers := ⟨some a, true, true, .ok 7, some 0x4000⟩

/-- Write-combining memory cannot be mapped. -/
def unmappedAnswers (a : Nat) : UarAnswers := ⟨some a, true, true, .ok 7, none⟩

/-- Two fast-path registers use the page up, a third needs a second page, all come back. -/
def bfregCalls : List BfregCall :=
  let fp0 : LiveBfreg := ⟨⟨0x4000 + 0xa00, 16, false, 7⟩, 2⟩
  let fp1 : LiveBfreg := ⟨⟨0x4000 + 0xb00, 16, false, 7⟩, 3⟩
  [.allocBfreg true true (unmappedAnswers 16) (newPageAnswers 16),
    .allocBfreg false true (newPageAnswers 32) (newPageAnswers 32),
    .getUarsPage (newPageAnswers 32), .freeBfreg fp0, .freeBfreg fp1, .putUarsPage 32]

theorem bfregs_every_run_fallback :
    Run.Steps (BfregState.step oneUarCaps) BfregState.Valid .init bfregCalls ∧
    ∀ s ∈ Run.states (BfregState.step oneUarCaps) .init bfregCalls, s.Consistent oneUarCaps :=
  ⟨by decide +kernel, bfregs_every_run oneUarCaps bfregCalls (by decide +kernel)⟩

end Mlx5
