-- SUMMARY: What failed calls of RDMA READ/WRITE contexts give back.
import Mathlib.Data.List.Induction
import Mathlib.Data.List.Perm.Basic
import OfaKernel.IbCore.RdmaRw

/-!
# Giving back

When a call fails, its regions go back to the pools and its mappings are undone; a destroy does
the same for a call that has succeeded. Regions are compared by identity, mappings entry by
entry.
-/

open List

namespace RdmaRw

/-! ## Specification -/

def DmaCall.Maps (list : SgList) (k : Nat) : DmaCall → Bool
  | .map l start nents => l = list ∧ start ≤ k ∧ k < start + nents
  | .unmap _ _ _ => false

def DmaCall.Unmaps (list : SgList) (k : Nat) : DmaCall → Bool
  | .map _ _ _ => false
  | .unmap l start nents => l = list ∧ start ≤ k ∧ k < start + nents

/-- Every entry has been unmapped as often as it has been mapped. -/
def Balanced (calls : List DmaCall) : Prop :=
  ∀ list k, calls.countP (·.Maps list k) = calls.countP (·.Unmaps list k)

def State.ids (s : State) : List Nat := s.rdmaMrs.map Mr.id

def State.sigIds (s : State) : List Nat := s.sigMrs.map Mr.id

/-- From `s` to `s'` all memory regions are put back, and all mappings undone. -/
structure GivenBack (s s' : State) : Prop where
  rdmaMrs : s'.ids.Perm s.ids
  sigMrs : s'.sigIds.Perm s.sigIds
  mrsUsed : s'.mrsUsed = s.mrsUsed
  unmapped : ∃ calls, s'.dma = s.dma ++ calls ∧ Balanced calls

/-- A scatterlist has the entries that a call names, and `ib_dma_map_sg` makes no more of them. -/
structure Table.Valid (t : Table) : Prop where
  mapped_le : t.mapped ≤ t.nents
  nents_le : t.nents ≤ t.entries.length

/-- The offset falls into the first entry, and no entries were merged. -/
def Table.Whole (t : Table) (offset : Nat) : Prop :=
  t.mapped = t.nents ∧ ∀ sg ∈ t.entries.head?, offset < sg.len

instance (t : Table) (offset : Nat) : Decidable (t.Whole offset) :=
    inferInstanceAs (Decidable (_ ∧ _))

/-! ## Pools -/

/-- The regions `ids` have been taken from the front of the pool, and nothing else has happened. -/
structure Took (s s' : State) (taken : List Nat) : Prop where
  ids : s.ids = taken ++ s'.ids
  sigMrs : s'.sigMrs = s.sigMrs
  mrsUsed : s'.mrsUsed = s.mrsUsed + taken.length
  dma : s'.dma = s.dma

theorem Took.refl (s : State) : Took s s [] := ⟨rfl, rfl, (Int.add_zero _).symm, rfl⟩

theorem Took.trans {s s' s'' : State} {ids ids' : List Nat} (h : Took s s' ids)
    (h' : Took s' s'' ids') :
    Took s s'' (ids ++ ids') where
  ids := by rw [h.ids, h'.ids, append_assoc]
  sigMrs := h'.sigMrs.trans h.sigMrs
  mrsUsed := by
    rw [h'.mrsUsed, h.mrsUsed, length_append]
    omega
  dma := h'.dma.trans h.dma

section

variable {env : Env} {qp : Qp} {s s' : State}

@[simp] theorem State.ids_putMr (s : State) (mr : Mr) :
    (s.putMr (some mr)).ids = mr.id :: s.ids := rfl

@[simp] theorem State.log_ids (s : State) (call : DmaCall) : (s.log call).ids = s.ids := rfl

variable {sg : List Sg} {sgCnt offset : Nat} {ret : Int}

/-- `rdma_rw_init_one_mr` fails with its region put back, or keeps one. -/
theorem initOneMr_cases {slot : Slot} {reg reg' : RegCtx}
    (h : initOneMr env qp slot reg sg sgCnt offset s = (ret, reg', s')) :
    (ret < 0 ∧ Took s s' []) ∨ (0 < ret ∧ ∃ mr, reg'.mr = some mr ∧ Took s s' [mr.id]) := by
  unfold initOneMr State.getMr at h
  cases hpool : s.rdmaMrs with
  | nil =>
    rw [hpool] at h
    obtain ⟨rfl, -, rfl⟩ := h
    exact .inl ⟨by decide, .refl s⟩
  | cons mr mrs =>
    rw [hpool] at h
    dsimp only at h
    have hids : s.ids = mr.id :: mrs.map Mr.id := by
      unfold State.ids
      rw [hpool, map_cons]
    split at h
    · obtain ⟨rfl, -, rfl⟩ := h
      refine .inl ⟨by decide, hids, rfl, ?_, rfl⟩
      exact (Int.add_sub_cancel _ _).trans (Int.add_zero _).symm
    · obtain ⟨rfl, rfl, rfl⟩ := h
      refine .inr ⟨?_, _, rfl, hids, rfl, rfl, rfl⟩
      split <;> omega

/-- The registrations below `n` hold the regions `ids`. -/
def Holds (reg : Nat → RegCtx) (ids : List Nat) : Prop :=
  ∀ k, k < ids.length → (reg k).mr.map Mr.id = ids[k]?

variable {ids : List Nat}

theorem Holds.congr {reg reg' : Nat → RegCtx} (h : Holds reg ids)
    (heq : ∀ k, (reg' k).mr.map Mr.id = (reg k).mr.map Mr.id) : Holds reg' ids :=
  fun k hk => (heq k).trans (h k hk)

theorem Holds.snoc {reg reg' : Nat → RegCtx} {mr : Mr} (h : Holds reg ids)
    (hlow : ∀ k < ids.length, (reg' k).mr = (reg k).mr) (hnew : (reg' ids.length).mr = some mr) :
    Holds reg' (ids ++ [mr.id]) := by
  intro k hk
  rw [length_append, length_singleton] at hk
  by_cases hlt : k < ids.length
  · rw [hlow k hlt, List.getElem?_append_left hlt]
    exact h k hlt
  · obtain rfl : k = ids.length := by omega
    rw [hnew, List.getElem?_append_right (Nat.le_refl _), Nat.sub_self]
    rfl

@[simp] theorem linkPrev_mr (i : Nat) (reg : RegCtx) (regs : Nat → RegCtx) (j : Nat) :
    (linkPrev i reg regs j).mr = (regs j).mr := by
  unfold linkPrev
  split <;> rfl

/-- The regions that the loop over the operations has taken: those of the operations before the one
that failed, or those of all `n`. -/
def LoopTook (s : State) (n : Nat) : Except (Nat × Int × (Nat → RegCtx) × State) MrLoop → Prop
  | .error (j, ret, reg, s') => ret < 0 ∧ ∃ ids, ids.length = j ∧ Took s s' ids ∧ Holds reg ids
  | .ok l => 0 ≤ l.count ∧ ∃ ids, ids.length = n ∧ Took s l.s ids ∧ Holds l.reg ids

variable {dir : Dir}

theorem mrLoop_took {rkey n i : Nat} {l : MrLoop} {s₀ : State}
    {r : Except (Nat × Int × (Nat → RegCtx) × State) MrLoop}
    (h : mrLoop env qp dir rkey n i l = some r) (hi : ids.length = i) (htook : Took s₀ l.s ids)
    (hholds : Holds l.reg ids) (hcount : 0 ≤ l.count) : LoopTook s₀ (i + n) r := by
  induction n generalizing i l ids with
  | zero =>
    obtain rfl := Option.some.inj h
    exact ⟨hcount, ids, hi, htook, hholds⟩
  | succ n ih =>
    unfold mrLoop at h
    dsimp only at h
    generalize hone : initOneMr env qp (.op i) (l.reg i) l.sg l.sgCnt l.offset l.s = one at h
    obtain ⟨ret, reg, s⟩ := one
    rcases initOneMr_cases hone with ⟨hneg, hnone⟩ | ⟨hpos, mr, hmr, hone⟩
    · rw [if_pos hneg] at h
      obtain rfl := Option.some.inj h
      refine ⟨hneg, ids, hi, append_nil ids ▸ htook.trans hnone, fun k hk => ?_⟩
      rw [Function.update_of_ne (by omega)]
      exact hholds k hk
    · rw [if_neg (by omega)] at h
      split at h
      · have hrest := ih h
          (by rw [length_append, length_singleton, hi]) (htook.trans hone)
          (hholds.snoc
            (fun k hk => by
              dsimp only
              rw [Function.update_of_ne (by omega), linkPrev_mr])
            (by
              dsimp only
              rw [hi, Function.update_self]
              exact hmr))
          (show 0 ≤ l.count + ret + 1 by omega)
        rwa [show i + 1 + n = i + (n + 1) by omega] at hrest
      · cases h

variable {reg : Nat → RegCtx}

/-- Unwinding puts the regions back in their places. -/
theorem putMrs_took {s₀ s : State} (htook : Took s₀ s ids) (hholds : Holds reg ids) :
    Took s₀ (putMrs reg ids.length s) [] := by
  induction ids using List.reverseRecOn generalizing s with
  | nil => exact htook
  | append_singleton ids id ih =>
    have hlast := hholds ids.length (by rw [length_append, length_singleton]; omega)
    rw [List.getElem?_append_right (Nat.le_refl _), Nat.sub_self, List.getElem?_cons_zero] at hlast
    obtain ⟨mr, hmr, rfl⟩ := Option.map_eq_some_iff.mp hlast
    rw [length_append, length_singleton, putMrs, hmr]
    refine ih ⟨?_, htook.sigMrs, ?_, htook.dma⟩ fun k hk => ?_
    · rw [htook.ids, append_assoc]
      rfl
    · have := htook.mrsUsed
      rw [length_append, length_singleton] at this
      change s.mrsUsed - 1 = _
      omega
    · rw [hholds k (by rw [length_append]; omega), List.getElem?_append_left hk]

/-- Destroying puts the regions back. -/
theorem foldl_put {s : State} (hholds : Holds reg ids) {n : Nat} (hn : n ≤ ids.length) :
    let s' := (List.range n).foldl (fun (s : State) i => s.putMr (reg i).mr) s
    s'.ids = (ids.take n).reverse ++ s.ids ∧ s'.sigMrs = s.sigMrs ∧ s'.mrsUsed = s.mrsUsed - n ∧
      s'.dma = s.dma := by
  induction n with
  | zero => exact ⟨rfl, rfl, (Int.sub_zero _).symm, rfl⟩
  | succ n ih =>
    obtain ⟨hids, hsig, hused, hdma⟩ := ih (by omega)
    have hlast := hholds n hn
    rw [List.getElem?_eq_getElem hn] at hlast
    obtain ⟨mr, hmr, hid⟩ := Option.map_eq_some_iff.mp hlast
    rw [range_succ, foldl_append]
    dsimp only [foldl_cons, foldl_nil]
    rw [hmr]
    refine ⟨?_, hsig, ?_, hdma⟩
    · rw [State.ids_putMr, hids, take_succ_eq_append_getElem hn, reverse_append, hid]
      rfl
    · change _ - 1 = _
      omega

/-! ## Contexts -/

/-- The context holds the regions `ids`. -/
def Ctx.Owns (ctx : Ctx) (ids : List Nat) : Prop :=
  match ctx.type with
  | .mr => ids.length = ctx.nrOps ∧ Holds ctx.reg ids
  | .sigMr => False
  | _ => ids = []

variable {ctx ctx' : Ctx} {remoteAddr rkey : Nat}

theorem initMrWrs_took
    (h : initMrWrs env qp ctx sg sgCnt offset remoteAddr rkey dir s = some (ret, ctx', s')) :
    (ret < 0 ∧ Took s s' []) ∨ (0 ≤ ret ∧ ∃ ids, ctx'.Owns ids ∧ Took s s' ids) := by
  unfold initMrWrs at h
  dsimp only at h
  split at h
  · cases h
  split at h
  · obtain ⟨rfl, -, rfl⟩ := by simpa using h
    exact .inl ⟨by decide, .refl s⟩
  obtain ⟨r, hloop, hr⟩ := Option.map_eq_some_iff.mp h
  have htook := mrLoop_took hloop rfl (.refl s) (fun k hk => absurd hk (Nat.not_lt_zero k))
    (Int.le_refl 0)
  rw [Nat.zero_add] at htook
  cases r with
  | error e =>
    obtain ⟨j, err, reg, s₁⟩ := e
    obtain ⟨rfl, -, rfl⟩ := by simpa using hr
    obtain ⟨hneg, ids, rfl, htook, hholds⟩ := htook
    exact .inl ⟨hneg, putMrs_took htook hholds⟩
  | ok l =>
    obtain ⟨rfl, rfl, rfl⟩ := by simpa using hr
    obtain ⟨hcount, ids, hlen, htook, hholds⟩ := htook
    refine .inr ⟨hcount, ids, ⟨hlen, hholds.congr fun k => ?_⟩, htook⟩
    dsimp only
    split <;> rfl

theorem initWrs_took
    (h : initWrs env qp ctx sg sgCnt offset remoteAddr rkey dir s = some (ret, ctx', s')) :
    (ret < 0 ∧ Took s s' []) ∨ (0 ≤ ret ∧ ∃ ids, ctx'.Owns ids ∧ Took s s' ids) := by
  unfold initWrs at h
  split at h
  · obtain ⟨rfl, -, rfl⟩ := by simpa using h
    exact .inl ⟨by decide, .refl s⟩
  split at h
  · exact initMrWrs_took h
  split at h
  · obtain ⟨⟨ret₁, ctx₁⟩, hmap, hr⟩ := Option.map_eq_some_iff.mp h
    obtain ⟨rfl, rfl, rfl⟩ := by simpa using hr
    unfold initMapWrs at hmap
    dsimp only at hmap
    split at hmap
    · cases hmap
    split at hmap
    · obtain ⟨rfl, -⟩ := by simpa using hmap
      exact .inl ⟨by decide, .refl s⟩
    · obtain ⟨r, -, hr⟩ := Option.map_eq_some_iff.mp hmap
      obtain ⟨rfl, rfl⟩ := by simpa using hr
      exact .inr ⟨Int.natCast_nonneg _, [], rfl, .refl s⟩
  · obtain ⟨e, -, hr⟩ := Option.map_eq_some_iff.mp h
    obtain ⟨rfl, rfl, rfl⟩ := by simpa [initSingleWr] using hr
    exact .inr ⟨by decide, [], rfl, .refl s⟩

theorem updateLkey_id (reg : RegCtx) (needInval : Bool) :
    (reg.updateLkey needInval).mr.map Mr.id = reg.mr.map Mr.id := by
  unfold RegCtx.updateLkey
  cases hmr : reg.mr with
  | none => simp only [hmr]
  | some mr => rfl

/-- Posting a context changes keys, not regions. -/
theorem ctxWrs_owns (h : ctx.Owns ids) (cqe : Option Nat) (chainWr : Bool) :
    (ctxWrs ctx cqe chainWr).2.Owns ids := by
  unfold Ctx.Owns at h
  unfold ctxWrs
  cases htype : ctx.type with
  | mr =>
    rw [htype] at h
    obtain ⟨hlen, hholds⟩ := h
    unfold Ctx.Owns
    dsimp only
    refine ⟨hlen, hholds.congr fun k => ?_⟩
    split <;> split <;> first | exact updateLkey_id _ _ | rfl
  | sigMr =>
    rw [htype] at h
    exact h.elim
  | multiWr =>
    rw [htype] at h
    exact h
  | singleWr =>
    rw [htype] at h
    exact h

theorem ctxDestroy_givesBack {nents : Nat} (h : ctx.Owns ids)
    (htook : Took (s.log (.map .data 0 nents)) s' ids) : GivenBack s (ctxDestroy ctx nents s') := by
  have hbalanced : Balanced [DmaCall.map .data 0 nents, .unmap .data 0 nents] := by
    intro list k
    rw [countP_cons, countP_cons, countP_cons, countP_cons]
    simp [DmaCall.Maps, DmaCall.Unmaps]
  have hdma : s'.dma = s.dma ++ [.map .data 0 nents] := htook.dma
  have hids : s.ids = ids ++ s'.ids := htook.ids
  have hused : s'.mrsUsed = s.mrsUsed + ids.length := htook.mrsUsed
  have hsig : s'.sigMrs = s.sigMrs := htook.sigMrs
  have hcalls {s'' : State} (hd : s''.dma = s'.dma) :
      (s''.log (.unmap .data 0 nents)).dma =
        s.dma ++ [.map .data 0 nents, .unmap .data 0 nents] := by
    change s''.dma ++ _ = _
    rw [hd, hdma, append_assoc]
    rfl
  unfold Ctx.Owns at h
  unfold ctxDestroy
  have hempty (hnil : ids = []) : GivenBack s (s'.log (.unmap .data 0 nents)) := by
    subst hnil
    refine ⟨?_, ?_, ?_, _, hcalls rfl, hbalanced⟩
    · rw [State.log_ids, hids]
      exact List.Perm.refl _
    · change (s'.sigMrs.map Mr.id).Perm _
      rw [hsig]
      exact List.Perm.refl _
    · exact hused.trans (Int.add_zero _)
  cases htype : ctx.type with
  | mr =>
    rw [htype] at h
    obtain ⟨hlen, hholds⟩ := h
    obtain ⟨hids', hsig', hused', hdma'⟩ := foldl_put (s := s') hholds hlen.ge
    generalize (List.range ctx.nrOps).foldl
      (fun (s : State) i => s.putMr (ctx.reg i).mr) s' = s₁ at *
    refine ⟨?_, ?_, ?_, _, hcalls hdma', hbalanced⟩
    · rw [State.log_ids, hids', take_of_length_le hlen.le, hids]
      exact (reverse_perm ids).append_right _
    · change (s₁.sigMrs.map Mr.id).Perm _
      rw [hsig', hsig]
      exact List.Perm.refl _
    · change s₁.mrsUsed = _
      omega
  | sigMr =>
    rw [htype] at h
    exact h.elim
  | multiWr =>
    rw [htype] at h
    exact hempty h
  | singleWr =>
    rw [htype] at h
    exact hempty h

/-- A skip leaves the first entry behind. -/
theorem skipEntries_skipped {entries sg : List Sg} {sgCnt sgCnt' offset offset' k k' : Nat}
    (h : skipEntries entries sgCnt offset k = some (sg, sgCnt', offset', k')) :
    k ≤ k' ∧ ((∀ e ∈ entries.head?, offset < e.len) → k' = k ∧ sgCnt' = sgCnt) ∧
      (k' = k → ∀ e ∈ entries.head?, offset < e.len) := by
  induction entries generalizing sgCnt offset k with
  | nil => cases h
  | cons e rest ih =>
    unfold skipEntries at h
    split at h
    next hlt =>
      obtain ⟨-, rfl, -, rfl⟩ := by simpa using h
      exact ⟨Nat.le_refl _, fun _ => ⟨rfl, rfl⟩, fun _ e' he' => Option.some.inj he' ▸ hlt⟩
    next hge =>
      obtain ⟨hle, -, -⟩ := ih h
      exact ⟨by omega, fun hfirst => absurd (hfirst e rfl) hge, fun heq => by omega⟩

theorem GivenBack.refl (s : State) : GivenBack s s :=
  ⟨.refl _, .refl _, rfl, [], (append_nil _).symm, fun _ _ => rfl⟩

/-- What a list has mapped and unmapped, each in one call. -/
theorem balanced_data {n start m : Nat} (hn : 0 < n) :
    Balanced [.map .data 0 n, .unmap .data start m] ↔ start = 0 ∧ m = n := by
  have hcount (k : Nat) : List.countP (·.Maps .data k)
    [DmaCall.map .data 0 n, .unmap .data start m] =
      List.countP (·.Unmaps .data k) [DmaCall.map .data 0 n, .unmap .data start m] ↔
      (k < n ↔ start ≤ k ∧ k < start + m) := by
    simp only [countP_cons, countP_nil, DmaCall.Maps, DmaCall.Unmaps, decide_eq_true_eq]
    by_cases h1 : k < n <;> by_cases h2 : start ≤ k ∧ k < start + m <;> simp [h1, h2]
  constructor
  · intro h
    have hfirst := (hcount 0).mp (h .data 0)
    have hlast := (hcount (n - 1)).mp (h .data (n - 1))
    have hnext := (hcount n).mp (h .data n)
    omega
  · rintro ⟨rfl, rfl⟩ list k
    cases list with
    | data => exact (hcount k).mpr (by omega)
    | prot => rfl

theorem balanced_both {n m p q : Nat} (hn : 0 < n) (hp : 0 < p) :
    Balanced [.map .data 0 n, .map .prot 0 p, .unmap .prot 0 q, .unmap .data 0 m] ↔
      m = n ∧ q = p := by
  have hdata (k : Nat) : List.countP (·.Maps .data k)
        [DmaCall.map .data 0 n, .map .prot 0 p, .unmap .prot 0 q, .unmap .data 0 m] =
      List.countP (·.Unmaps .data k)
        [DmaCall.map .data 0 n, .map .prot 0 p, .unmap .prot 0 q, .unmap .data 0 m] ↔
          (k < n ↔ k < m) := by
    simp only [countP_cons, countP_nil, DmaCall.Maps, DmaCall.Unmaps, decide_eq_true_eq]
    by_cases h1 : k < n <;> by_cases h2 : k < m <;> simp [h1, h2]
  have hprot (k : Nat) : List.countP (·.Maps .prot k)
        [DmaCall.map .data 0 n, .map .prot 0 p, .unmap .prot 0 q, .unmap .data 0 m] =
      List.countP (·.Unmaps .prot k)
        [DmaCall.map .data 0 n, .map .prot 0 p, .unmap .prot 0 q, .unmap .data 0 m] ↔
          (k < p ↔ k < q) := by
    simp only [countP_cons, countP_nil, DmaCall.Maps, DmaCall.Unmaps, decide_eq_true_eq]
    by_cases h1 : k < p <;> by_cases h2 : k < q <;> simp [h1, h2]
  constructor
  · intro h
    have h1 := (hdata (n - 1)).mp (h .data (n - 1))
    have h2 := (hdata n).mp (h .data n)
    have h3 := (hprot (p - 1)).mp (h .prot (p - 1))
    have h4 := (hprot p).mp (h .prot p)
    omega
  · rintro ⟨rfl, rfl⟩ list k
    cases list with
    | data => exact (hdata k).mpr Iff.rfl
    | prot => exact (hprot k).mpr Iff.rfl

/-- With the regions put back, a failed call gives back all if its mappings are undone. -/
theorem givenBack_iff_balanced {calls : List DmaCall} (hids : s'.ids = s.ids)
    (hsig : s'.sigMrs = s.sigMrs)
    (hused : s'.mrsUsed = s.mrsUsed) (hdma : s'.dma = s.dma ++ calls) : GivenBack s s' ↔
    Balanced calls := by
  constructor
  · rintro ⟨-, -, -, calls', hcalls, hbalanced⟩
    rwa [append_cancel_left (hdma.symm.trans hcalls)]
  · intro h
    refine ⟨hids ▸ .refl _, ?_, hused, calls, hdma, h⟩
    unfold State.sigIds
    rw [hsig]

variable {t : Table}

/-- A failed `rdma_rw_ctx_init` unmaps from the entry of the offset on, as many entries as are left.
-/
theorem ctxInit_failed_iff (ht : t.Valid)
    (h : ctxInit env qp ctx t offset remoteAddr rkey dir s = some (ret, ctx', s'))
    (hneg : ret < 0) : GivenBack s s' ↔ t.mapped = 0 ∨ t.Whole offset := by
  unfold ctxInit at h
  by_cases hmapped : t.mapped = 0
  · rw [if_pos hmapped] at h
    obtain ⟨-, -, rfl⟩ := by simpa using h
    exact iff_of_true (.refl s) (.inl hmapped)
  · rw [if_neg hmapped] at h
    obtain ⟨⟨sg, sgCnt, off, skipped⟩, hskip, h⟩ := Option.bind_eq_some_iff.mp h
    obtain ⟨⟨ret₁, ctx₁, s₁⟩, hinit, hr⟩ := Option.map_eq_some_iff.mp h
    have hret : ret₁ < 0 := by
      dsimp only at hr
      split at hr
      next hlt => exact hlt
      next hge =>
        obtain ⟨rfl, -, -⟩ := by simpa using hr
        exact absurd hneg hge
    dsimp only at hr
    rw [if_pos hret] at hr
    obtain ⟨-, -, rfl⟩ := by simpa using hr
    have htook : Took (s.log (.map .data 0 t.nents)) s₁ [] := by
      rcases initWrs_took hinit with ⟨-, htook⟩ | ⟨hpos, -⟩
      · exact htook
      · exact absurd hret (by omega)
    have hle := ht.mapped_le
    obtain ⟨-, hfirst, hzero⟩ := skipEntries_skipped hskip
    rw [@givenBack_iff_balanced s (s₁.log (.unmap .data skipped sgCnt))
      [.map .data 0 t.nents, .unmap .data skipped sgCnt]
      htook.ids.symm htook.sigMrs (htook.mrsUsed.trans (Int.add_zero _))
      (by
        change s₁.dma ++ _ = _
        rw [htook.dma]
        exact append_assoc _ _ _),
      balanced_data (by omega), or_iff_right hmapped]
    constructor
    · rintro ⟨rfl, rfl⟩
      have hlow := hzero rfl
      exact ⟨(hfirst hlow).2.symm, hlow⟩
    · rintro ⟨hwhole, hlow⟩
      obtain ⟨rfl, rfl⟩ := hfirst hlow
      exact ⟨rfl, hwhole⟩

theorem ctxInit_succeeded
    (h : ctxInit env qp ctx t offset remoteAddr rkey dir s = some (ret, ctx', s'))
    (hpos : 0 ≤ ret) :
    ∃ ids, ctx'.Owns ids ∧ Took (s.log (.map .data 0 t.nents)) s' ids := by
  unfold ctxInit at h
  by_cases hmapped : t.mapped = 0
  · rw [if_pos hmapped] at h
    obtain ⟨rfl, -, -⟩ := by simpa using h
    exact absurd hpos (by decide)
  · rw [if_neg hmapped] at h
    obtain ⟨⟨sg, sgCnt, off, skipped⟩, -, h⟩ := Option.bind_eq_some_iff.mp h
    obtain ⟨⟨ret₁, ctx₁, s₁⟩, hinit, hr⟩ := Option.map_eq_some_iff.mp h
    dsimp only at hr
    split at hr
    next hlt =>
      obtain ⟨rfl, -, -⟩ := by simpa using hr
      omega
    next hge =>
      obtain ⟨rfl, rfl, rfl⟩ := by simpa using hr
      rcases initWrs_took hinit with ⟨hneg, -⟩ | ⟨-, hids⟩
      · exact absurd hneg hge
      · exact hids

/-! ## Signature contexts -/

/-- The lists of a signature call that has failed were unmapped whole. -/
def SignatureWhole (qp : Qp) (t prot : Table) : Prop :=
  (t.nents > qp.frPageListLen ∨ prot.nents > qp.frPageListLen) ∨ t.mapped = 0 ∨
    (t.mapped = t.nents ∧ (prot.mapped = 0 ∨ prot.mapped = prot.nents))

instance (qp : Qp) (t prot : Table) : Decidable (SignatureWhole qp t prot) :=
  inferInstanceAs (Decidable (_ ∨ _))

/-- How `rdma_rw_ctx_signature_init` ends: with the regions put back, or with its three regions in
the context. -/
theorem ctxSignatureInit_cases {t prot : Table} {sigTypeNone : Bool}
    (h : ctxSignatureInit env qp ctx t prot sigTypeNone remoteAddr rkey dir s = (ret, ctx', s'))
    (hlarge : ¬ (t.nents > qp.frPageListLen ∨ prot.nents > qp.frPageListLen))
    (hmapped : t.mapped ≠ 0) (hprot : prot.mapped ≠ 0) :
    let s₁ := (s.log (.map .data 0 t.nents)).log (.map .prot 0 prot.nents)
    (ret < 0 ∧ ∃ s₂, Took s₁ s₂ [] ∧
        s' = (s₂.log (.unmap .prot 0 prot.mapped)).log (.unmap .data 0 t.mapped)) ∨
      (0 ≤ ret ∧ ctx'.type = .sigMr ∧ ∃ data prot sig s₂, ctx'.data.mr = some data ∧
        ctx'.prot.mr = some prot ∧
        ctx'.sigMr = some sig ∧ Took s₁ s₂ [data.id, prot.id] ∧ s₂.sigMrs = sig :: s'.sigMrs ∧
        s'.rdmaMrs = s₂.rdmaMrs ∧ s'.mrsUsed = s₂.mrsUsed + 1 ∧ s'.dma = s₂.dma) := by
  intro s₁
  unfold ctxSignatureInit at h
  dsimp only at h
  rw [if_neg hlarge, if_neg hmapped, if_neg hprot] at h
  split at h
  · obtain ⟨rfl, -, rfl⟩ := by simpa using h
    exact .inl ⟨by decide, s₁, .refl s₁, rfl⟩
  generalize hdata : initOneMr env qp .data {} t.entries t.mapped 0 s₁ = one at h
  obtain ⟨ret₁, data, s₂⟩ := one
  rcases initOneMr_cases hdata with ⟨hneg, htook⟩ | ⟨hpos, dataMr, hdataMr, htook⟩
  · rw [if_pos hneg] at h
    obtain ⟨rfl, -, rfl⟩ := by simpa using h
    exact .inl ⟨hneg, s₂, htook, rfl⟩
  rw [if_neg (by omega)] at h
  generalize hprotOne : initOneMr env qp .prot {} prot.entries prot.mapped 0 s₂ = one at h
  obtain ⟨ret₂, protReg, s₃⟩ := one
  rcases initOneMr_cases hprotOne with ⟨hneg, htook'⟩ | ⟨hpos', protMr, hprotMr, htook'⟩
  · rw [if_pos hneg, hdataMr] at h
    obtain ⟨rfl, -, rfl⟩ := by simpa using h
    have hboth := htook.trans htook'
    refine .inl ⟨hneg, s₃.putMr (some dataMr), ⟨?_, hboth.sigMrs, ?_, hboth.dma⟩, rfl⟩
    · exact hboth.ids
    · change s₃.mrsUsed - 1 = _
      rw [hboth.mrsUsed]
      exact (Int.add_sub_cancel _ _).trans (Int.add_zero _).symm
  rw [if_neg (by omega)] at h
  have hboth : Took s₁ s₃ [dataMr.id, protMr.id] := htook.trans htook'
  unfold State.getSigMr at h
  cases hsig : s₃.sigMrs with
  | nil =>
    rw [hsig] at h
    rw [hdataMr, hprotMr] at h
    obtain ⟨rfl, -, rfl⟩ := by simpa using h
    refine .inl ⟨by decide, (s₃.putMr (some protMr)).putMr (some dataMr),
      ⟨hboth.ids, hboth.sigMrs, ?_, hboth.dma⟩, rfl⟩
    change s₃.mrsUsed - 1 - 1 = _
    rw [hboth.mrsUsed]
    simp only [length_cons, length_nil]
    omega
  | cons sig sigs =>
    rw [hsig] at h
    obtain ⟨rfl, rfl, rfl⟩ := by simpa using h
    refine .inr ⟨?_, rfl, dataMr, protMr, sig, s₃, hdataMr, hprotMr, rfl, hboth, hsig,
      rfl, rfl, rfl⟩
    unfold sigWrs
    dsimp only
    omega

theorem ctxSignatureInit_failed_iff {t prot : Table} {sigTypeNone : Bool} (ht : t.Valid)
    (hp : prot.Valid)
    (h : ctxSignatureInit env qp ctx t prot sigTypeNone remoteAddr rkey dir s = (ret, ctx', s'))
    (hneg : ret < 0) :
    GivenBack s s' ↔ SignatureWhole qp t prot := by
  have hle := ht.mapped_le
  have hple := hp.mapped_le
  unfold SignatureWhole
  by_cases hlarge : t.nents > qp.frPageListLen ∨ prot.nents > qp.frPageListLen
  · unfold ctxSignatureInit at h
    rw [if_pos hlarge] at h
    obtain ⟨-, -, rfl⟩ := by simpa using h
    exact iff_of_true (.refl s) (.inl hlarge)
  rw [or_iff_right hlarge]
  by_cases hmapped : t.mapped = 0
  · unfold ctxSignatureInit at h
    rw [if_neg hlarge, if_pos hmapped] at h
    obtain ⟨-, -, rfl⟩ := by simpa using h
    exact iff_of_true (.refl s) (.inl hmapped)
  rw [or_iff_right hmapped]
  by_cases hprot : prot.mapped = 0
  · unfold ctxSignatureInit at h
    rw [if_neg hlarge, if_neg hmapped, if_pos hprot] at h
    obtain ⟨-, -, rfl⟩ := by simpa using h
    rw [@givenBack_iff_balanced s ((s.log (.map .data 0 t.nents)).log (.unmap .data 0 t.mapped))
      [.map .data 0 t.nents, .unmap .data 0 t.mapped] rfl rfl rfl (append_assoc _ _ _),
      balanced_data (by omega)]
    exact ⟨fun h => ⟨h.2, .inl hprot⟩, fun h => ⟨rfl, h.1⟩⟩
  · rcases ctxSignatureInit_cases h hlarge hmapped hprot with ⟨-, s₂, htook, rfl⟩ | ⟨hpos, -⟩
    · rw [@givenBack_iff_balanced s
        ((s₂.log (.unmap .prot 0 prot.mapped)).log (.unmap .data 0 t.mapped))
        [.map .data 0 t.nents, .map .prot 0 prot.nents, .unmap .prot 0 prot.mapped,
          .unmap .data 0 t.mapped]
        htook.ids.symm htook.sigMrs (htook.mrsUsed.trans (Int.add_zero _))
        (by
          change s₂.dma ++ _ ++ _ = _
          rw [htook.dma]
          change s.dma ++ _ ++ _ ++ _ ++ _ = _
          rw [append_assoc, append_assoc, append_assoc]
          rfl),
        balanced_both (by omega) (by omega)]
      exact and_congr_right fun _ => (or_iff_right hprot).symm
    · omega

/-- The three regions of a signature context. -/
def Ctx.OwnsSig (ctx : Ctx) (data prot sig : Nat) : Prop :=
  ctx.type = .sigMr ∧ ctx.data.mr.map Mr.id = some data ∧ ctx.prot.mr.map Mr.id = some prot ∧
    ctx.sigMr.map Mr.id = some sig

theorem ctxWrs_ownsSig {data prot sig : Nat} (h : ctx.OwnsSig data prot sig) (cqe : Option Nat)
    (chainWr : Bool) : (ctxWrs ctx cqe chainWr).2.OwnsSig data prot sig := by
  obtain ⟨htype, hdata, hprot, hsig⟩ := h
  have hwrs : (ctxWrs ctx cqe chainWr).2.type = .sigMr ∧
      (ctxWrs ctx cqe chainWr).2.data.mr = (ctx.data.updateLkey true).mr ∧
      (ctxWrs ctx cqe chainWr).2.prot.mr = (ctx.prot.updateLkey true).mr ∧
      (ctxWrs ctx cqe chainWr).2.sigMr.map Mr.id = ctx.sigMr.map Mr.id := by
    unfold ctxWrs
    split
    · exact ⟨htype, rfl, rfl, Option.map_map _ _ _⟩
    all_goals simp_all only [reduceCtorEq]
  obtain ⟨htype', hdata', hprot', hsig'⟩ := hwrs
  refine ⟨htype', ?_, ?_, hsig'.trans hsig⟩
  · rw [hdata']
    exact (updateLkey_id _ _).trans hdata
  · rw [hprot']
    exact (updateLkey_id _ _).trans hprot

theorem ctxDestroySignature_givesBack {s₂ : State} {data prot sig : Nat} {sigMr : Mr}
    {nents protNents : Nat} (h : ctx.OwnsSig data prot sig)
    (htook : Took ((s.log (.map .data 0 nents)).log (.map .prot 0 protNents)) s₂ [data, prot])
    (hsig : s₂.sigMrs = sigMr :: s'.sigMrs) (hid : sigMr.id = sig) (hmrs : s'.rdmaMrs = s₂.rdmaMrs)
    (hused : s'.mrsUsed = s₂.mrsUsed + 1) (hdma : s'.dma = s₂.dma) :
    GivenBack s (ctxDestroySignature ctx nents protNents s') := by
  obtain ⟨htype, hdata, hprot, hctx⟩ := h
  obtain ⟨dataMr, hdataMr, rfl⟩ := Option.map_eq_some_iff.mp hdata
  obtain ⟨protMr, hprotMr, rfl⟩ := Option.map_eq_some_iff.mp hprot
  obtain ⟨ctxMr, hctxMr, rfl⟩ := Option.map_eq_some_iff.mp hctx
  have hbalanced : Balanced [DmaCall.map .data 0 nents, .map .prot 0 protNents,
    .unmap .data 0 nents,
      .unmap .prot 0 protNents] := by
    intro list k
    simp [countP_cons, DmaCall.Maps, DmaCall.Unmaps]
  unfold ctxDestroySignature
  rw [if_neg (not_not.mpr htype), hdataMr, hprotMr, hctxMr]
  refine ⟨?_, ?_, ?_, _, ?_, hbalanced⟩
  · change List.Perm (protMr.id :: dataMr.id :: s'.rdmaMrs.map Mr.id) s.ids
    have hids : s.ids = [dataMr.id, protMr.id] ++ s₂.ids := htook.ids
    rw [hids, hmrs]
    exact List.Perm.swap _ _ _
  · change List.Perm (ctxMr.id :: s'.sigMrs.map Mr.id) s.sigIds
    have hold : s₂.sigMrs = s.sigMrs := htook.sigMrs
    unfold State.sigIds
    rw [← hold, hsig, map_cons, hid]
  · change s'.mrsUsed - 1 - 1 - 1 = s.mrsUsed
    have hold : s₂.mrsUsed = s.mrsUsed + 2 := htook.mrsUsed
    omega
  · change s'.dma ++ _ ++ _ = _
    have hold : s₂.dma = s.dma ++ [.map .data 0 nents] ++ [.map .prot 0 protNents] := htook.dma
    rw [hdma, hold, append_assoc, append_assoc, append_assoc]
    rfl

end

/-- A failed call gives everything back exactly if it had mapped nothing, or if no entries were
merged and, without signature, the offset falls into the first entry. A destroy always does. -/
theorem given_back_iff (env : Env) (qp : Qp) (s : State) :
    (∀ ctx t offset remoteAddr rkey dir ret ctx' s', t.Valid →
      ctxInit env qp ctx t offset remoteAddr rkey dir s = some (ret, ctx', s') →
        (ret < 0 → (GivenBack s s' ↔ t.mapped = 0 ∨ t.Whole offset)) ∧
        (0 ≤ ret → GivenBack s (ctxDestroy ctx' t.nents s') ∧
          ∀ cqe chainWr, GivenBack s (ctxDestroy (ctxWrs ctx' cqe chainWr).2 t.nents s'))) ∧
    (∀ ctx t prot sigTypeNone remoteAddr rkey dir ret ctx' s', t.Valid → prot.Valid →
      ctxSignatureInit env qp ctx t prot sigTypeNone remoteAddr rkey dir s = (ret, ctx', s') →
        (ret < 0 → (GivenBack s s' ↔ SignatureWhole qp t prot)) ∧
        (0 ≤ ret → GivenBack s (ctxDestroySignature ctx' t.nents prot.nents s') ∧
          ∀ cqe chainWr, GivenBack s
            (ctxDestroySignature (ctxWrs ctx' cqe chainWr).2 t.nents prot.nents s'))) := by
  constructor
  · intro ctx t offset remoteAddr rkey dir ret ctx' s' ht h
    refine ⟨ctxInit_failed_iff ht h, fun hpos => ?_⟩
    obtain ⟨ids, howns, htook⟩ := ctxInit_succeeded h hpos
    exact ⟨ctxDestroy_givesBack howns htook,
      fun cqe chainWr => ctxDestroy_givesBack (ctxWrs_owns howns cqe chainWr) htook⟩
  · intro ctx t prot sigTypeNone remoteAddr rkey dir ret ctx' s' ht hp h
    refine ⟨ctxSignatureInit_failed_iff ht hp h, fun hpos => ?_⟩
    by_cases hfail : (t.nents > qp.frPageListLen ∨ prot.nents > qp.frPageListLen) ∨ t.mapped = 0 ∨
      prot.mapped = 0
    · exfalso
      unfold ctxSignatureInit at h
      dsimp only at h
      split at h
      · obtain ⟨rfl, -, -⟩ := by simpa using h
        exact absurd hpos (by decide)
      split at h
      · obtain ⟨rfl, -, -⟩ := by simpa using h
        exact absurd hpos (by decide)
      split at h
      · obtain ⟨rfl, -, -⟩ := by simpa using h
        exact absurd hpos (by decide)
      · next h1 h2 h3 => exact hfail.elim h1 fun h => h.elim h2 h3
    · obtain ⟨hlarge, hfail⟩ := not_or.mp hfail
      obtain ⟨hmapped, hprot⟩ := not_or.mp hfail
      rcases ctxSignatureInit_cases h hlarge hmapped hprot with
        ⟨hneg, -⟩ | ⟨-, htype, data, protMr, sig, s₂, hdata, hprotMr, hsig, htook, hsigs,
          hmrs, hused, hdma⟩
      · omega
      · have howns : ctx'.OwnsSig data.id protMr.id sig.id := by
          refine ⟨htype, ?_, ?_, ?_⟩
          · rw [hdata, Option.map_some]
          · rw [hprotMr, Option.map_some]
          · rw [hsig, Option.map_some]
        exact ⟨ctxDestroySignature_givesBack howns htook hsigs rfl hmrs hused hdma,
          fun cqe chainWr =>
            ctxDestroySignature_givesBack (ctxWrs_ownsSig howns cqe chainWr) htook hsigs rfl
              hmrs hused hdma⟩

/-! ## A pool that is empty -/

/-- Regions must be used, and there are none. -/
def noMrs : Qp :=
  { iwarp := false, capReadInv := false, forceMr := true, maxFastRegPageListLen := 16,
    maxWriteSge := 4
    maxReadSge := 4, localDmaLkey := 1 }

def allocAll : Env :=
  { mapMrSg := fun _ sg nents _ => ⟨nents, 0, 0, sg⟩, allocReg := true, allocSges := true,
    allocWrs := true
    allocSig := true }

def emptyPools : State := { rdmaMrs := [], sigMrs := [], mrsUsed := 0, dma := [] }

def twoPieces : Table := { entries := [⟨0x1000, 16⟩, ⟨0x8000, 16⟩], nents := 2, mapped := 2 }

theorem twoPieces_valid : twoPieces.Valid := ⟨by decide, by decide⟩

def unmappedFrom (start nents : Nat) : State :=
  { emptyPools with dma := [.map .data 0 2, .unmap .data start nents] }

theorem ctxInit_first_entry : ctxInit allocAll noMrs {} twoPieces 4 0 0 .fromDevice emptyPools =
    some (-EAGAIN, { nrOps := 1 }, unmappedFrom 0 2) := by
  with_unfolding_all rfl

theorem ctxInit_second_entry : ctxInit allocAll noMrs {} twoPieces 16 0 0 .fromDevice emptyPools =
    some (-EAGAIN, { nrOps := 1 }, unmappedFrom 1 1) := by
  have hdec : U32.dec 2 = 1 := U32.dec_of_pos (by decide) (by decide)
  have hskip : skipEntries twoPieces.entries 2 16 0 = some ([⟨0x8000, 16⟩], 1, 0, 1) := by
    simp only [twoPieces, skipEntries, Nat.lt_irrefl, if_false, hdec]
    rfl
  unfold ctxInit
  rw [show twoPieces.mapped = 2 from rfl, hskip]
  with_unfolding_all rfl

/-- With the offset in the first entry both entries are unmapped. -/
theorem first_entry_given_back : GivenBack emptyPools (unmappedFrom 0 2) :=
  (((given_back_iff allocAll noMrs emptyPools).1 {} twoPieces 4 0 0 .fromDevice _ _ _
    twoPieces_valid
    ctxInit_first_entry).1 (by decide)).mpr (.inr ⟨rfl, by decide⟩)

/-- With the offset in the second entry the first one stays mapped. -/
theorem second_entry_not_given_back :
    ctxInit allocAll noMrs {} twoPieces 16 0 0 .fromDevice emptyPools =
        some (-EAGAIN, { nrOps := 1 }, unmappedFrom 1 1) ∧
      ¬ GivenBack emptyPools (unmappedFrom 1 1) := by
  refine ⟨ctxInit_second_entry, ?_⟩
  rintro ⟨-, -, -, calls, hcalls, hbalanced⟩
  have hfirst := hbalanced .data 0
  rw [← nil_append calls, ← show emptyPools.dma = [] from rfl, ← hcalls] at hfirst
  exact absurd hfirst (by decide)

end RdmaRw
