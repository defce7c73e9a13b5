-- SUMMARY: Completions on the mlx5 GSI QP come in the order of the posts.
import OfaKernel.Lib.Run
import OfaKernel.Mlx5.GsiSend

/-!
# The order of GSI completions

Between `outstanding_ci` and `outstanding_pi` the ring holds the accepted requests that have not
been reported, in the order of the posts.
-/

open Function List

namespace Mlx5

/-! ## Entries of the ring -/

/-- The entries that `n` indices from `index` on name in a ring of size `m`. -/
def ringSlots (m : Nat) : Nat → Nat → List Nat
  | _, 0 => []
  | index, n + 1 => index % m :: ringSlots m (U32.inc index) n

theorem ringSlots_concat (m : Nat) {index : Nat} (h : index < 2 ^ 32) (n : Nat) :
    ringSlots m index (n + 1) = ringSlots m index n ++ [U32.wrap (index + n) % m] := by
  induction n generalizing index with
  | zero => simp [ringSlots, U32.wrap_of_lt h]
  | succ n ih =>
    have hinc : U32.inc index < 2 ^ 32 := by unfold U32.inc; omega
    have hadd : U32.wrap (U32.inc index + n) = U32.wrap (index + (n + 1)) := by
      unfold U32.wrap U32.inc; omega
    rw [ringSlots, ih hinc, hadd, ringSlots, cons_append]

namespace GsiQp

/-- The number of indices from `outstanding_ci` to `outstanding_pi`. -/
def outstanding (g : GsiQp) : Nat := U32.sub g.outstandingPi g.outstandingCi

/-- The entries between `outstanding_ci` and `outstanding_pi`. -/
def ring (g : GsiQp) : List Nat := ringSlots g.maxSendWr g.outstandingCi g.outstanding

/-- The `wr_id`s that entries of the ring carry. -/
def wrIds (g : GsiQp) (l : List Nat) : List Nat := l.map fun i => (g.outstandingWrs i).wc.wrId

/-- The poster wants a completion. -/
def Signaled (g : GsiQp) (wr : UdWr) : Bool :=
  decide (g.sqSigType = .allWr ∨ wr.sendFlags &&& sendSignaled ≠ 0)

end GsiQp

namespace GsiRun

/-- The number of accepted requests that are no longer outstanding. -/
def reported (s : GsiRun) : Nat := s.accepted.length - s.gsi.outstanding

/-- The ring holds the unreported requests, and the completions are those of the signalled
requests reported, in the order of the posts. -/
structure InOrder (s : GsiRun) : Prop where
  at_most : s.gsi.outstanding ≤ s.gsi.maxSendWr ∧ s.gsi.outstanding ≤ s.accepted.length
  apart : s.gsi.ring.Nodup
  held : s.gsi.wrIds s.gsi.ring = (s.accepted.drop s.reported).map UdWr.wrId
  completions : s.delivered.map Wc.wrId ++ s.gsi.wrIds s.gsi.wcList =
    ((s.accepted.take s.reported).filter s.gsi.Signaled).map UdWr.wrId
  /-- The oldest outstanding request has not completed. -/
  prompt : ∀ i ∈ s.gsi.ring.head?, (s.gsi.outstandingWrs i).completed = false

/-- Every entry of the ring is outstanding, waiting to be polled, or free. -/
structure Ring (s : GsiRun) : Prop where
  max_lt : s.gsi.maxSendWr < 2 ^ 32
  pi_lt : s.gsi.outstandingPi < 2 ^ 32
  ci_lt : s.gsi.outstandingCi < 2 ^ 32
  at_most : s.gsi.outstanding ≤ s.gsi.maxSendWr ∧ s.gsi.outstanding ≤ s.accepted.length
  apart : s.gsi.ring.Nodup
  held : s.gsi.wrIds s.gsi.ring = (s.accepted.drop s.reported).map UdWr.wrId
  completions : s.delivered.map Wc.wrId ++ s.gsi.wrIds s.gsi.wcList =
    ((s.accepted.take s.reported).filter s.gsi.Signaled).map UdWr.wrId
  completed : ∀ i, (s.gsi.outstandingWrs i).completed = true → i ∈ s.gsi.ring
  posted : s.posted.Nodup ∧
    ∀ i, i ∈ s.posted ↔ i ∈ s.gsi.ring ∧ (s.gsi.outstandingWrs i).completed = false
  inUse : ∀ i, (s.gsi.outstandingWrs i).inUse = true ↔ i ∈ s.gsi.wcList
  listed : s.gsi.wcList.Nodup
  disjoint : ∀ i ∈ s.gsi.wcList, i ∉ s.gsi.ring
  /-- The driver never copies the flags of a request. -/
  sendFlags : ∀ i, (s.gsi.outstandingWrs i).sendFlags = 0
  signaled : s.gsi.sqSigType = .allWr ∨ ∀ wr ∈ s.accepted, wr.sendFlags &&& sendSignaled = 0

/-- The oldest outstanding request has not completed. -/
def Prompt (g : GsiQp) : Prop := ∀ i ∈ g.ring.head?, (g.outstandingWrs i).completed = false

theorem Ring.inOrder {s : GsiRun} (h : s.Ring) (hp : Prompt s.gsi) : s.InOrder :=
  ⟨h.at_most, h.apart, h.held, h.completions, hp⟩

end GsiRun

section

variable {g : GsiQp} {s : GsiRun} {i n index x : Nat}

theorem generateLoop_ci : generateLoop n index { g with outstandingCi := x } =
    generateLoop n index g := by
  induction n generalizing index g with
  | zero => rfl
  | succ n ih =>
    simp only [generateLoop]
    split
    · split
      · exact ih (g := (g.generateWc _).clearCompleted _)
      · exact ih (g := g.clearCompleted _)
    · rfl

/-- One round of the loop: the head of the ring is reported. -/
def GsiQp.reportHead (g : GsiQp) : GsiQp :=
  let i := g.outstandingCi % g.maxSendWr
  let wr := g.outstandingWrs i
  let g' := if g.sqSigType = .allWr ∨ wr.sendFlags &&& sendSignaled ≠ 0 then g.generateWc i else g
  { g'.clearCompleted i with outstandingCi := U32.inc g.outstandingCi }

theorem generateLoop_succ :
    generateLoop (n + 1) g.outstandingCi g =
      if (g.outstandingWrs (g.outstandingCi % g.maxSendWr)).completed then
        generateLoop n g.reportHead.outstandingCi g.reportHead
      else g := by
  simp only [generateLoop, GsiQp.reportHead, generateLoop_ci]

theorem GsiQp.reportHead_eq
    (hflags : (g.outstandingWrs (g.outstandingCi % g.maxSendWr)).sendFlags = 0) :
    g.reportHead =
      { g with
        outstandingWrs := update g.outstandingWrs (g.outstandingCi % g.maxSendWr)
          { g.outstandingWrs (g.outstandingCi % g.maxSendWr) with
            inUse := decide (g.sqSigType = .allWr) ||
              (g.outstandingWrs (g.outstandingCi % g.maxSendWr)).inUse
            completed := false }
        wcList := g.wcList ++
          if g.sqSigType = .allWr then [g.outstandingCi % g.maxSendWr] else []
        outstandingCi := U32.inc g.outstandingCi } := by
  by_cases hall : g.sqSigType = .allWr
  · simp [GsiQp.reportHead, GsiQp.generateWc, GsiQp.clearCompleted, GsiQp.setWr, hall]
  · simp [GsiQp.reportHead, GsiQp.clearCompleted, GsiQp.setWr, hall, hflags]

theorem GsiQp.ring_succ (h : g.outstanding = n + 1) :
    g.ring = g.outstandingCi % g.maxSendWr ::
      ringSlots g.maxSendWr (U32.inc g.outstandingCi) n := by
  rw [GsiQp.ring, h, ringSlots]

namespace GsiRun

/-- The oldest request is reported once it has completed. -/
theorem Ring.reportHead (h : s.Ring) (hn : s.gsi.outstanding = n + 1)
    (hc : (s.gsi.outstandingWrs (s.gsi.outstandingCi % s.gsi.maxSendWr)).completed = true) :
    Ring { s with gsi := s.gsi.reportHead } ∧ s.gsi.reportHead.outstanding = n := by
  have heq := s.gsi.reportHead_eq (h.sendFlags _)
  have hring := GsiQp.ring_succ hn
  set g := s.gsi with hg
  set g' := g.reportHead with hg'
  set i := g.outstandingCi % g.maxSendWr with hi
  -- what changes and what does not
  have hpi : g'.outstandingPi = g.outstandingPi := by rw [heq]
  have hci : g'.outstandingCi = U32.inc g.outstandingCi := by rw [heq]
  have hmax : g'.maxSendWr = g.maxSendWr := by rw [heq]
  have hsig : g'.sqSigType = g.sqSigType := by rw [heq]
  have hlist : g'.wcList = g.wcList ++ if g.sqSigType = .allWr then [i] else [] := by rw [heq]
  have hself : g'.outstandingWrs i = { g.outstandingWrs i with
      inUse := decide (g.sqSigType = .allWr) || (g.outstandingWrs i).inUse
      completed := false } := by rw [heq]; exact update_self _ _ _
  have hother (j : Nat) (hj : j ≠ i) : g'.outstandingWrs j = g.outstandingWrs j := by
    rw [heq]; exact update_of_ne hj _ _
  have hwrId (l : List Nat) : g'.wrIds l = g.wrIds l := by
    refine map_congr_left fun j _ => ?_
    by_cases hj : j = i
    · rw [hj, hself]
    · rw [hother j hj]
  have hout : g'.outstanding = n := by
    unfold GsiQp.outstanding at hn ⊢
    unfold U32.sub U32.inc at *
    omega
  have hring' : g'.ring = ringSlots g.maxSendWr (U32.inc g.outstandingCi) n := by
    rw [GsiQp.ring, hout, hci, hmax]
  have hsplit : g.ring = i :: g'.ring := by rw [hring, hring']
  have hnodup := hsplit ▸ h.apart
  obtain ⟨hfresh, hnodup'⟩ := nodup_cons.mp hnodup
  have hin : i ∈ g.ring := hsplit ▸ mem_cons_self
  have hwc : i ∉ g.wcList := fun hmem => h.disjoint i hmem hin
  have hlen : n + 1 ≤ s.accepted.length := hn ▸ h.at_most.2
  have hrep : reported { s with gsi := g' } = s.reported + 1 := by
    simp only [reported, hout, ← hg, hn]
    omega
  have hlt : s.reported < s.accepted.length := by
    simp only [reported, ← hg, hn]
    omega
  have hdrop := drop_eq_getElem_cons hlt
  set wr := s.accepted[s.reported] with hwr
  have hheld : (g.outstandingWrs i).wc.wrId = wr.wrId ∧
      g.wrIds g'.ring = (s.accepted.drop (s.reported + 1)).map UdWr.wrId := by
    have := h.held
    rw [← hg, hsplit, hdrop, map_cons] at this
    exact List.cons.inj this
  refine ⟨?_, hout⟩
  exact
    { max_lt := by simpa only [hmax] using h.max_lt
      pi_lt := by simpa only [hpi] using h.pi_lt
      ci_lt := by
        rw [hci]
        unfold U32.inc
        omega
      at_most := by
        simp only [hout, hmax]
        have := h.at_most.1
        rw [← hg, hn] at this
        omega
      apart := hnodup'
      held := by
        rw [hrep, hwrId]
        exact hheld.2
      completions := by
        have hSig : g'.Signaled = g.Signaled := by
          funext wr
          simp only [GsiQp.Signaled, hsig]
        have htake : s.accepted.take (s.reported + 1) = s.accepted.take s.reported ++ [wr] := by
          rw [hwr, take_append_getElem]
        rw [hrep, hwrId, hSig, htake, hlist, filter_append, map_append, ← h.completions,
          append_assoc]
        by_cases hall : g.sqSigType = .allWr
        · simp [GsiQp.wrIds, GsiQp.Signaled, hall, hheld.1, ← hg]
        · have hflag := h.signaled.resolve_left hall wr (getElem_mem hlt)
          simp [GsiQp.wrIds, GsiQp.Signaled, hall, hflag, ← hg]
      completed := by
        intro j hj
        have hji : j ≠ i := by
          rintro rfl
          rw [show (g'.outstandingWrs i).completed = false by rw [hself]] at hj
          exact Bool.noConfusion hj
        rw [show (g'.outstandingWrs j).completed = _ by rw [hother j hji]] at hj
        have hmem := h.completed j hj
        rw [← hg, hsplit] at hmem
        exact (mem_cons.mp hmem).resolve_left hji
      posted := by
        refine ⟨h.posted.1, fun j => ?_⟩
        rw [h.posted.2 j, ← hg, hsplit, mem_cons]
        by_cases hj : j = i
        · subst hj
          simp [hfresh, hc]
        · simp [hj, hother j hj]
      inUse := by
        intro j
        rw [hlist]
        have hold := h.inUse j
        rw [← hg] at hold
        by_cases hj : j = i
        · subst hj
          rw [hself]
          by_cases hall : g.sqSigType = .allWr
          · simp [hall]
          · simp [hall, hold]
        · rw [hother j hj, hold]
          split <;> simp [hj]
      listed := by
        rw [hlist]
        split
        · exact h.listed.append (nodup_singleton i) (by simpa using hwc)
        · simpa using h.listed
      disjoint := by
        intro j hj
        rw [show GsiQp.wcList _ = _ from hlist] at hj
        rcases mem_append.mp hj with hj | hj
        · have := h.disjoint j hj
          rw [← hg, hsplit, mem_cons] at this
          exact fun hmem => this (.inr hmem)
        · split at hj
          · rw [mem_singleton.mp hj]
            exact hfresh
          · cases hj
      sendFlags := by
        intro j
        by_cases hj : j = i
        · rw [hj, hself]
          exact h.sendFlags i
        · rw [hother j hj]
          exact h.sendFlags j
      signaled := by
        rw [hsig]
        exact h.signaled }

/-- `generate_completions` keeps the ring and stops at a request that has not completed. -/
theorem Ring.generateCompletions (h : s.Ring) :
    Ring { s with gsi := generateCompletions s.gsi } ∧ Prompt (generateCompletions s.gsi) := by
  have hloop (n : Nat) : ∀ s : GsiRun, s.Ring → s.gsi.outstanding = n →
      Ring { s with gsi := generateLoop n s.gsi.outstandingCi s.gsi } ∧
        Prompt (generateLoop n s.gsi.outstandingCi s.gsi) := by
    induction n with
    | zero =>
      intro s h hn
      refine ⟨h, ?_⟩
      intro i hi
      have hnil : s.gsi.ring = [] := by rw [GsiQp.ring, hn, ringSlots]
      simp [generateLoop, hnil] at hi
    | succ n ih =>
      intro s h hn
      rw [generateLoop_succ]
      split
      · next hc =>
        obtain ⟨h', hn'⟩ := h.reportHead hn hc
        exact ih _ h' hn'
      · next hc =>
        refine ⟨h, ?_⟩
        intro i hi
        rw [GsiQp.ring_succ hn] at hi
        cases Option.mem_some.mp hi
        simpa using hc
  exact hloop _ s h rfl

end GsiRun

/-! ## Posting -/

/-- The entry that the next request gets. -/
def GsiQp.nextSlot (g : GsiQp) : Nat := g.outstandingPi % g.maxSendWr

/-- The ring has no room. -/
def GsiQp.Full (g : GsiQp) : Prop :=
  g.outstandingPi = U32.wrap (g.outstandingCi + g.maxSendWr) ∨
    (g.outstandingWrs g.nextSlot).inUse = true

instance (g : GsiQp) : Decidable g.Full := inferInstanceAs (Decidable (_ ∨ _))

theorem addOutstandingWr_full {wr : UdWr} {wc : Option Wc} (h : g.Full) :
    addOutstandingWr g wr wc = .error errNOMEM := by
  unfold addOutstandingWr
  split
  · rfl
  · next hpi =>
    have huse := h.resolve_left hpi
    simp only [GsiQp.nextSlot] at huse
    simp [huse]

/-- A request enters the ring: its entry takes the contents `wc` and the flag `completed`. -/
def GsiQp.push (g : GsiQp) (wc : Wc) (completed : Bool) : GsiQp :=
  { g.setWr g.nextSlot { g.outstandingWrs g.nextSlot with wc, completed } with
    outstandingPi := U32.inc g.outstandingPi }

theorem addOutstandingWr_drop {wr : UdWr} {wc : Wc} (h : ¬g.Full) :
    addOutstandingWr g wr (some wc) = .ok (g.push wc true, g.nextSlot) := by
  unfold addOutstandingWr
  rw [GsiQp.Full, not_or] at h
  rw [if_neg h.1]
  exact if_neg h.2

theorem addOutstandingWr_send {wr : UdWr} (h : ¬g.Full) :
    addOutstandingWr g wr none =
      .ok (g.push { zeroWc with pkeyIndex := wr.pkeyIndex, wrId := wr.wrId }
        (g.outstandingWrs g.nextSlot).completed, g.nextSlot) := by
  unfold addOutstandingWr
  rw [GsiQp.Full, not_or] at h
  rw [if_neg h.1]
  exact if_neg h.2

namespace GsiRun

theorem Ring.outstanding_lt (h : s.Ring) (hfull : ¬s.gsi.Full) :
    s.gsi.outstanding < s.gsi.maxSendWr := by
  rw [GsiQp.Full, not_or] at hfull
  have h₁ := h.at_most.1
  have h₂ := h.pi_lt
  have h₅ := hfull.1
  unfold GsiQp.outstanding at h₁ ⊢
  unfold U32.sub at h₁ ⊢
  unfold U32.wrap at h₅
  omega

/-- An accepted request takes the place behind the outstanding ones. -/
theorem Ring.push (h : s.Ring) (hfull : ¬s.gsi.Full) (hfree : s.gsi.nextSlot ∉ s.gsi.ring)
    {wr : UdWr} (hsig : s.gsi.sqSigType = .allWr ∨ wr.sendFlags &&& sendSignaled = 0)
    {w : Wc} (hwc : w.wrId = wr.wrId) (completed : Bool) :
    Ring
      { s with
        gsi := s.gsi.push w completed
        posted := if completed then s.posted else s.posted ++ [s.gsi.nextSlot]
        accepted := s.accepted ++ [wr] } ∧
      (s.gsi.push w completed).ring = s.gsi.ring ++ [s.gsi.nextSlot] := by
  have hlt := h.outstanding_lt hfull
  set g := s.gsi with hg
  set i := g.nextSlot with hi
  set g' := g.push w completed with hg'
  have hself : g'.outstandingWrs i = { g.outstandingWrs i with wc := w, completed } :=
    update_self _ _ _
  have hother (j : Nat) (hj : j ≠ i) : g'.outstandingWrs j = g.outstandingWrs j :=
    update_of_ne hj _ _
  have hpi : g'.outstandingPi = U32.inc g.outstandingPi := rfl
  have hci : g'.outstandingCi = g.outstandingCi := rfl
  have hout : g'.outstanding = g.outstanding + 1 := by
    have h₁ := h.pi_lt
    have h₂ := h.ci_lt
    have h₃ := h.max_lt
    rw [← hg] at h₁ h₂ h₃
    unfold GsiQp.outstanding at hlt ⊢
    unfold U32.sub U32.inc at *
    omega
  have hlast : U32.wrap (g.outstandingCi + g.outstanding) = g.outstandingPi := by
    have h₁ := h.pi_lt
    have h₂ := h.ci_lt
    rw [← hg] at h₁ h₂
    unfold GsiQp.outstanding U32.sub U32.wrap
    omega
  have hring : g'.ring = g.ring ++ [i] := by
    rw [GsiQp.ring, hout, hci, ringSlots_concat _ h.ci_lt, hlast]
    rfl
  have hfreeWc : i ∉ g.wcList := by
    rw [GsiQp.Full, not_or] at hfull
    rw [← h.inUse i]
    exact hfull.2
  have hle : g.outstanding ≤ s.accepted.length := h.at_most.2
  have hrep : (s.accepted ++ [wr]).length - g'.outstanding = s.reported := by
    show _ = s.accepted.length - g.outstanding
    rw [hout, length_append, length_singleton]
    omega
  have hrepLe : s.reported ≤ s.accepted.length := Nat.sub_le _ _
  have hwrId (l : List Nat) (hl : i ∉ l) : g'.wrIds l = g.wrIds l := by
    refine map_congr_left fun j hj => ?_
    rw [hother j (fun hji => hl (hji ▸ hj))]
  refine ⟨?_, hring⟩
  exact
    { max_lt := h.max_lt
      pi_lt := by
        rw [hpi]
        unfold U32.inc
        omega
      ci_lt := h.ci_lt
      at_most := by
        show g'.outstanding ≤ g.maxSendWr ∧ g'.outstanding ≤ (s.accepted ++ [wr]).length
        rw [hout, length_append, length_singleton]
        omega
      apart := by
        rw [hring]
        exact h.apart.append (nodup_singleton i) (by simpa using hfree)
      held := by
        show g'.wrIds g'.ring = ((s.accepted ++ [wr]).drop
          ((s.accepted ++ [wr]).length - g'.outstanding)).map UdWr.wrId
        rw [hrep, hring, drop_append_of_le_length hrepLe, GsiQp.wrIds, map_append,
          map_append]
        congr 1
        · exact (hwrId _ hfree).trans h.held
        · simp [hself, hwc]
      completions := by
        show _ ++ g'.wrIds g.wcList = (((s.accepted ++ [wr]).take
          ((s.accepted ++ [wr]).length - g'.outstanding)).filter g.Signaled).map UdWr.wrId
        rw [hrep, take_append_of_le_length hrepLe, hwrId _ hfreeWc]
        exact h.completions
      completed := by
        intro j hj
        rw [hring, mem_append]
        by_cases hji : j = i
        · exact .inr (mem_singleton.mpr hji)
        · rw [show (g'.outstandingWrs j).completed = _ by rw [hother j hji]] at hj
          exact .inl (h.completed j hj)
      posted := by
        have hnew : i ∉ s.posted := fun hmem => hfree ((h.posted.2 i).mp hmem).1
        constructor
        · split
          · exact h.posted.1
          · exact h.posted.1.append (nodup_singleton i) (by simpa using hnew)
        · intro j
          rw [hring, mem_append, mem_singleton]
          by_cases hji : j = i
          · subst hji
            rw [hself]
            cases completed <;> simp [hnew]
          · rw [hother j hji]
            have hold := h.posted.2 j
            cases completed <;> simp [hji, hold, ← hg]
      inUse := by
        intro j
        show (g'.outstandingWrs j).inUse = true ↔ j ∈ g.wcList
        rw [← h.inUse j]
        by_cases hji : j = i
        · rw [hji, hself]
        · rw [hother j hji]
      listed := h.listed
      disjoint := by
        intro j hj
        rw [hring, mem_append, mem_singleton, not_or]
        exact ⟨h.disjoint j hj, fun hji => hfreeWc (hji ▸ hj)⟩
      sendFlags := by
        intro j
        by_cases hji : j = i
        · rw [hji, hself]
          exact h.sendFlags i
        · rw [hother j hji]
          exact h.sendFlags j
      signaled := by
        rcases h.signaled with hall | hold
        · exact .inl hall
        · refine hsig.imp_right fun hnew => ?_
          intro w hw
          rcases mem_append.mp hw with hw | hw
          · exact hold w hw
          · rw [mem_singleton.mp hw]
            exact hnew }

/-- What is written into a free entry does not matter. -/
theorem Ring.scribble (h : s.Ring) {i : Nat} (hring : i ∉ s.gsi.ring) (hwc : i ∉ s.gsi.wcList)
    (wc : Wc) :
    Ring { s with gsi := s.gsi.setWr i { s.gsi.outstandingWrs i with wc } } := by
  set g' := s.gsi.setWr i { s.gsi.outstandingWrs i with wc } with hg'
  have hother (j : Nat) (hj : j ≠ i) : g'.outstandingWrs j = s.gsi.outstandingWrs j :=
    update_of_ne hj _ _
  have hkeep (j : Nat) : (g'.outstandingWrs j).completed = (s.gsi.outstandingWrs j).completed ∧
      (g'.outstandingWrs j).inUse = (s.gsi.outstandingWrs j).inUse ∧
      (g'.outstandingWrs j).sendFlags = (s.gsi.outstandingWrs j).sendFlags := by
    by_cases hj : j = i
    · subst hj
      simp [hg', GsiQp.setWr]
    · simp [hother j hj]
  have hwrId (l : List Nat) (hl : i ∉ l) : g'.wrIds l = s.gsi.wrIds l := by
    refine map_congr_left fun j hj => ?_
    rw [hother j (fun hji => hl (hji ▸ hj))]
  exact
    { max_lt := h.max_lt
      pi_lt := h.pi_lt
      ci_lt := h.ci_lt
      at_most := h.at_most
      apart := h.apart
      held := (hwrId _ hring).trans h.held
      completions := by
        show _ ++ g'.wrIds s.gsi.wcList = _
        rw [hwrId _ hwc]
        exact h.completions
      completed := fun j hj => h.completed j ((hkeep j).1 ▸ hj)
      posted := ⟨h.posted.1, fun j => by
        rw [(hkeep j).1]
        exact h.posted.2 j⟩
      inUse := fun j => by
        rw [(hkeep j).2.1]
        exact h.inUse j
      listed := h.listed
      disjoint := h.disjoint
      sendFlags := fun j => (hkeep j).2.2.trans (h.sendFlags j)
      signaled := h.signaled }

/-- A completion arrives for an outstanding request. -/
theorem Ring.complete (h : s.Ring) {i : Nat} (hi : i ∈ s.posted) {w : Wc}
    (hwc : w.wrId = (s.gsi.outstandingWrs i).wc.wrId) :
    Ring { s with
      gsi := s.gsi.setWr i { s.gsi.outstandingWrs i with completed := true, wc := w }
      posted := s.posted.erase i } := by
  set g' := s.gsi.setWr i { s.gsi.outstandingWrs i with completed := true, wc := w } with hg'
  obtain ⟨hin, -⟩ := (h.posted.2 i).mp hi
  have hself : g'.outstandingWrs i = { s.gsi.outstandingWrs i with completed := true, wc := w } :=
    update_self _ _ _
  have hother (j : Nat) (hj : j ≠ i) : g'.outstandingWrs j = s.gsi.outstandingWrs j :=
    update_of_ne hj _ _
  have hwrId (l : List Nat) : g'.wrIds l = s.gsi.wrIds l := by
    refine map_congr_left fun j _ => ?_
    by_cases hj : j = i
    · rw [hj, hself]
      exact hwc
    · rw [hother j hj]
  exact
    { max_lt := h.max_lt
      pi_lt := h.pi_lt
      ci_lt := h.ci_lt
      at_most := h.at_most
      apart := h.apart
      held := (hwrId _).trans h.held
      completions := by
        rw [hwrId]
        exact h.completions
      completed := by
        intro j hj
        by_cases hji : j = i
        · exact hji ▸ hin
        · rw [show (g'.outstandingWrs j).completed = _ by rw [hother j hji]] at hj
          exact h.completed j hj
      posted := by
        refine ⟨h.posted.1.erase i, fun j => ?_⟩
        show j ∈ s.posted.erase i ↔ j ∈ s.gsi.ring ∧ (g'.outstandingWrs j).completed = false
        rw [h.posted.1.mem_erase_iff, h.posted.2 j]
        by_cases hji : j = i
        · subst hji
          simp [hself]
        · simp [hji, hother j hji]
      inUse := by
        intro j
        show (g'.outstandingWrs j).inUse = true ↔ j ∈ s.gsi.wcList
        rw [← h.inUse j]
        by_cases hji : j = i
        · rw [hji, hself]
        · rw [hother j hji]
      listed := h.listed
      disjoint := h.disjoint
      sendFlags := by
        intro j
        by_cases hji : j = i
        · rw [hji, hself]
          exact h.sendFlags i
        · rw [hother j hji]
          exact h.sendFlags j
      signaled := h.signaled }

/-- The first completion on the list is polled. -/
theorem Ring.pollHead (h : s.Ring) {i : Nat} {rest : List Nat} (hlist : s.gsi.wcList = i :: rest)
    {wc : Wc} (hwc : wc.wrId = (s.gsi.outstandingWrs i).wc.wrId) :
    Ring { s with
      gsi := { s.gsi.setWr i { s.gsi.outstandingWrs i with wc, inUse := false } with
        wcList := rest }
      delivered := s.delivered ++ [wc] } := by
  set g' : GsiQp := { s.gsi.setWr i { s.gsi.outstandingWrs i with wc, inUse := false } with
    wcList := rest } with hg'
  have hself : g'.outstandingWrs i = { s.gsi.outstandingWrs i with wc, inUse := false } :=
    update_self _ _ _
  have hother (j : Nat) (hj : j ≠ i) : g'.outstandingWrs j = s.gsi.outstandingWrs j :=
    update_of_ne hj _ _
  have hcompleted (j : Nat) :
      (g'.outstandingWrs j).completed = (s.gsi.outstandingWrs j).completed := by
    by_cases hj : j = i
    · rw [hj, hself]
    · rw [hother j hj]
  have hwrId (l : List Nat) : g'.wrIds l = s.gsi.wrIds l := by
    refine map_congr_left fun j _ => ?_
    by_cases hj : j = i
    · rw [hj, hself]
      exact hwc
    · rw [hother j hj]
  obtain ⟨hfresh, hnodup⟩ := nodup_cons.mp (hlist ▸ h.listed)
  exact
    { max_lt := h.max_lt
      pi_lt := h.pi_lt
      ci_lt := h.ci_lt
      at_most := h.at_most
      apart := h.apart
      held := (hwrId _).trans h.held
      completions := by
        show (s.delivered ++ [wc]).map Wc.wrId ++ g'.wrIds rest = _
        rw [hwrId]
        refine Eq.trans ?_ h.completions
        rw [hlist]
        simp [GsiQp.wrIds, hwc]
      completed := fun j hj => h.completed j (hcompleted j ▸ hj)
      posted := ⟨h.posted.1, fun j => by
        rw [hcompleted]
        exact h.posted.2 j⟩
      inUse := by
        intro j
        show (g'.outstandingWrs j).inUse = true ↔ j ∈ rest
        have hold := h.inUse j
        rw [hlist, mem_cons] at hold
        by_cases hj : j = i
        · subst hj
          simp [hself, hfresh]
        · rw [hother j hj, hold]
          simp [hj]
      listed := hnodup
      disjoint := fun j hj => h.disjoint j (hlist ▸ mem_cons_of_mem _ hj)
      sendFlags := by
        intro j
        by_cases hj : j = i
        · rw [hj, hself]
          exact h.sendFlags i
        · rw [hother j hj]
          exact h.sendFlags j
      signaled := h.signaled }

theorem prompt_congr {g g' : GsiQp} (hp : Prompt g) (hring : g'.ring = g.ring)
    (hcompleted : ∀ i ∈ g.ring,
      (g'.outstandingWrs i).completed = (g.outstandingWrs i).completed) : Prompt g' := by
  intro i hi
  rw [hring] at hi
  rw [hcompleted i (mem_of_mem_head? hi)]
  exact hp i hi

theorem Ring.poll (fatal : Bool) (n : Nat) {s : GsiRun} (h : s.Ring) (hp : Prompt s.gsi) :
    Ring { s with
      gsi := (pollSoftWc fatal n s.gsi).1
      delivered := s.delivered ++ (pollSoftWc fatal n s.gsi).2 } ∧
      Prompt (pollSoftWc fatal n s.gsi).1 := by
  induction n generalizing s with
  | zero =>
    rw [pollSoftWc, append_nil]
    exact ⟨h, hp⟩
  | succ n ih =>
    rw [pollSoftWc]
    split
    · rw [append_nil]
      exact ⟨h, hp⟩
    · next i rest hlist =>
      have hwc : (if fatal then { (s.gsi.outstandingWrs i).wc with status := wcWrFlushErr }
          else (s.gsi.outstandingWrs i).wc).wrId = (s.gsi.outstandingWrs i).wc.wrId := by
        split <;> rfl
      have h₁ := h.pollHead hlist hwc
      have hp₁ : Prompt { s.gsi.setWr i { s.gsi.outstandingWrs i with
          wc := if fatal then { (s.gsi.outstandingWrs i).wc with status := wcWrFlushErr }
            else (s.gsi.outstandingWrs i).wc
          inUse := false } with wcList := rest } := by
        refine prompt_congr hp rfl fun j hj => ?_
        have hji : j ≠ i := by
          rintro rfl
          exact h.disjoint j (hlist ▸ mem_cons_self) hj
        exact congrArg GsiWr.completed (update_of_ne hji _ _)
      have := ih h₁ hp₁
      simpa using this

/-! ## Runs -/

/-- The entry of the next request holds no outstanding one, a transmit QP refuses only while
`outstanding_pi` is below the ring size, and no single request asks for a completion of its own.
-/
def Safe (s : GsiRun) : GsiAct → Prop
  | .postSend wr lower => s.gsi.Full ∨
    (s.gsi.nextSlot ∉ s.gsi.ring ∧
      (getTxQp s.gsi wr ≠ none → lower ≠ 0 → s.gsi.outstandingPi < s.gsi.maxSendWr) ∧
      (getTxQp s.gsi wr = none ∨ lower = 0 →
        s.gsi.sqSigType = .allWr ∨ wr.sendFlags &&& sendSignaled = 0))
  | _ => True

instance (s : GsiRun) : (a : GsiAct) → Decidable (s.Safe a)
  | .setupQp _ => .isTrue trivial
  | .postSend _ _ => inferInstanceAs (Decidable (_ ∨ _))
  | .complete _ _ => .isTrue trivial
  | .poll _ _ => .isTrue trivial

/-- A refused post leaves the indices and the outstanding entries as they were. -/
def RefusalKeeps (s : GsiRun) : GsiAct → Prop
  | .postSend wr lower =>
    match gsiPostOne s.gsi wr lower with
    | (g, ret, _) => ret ≠ 0 →
      g.outstandingPi = s.gsi.outstandingPi ∧ g.outstandingCi = s.gsi.outstandingCi ∧
        ∀ i ∈ s.gsi.ring, g.outstandingWrs i = s.gsi.outstandingWrs i
  | _ => True

/-- The invariant of runs. -/
structure Inv (s : GsiRun) : Prop where
  ring : s.Ring
  prompt : Prompt s.gsi

theorem gsiPostOne_full {wr : UdWr} (lower : Int) (hfull : g.Full) :
    gsiPostOne g wr lower = (g, errNOMEM, none) := by
  unfold gsiPostOne gsiSilentDrop
  cases getTxQp g wr <;> simp [addOutstandingWr_full hfull]

theorem gsiPostOne_drop {wr : UdWr} (lower : Int) (hfull : ¬g.Full) (htx : getTxQp g wr = none) :
    gsiPostOne g wr lower =
      (generateCompletions (g.push ⟨wr.wrId, wcSuccess, wcSend, some .gsi, 0⟩ true), 0, none) := by
  simp [gsiPostOne, gsiSilentDrop, htx, addOutstandingWr_drop hfull]

theorem gsiPostOne_send {wr : UdWr} {lower : Int} (hfull : ¬g.Full) (htx : getTxQp g wr ≠ none) :
    gsiPostOne g wr lower =
      let g' := g.push { zeroWc with pkeyIndex := wr.pkeyIndex, wrId := wr.wrId }
        (g.outstandingWrs g.nextSlot).completed
      if lower = 0 then (g', 0, some g.nextSlot)
      else (g'.undoAdd, lower, none) := by
  obtain ⟨qp, hqp⟩ := Option.ne_none_iff_exists'.mp htx
  simp [gsiPostOne, hqp, addOutstandingWr_send hfull]

/-- Taking the last request out again, while the index is below the ring size. -/
theorem Ring.undoAdd (h : s.Ring) (hpi : s.gsi.outstandingPi < s.gsi.maxSendWr) (wc : Wc) :
    (s.gsi.push wc (s.gsi.outstandingWrs s.gsi.nextSlot).completed).undoAdd =
      s.gsi.setWr s.gsi.nextSlot { s.gsi.outstandingWrs s.gsi.nextSlot with wc } := by
  have hsub : U32.sub (U32.inc s.gsi.outstandingPi) 1 = s.gsi.outstandingPi := by
    have h₁ := h.pi_lt
    unfold U32.sub U32.inc
    omega
  simp [GsiQp.undoAdd, GsiQp.push, GsiQp.setWr, hsub, Nat.mod_eq_of_lt hpi]

/-- A post keeps the invariant, and a refused one the ring. -/
theorem Inv.postSend (h : s.Inv) {wr : UdWr} {lower : Int} (hsafe : s.Safe (.postSend wr lower)) :
    (s.step (.postSend wr lower)).Inv ∧ s.RefusalKeeps (.postSend wr lower) := by
  simp only [GsiRun.step, RefusalKeeps]
  by_cases hfull : s.gsi.Full
  · rw [gsiPostOne_full lower hfull]
    simpa [errNOMEM] using h
  · obtain ⟨hfree, hrefuse, hsig⟩ := hsafe.resolve_left hfull
    have hdone : (s.gsi.outstandingWrs s.gsi.nextSlot).completed = false := by
      rw [Bool.eq_false_iff]
      exact fun hc => hfree (h.ring.completed _ hc)
    have hwcList : s.gsi.nextSlot ∉ s.gsi.wcList := by
      rw [GsiQp.Full, not_or] at hfull
      rw [← h.ring.inUse]
      exact hfull.2
    by_cases htx : getTxQp s.gsi wr = none
    · -- dropped: the request completes at once
      rw [gsiPostOne_drop lower hfull htx]
      obtain ⟨hpush, -⟩ := h.ring.push hfull hfree (hsig (.inl htx))
        (w := ⟨wr.wrId, wcSuccess, wcSend, some .gsi, 0⟩) rfl true
      obtain ⟨hring, hprompt⟩ := hpush.generateCompletions
      simpa using Inv.mk hring hprompt
    · rw [gsiPostOne_send hfull htx]
      by_cases hlower : lower = 0
      · -- taken by the transmit QP
        obtain ⟨hpush, happ⟩ := h.ring.push hfull hfree (hsig (.inr hlower))
          (w := { zeroWc with pkeyIndex := wr.pkeyIndex, wrId := wr.wrId }) rfl false
        rw [hdone]
        simp only [hlower, if_true]
        refine ⟨⟨hpush, ?_⟩, fun hne => absurd rfl hne⟩
        intro i hi
        show (update s.gsi.outstandingWrs s.gsi.nextSlot _ i).completed = false
        by_cases his : i = s.gsi.nextSlot
        · rw [his, update_self]
        · rw [update_of_ne his]
          rw [happ, List.head?_append] at hi
          cases hhead : s.gsi.ring.head? with
          | none =>
            rw [hhead] at hi
            exact absurd (Option.mem_some.mp hi).symm his
          | some j =>
            rw [hhead] at hi
            obtain rfl := Option.mem_some.mp hi
            exact h.prompt _ hhead
      · -- refused: the undo restores the index
        simp only [hlower, if_false]
        rw [h.ring.undoAdd (hrefuse htx hlower)]
        have hkeep (i : Nat) (hi : i ∈ s.gsi.ring) :
            (s.gsi.setWr s.gsi.nextSlot { s.gsi.outstandingWrs s.gsi.nextSlot with
              wc := { zeroWc with pkeyIndex := wr.pkeyIndex, wrId := wr.wrId } }).outstandingWrs i =
              s.gsi.outstandingWrs i := by
          have his : i ≠ s.gsi.nextSlot := by
            rintro rfl
            exact hfree hi
          exact update_of_ne his _ _
        refine ⟨⟨?_, ?_⟩, fun _ => ⟨rfl, rfl, hkeep⟩⟩
        · simpa using h.ring.scribble hfree hwcList _
        · exact prompt_congr h.prompt rfl fun i hi => congrArg _ (hkeep i hi)

theorem Inv.step (h : s.Inv) {a : GsiAct} (hvalid : s.Valid a) (hsafe : s.Safe a) :
    (s.step a).Inv ∧ s.RefusalKeeps a := by
  cases a with
  | setupQp index =>
    refine ⟨⟨?_, h.prompt⟩, trivial⟩
    exact { h.ring with }
  | postSend wr lower => exact h.postSend hsafe
  | complete i wc =>
    obtain ⟨hring, hprompt⟩ := (h.ring.complete hvalid
      (w := { wc with wrId := (s.gsi.outstandingWrs i).wc.wrId, qp := some .gsi })
      rfl).generateCompletions
    exact ⟨⟨hring, hprompt⟩, trivial⟩
  | poll n fatal =>
    obtain ⟨hring, hprompt⟩ := h.ring.poll fatal n h.prompt
    exact ⟨⟨hring, hprompt⟩, trivial⟩

theorem Inv.start (cap : Bool) (maxPkeys : Nat) {maxSendWr : Nat} (hmax : maxSendWr < 2 ^ 32)
    (sig : SigType) : Inv (start (gsiCreateQp cap maxPkeys maxSendWr sig)) := by
  have hout : (gsiCreateQp cap maxPkeys maxSendWr sig).outstanding = 0 := by
    simp [GsiQp.outstanding, gsiCreateQp, U32.sub]
  have hring : (gsiCreateQp cap maxPkeys maxSendWr sig).ring = [] := by
    rw [GsiQp.ring, hout, ringSlots]
  constructor
  · exact
      { max_lt := hmax
        pi_lt := Nat.two_pow_pos 32
        ci_lt := Nat.two_pow_pos 32
        at_most := by simp [GsiRun.start, hout]
        apart := by simp [GsiRun.start, hring]
        held := by simp [GsiRun.start, hring, GsiQp.wrIds]
        completions := by simp [GsiRun.start, gsiCreateQp, GsiQp.wrIds]
        completed := by simp [GsiRun.start, gsiCreateQp]
        posted := by simp [GsiRun.start, hring]
        inUse := by simp [GsiRun.start, gsiCreateQp]
        listed := nodup_nil
        disjoint := by simp [GsiRun.start, gsiCreateQp]
        sendFlags := fun _ => rfl
        signaled := .inr (by simp [GsiRun.start]) }
  · intro i hi
    simp [GsiRun.start, hring] at hi

end GsiRun

end

/-- In every run whose posts stay clear of the defects, requests are reported in order, and a
refused post leaves the ring as it was. -/
theorem gsi_in_order (cap : Bool) (maxPkeys maxSendWr : Nat) (hmax : maxSendWr < 2 ^ 32)
    (sig : SigType) (acts : List GsiAct)
    (hvalid : Run.Steps GsiRun.step GsiRun.Valid
      (.start (gsiCreateQp cap maxPkeys maxSendWr sig)) acts)
    (hsafe : Run.Steps GsiRun.step GsiRun.Safe
      (.start (gsiCreateQp cap maxPkeys maxSendWr sig)) acts) :
    (∀ s ∈ Run.states GsiRun.step (.start (gsiCreateQp cap maxPkeys maxSendWr sig)) acts,
      s.InOrder) ∧
    Run.Steps GsiRun.step GsiRun.RefusalKeeps
      (.start (gsiCreateQp cap maxPkeys maxSendWr sig)) acts := by
  have hboth := Run.steps_and.mpr ⟨hvalid, hsafe⟩
  have h0 := GsiRun.Inv.start cap maxPkeys hmax sig
  have hstep (s : GsiRun) (a : GsiAct) (hs : s.Inv) (ha : s.Valid a ∧ s.Safe a) :
      (s.step a).Inv ∧ s.RefusalKeeps a := hs.step ha.1 ha.2
  constructor
  · intro s hs
    have hinv := hboth.invariant (fun s a hi ha => (hstep s a hi ha).1) h0 s hs
    exact hinv.ring.inOrder hinv.prompt
  · exact hboth.each (fun s a hi ha => (hstep s a hi ha).1)
      (fun s a hi ha => (hstep s a hi ha).2) h0

/-- A ring of two entries; every request is signalled. -/
def gsiSmall : GsiRun := .start (gsiCreateQp true 2 2 .allWr)

/-- Two requests on two transmit QPs complete the wrong way round; a third is dropped. -/
def gsiActs : List GsiAct :=
  [.setupQp 0, .setupQp 1, .postSend ⟨11, 0, 0⟩ 0, .postSend ⟨12, 1, 0⟩ 0, .postSend ⟨13, 0, 0⟩ 0,
    .complete 1 zeroWc, .complete 0 zeroWc, .poll 2 false, .postSend ⟨14, 9, 0⟩ 0, .poll 1 false]

theorem gsi_in_order_two :
    (∀ s ∈ Run.states GsiRun.step gsiSmall gsiActs, s.InOrder) ∧
    Run.Steps GsiRun.step GsiRun.RefusalKeeps gsiSmall gsiActs :=
  gsi_in_order true 2 2 (by decide) .allWr gsiActs (by decide +kernel) (by decide +kernel)

/-- After two requests the transmit QP refuses a third: `outstanding_pi` falls back from 2 to 0
while `outstanding_ci` stays 2. -/
def gsiRefusal : List GsiAct :=
  [.setupQp 0, .postSend ⟨11, 0, 0⟩ 0, .complete 0 zeroWc, .postSend ⟨12, 0, 0⟩ 0,
    .complete 1 zeroWc, .poll 2 false, .postSend ⟨13, 0, 0⟩ (-5)]

theorem gsi_refusal_loses_index :
    Run.Steps GsiRun.step GsiRun.Valid gsiSmall gsiRefusal ∧
    ¬(∀ s ∈ Run.states GsiRun.step gsiSmall gsiRefusal, s.InOrder) ∧
    (Run.final GsiRun.step gsiSmall gsiRefusal).gsi.outstandingPi = 0 ∧
    (Run.final GsiRun.step gsiSmall gsiRefusal).gsi.outstandingCi = 2 := by
  refine ⟨by decide +kernel, ?_, by decide +kernel, by decide +kernel⟩
  intro hall
  have hlast := hall _ (Run.final_mem_states gsiSmall gsiRefusal)
  exact absurd hlast.at_most.1 (by decide +kernel)

end Mlx5
