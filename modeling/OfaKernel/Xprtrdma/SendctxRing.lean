-- SUMMARY: The ring of send contexts.
import Mathlib.Data.List.Nodup
import Mathlib.Data.List.TakeWhile
import OfaKernel.Lib.Run
import OfaKernel.Xprtrdma.PrepareSges

/-!
# The send context ring

A Send takes the context after `rb_sc_head`; the completion of a signaled Send releases every
context from `rb_sc_tail` up to its own. Contexts are named by their index in `rb_sc_ctxs`. A
call of `->send_request` is one step, and so is a completion.
-/

open List

namespace Xprtrdma

/-! ## The ring -/

/-- The part of `struct rpcrdma_buffer` for send contexts, with the Sends that have not
completed in posting order (context, signaled) and the state of the mappings. -/
structure ScBuffer where
  scLast : Nat
  scHead : Nat
  scTail : Nat
  ctxs : Nat → SendCtx
  posted : List (Nat × Bool)
  dma : Dma

def ScBuffer.init (last : Nat) : ScBuffer :=
  { scLast := last, scHead := 0, scTail := 0, ctxs := fun _ => {}, posted := [], dma := {} }

def sendctxNext (last item : Nat) : Nat :=
  if item < last then item + 1 else 0

/-- `rpcrdma_sendctx_get_locked`: the context and the new head. -/
def sendctxGetLocked (b : ScBuffer) : Option Nat :=
  let nextHead := sendctxNext b.scLast b.scHead
  if nextHead = b.scTail then none else some nextHead

/-- The loop of `rpcrdma_sendctx_put_locked` for at most `fuel` contexts. -/
def putWalk (b : ScBuffer) (sc : Nat) : Nat → Nat → Dma → Option (Nat × Dma)
  | 0, _, _ => none
  | fuel + 1, tail, dma =>
    let nextTail := sendctxNext b.scLast tail
    let dma := rpcrdmaUnmapSendctx dma (b.ctxs nextTail)
    if nextTail = sc then some (nextTail, dma) else putWalk b sc fuel nextTail dma

/-- `rpcrdma_sendctx_put_locked`, if its loop ends within one lap. -/
def sendctxPutLocked (b : ScBuffer) (sc : Nat) : Option ScBuffer :=
  (putWalk b sc (b.scLast + 1) b.scTail b.dma).map fun r => { b with scTail := r.1, dma := r.2 }

/-- The signaled Send that completes next, and the Sends after it. -/
def ScBuffer.nextSignaled (b : ScBuffer) : Option (Nat × List (Nat × Bool)) :=
  match b.posted.dropWhile (fun p => !p.2) with
  | [] => none
  | p :: rest => some (p.1, rest)

/-- An RPC is prepared and, if that succeeds, posted (`post` tells whether it is, and
whether signaled), or the next signaled Send completes. -/
inductive ScAction where
  | sendRequest (env : MapEnv) (hdr : List UInt8) (xdr : XdrBuf) (rtype : ChunkType)
      (post : Option Bool)
  | complete

/-- The context filled, and the Send posted. -/
def prepareAndPost (b : ScBuffer) (i : Nat) (r : Dma × SendCtx × Bool) (post : Option Bool) :
    ScBuffer :=
  { b with
    scHead := i
    ctxs := Function.update b.ctxs i r.2.1
    dma := r.1
    posted := match post with
      | some signaled => if r.2.2 then b.posted ++ [(i, signaled)] else b.posted
      | none => b.posted }

def scStep (b : ScBuffer) : ScAction → ScBuffer
  | .sendRequest env hdr xdr rtype post =>
    match sendctxGetLocked b with
    | none => b
    | some i => prepareAndPost b i (rpcrdmaPrepareSendSges env hdr xdr rtype b.dma) post
  | .complete =>
    match b.nextSignaled with
    | none => b
    | some (i, rest) =>
      match sendctxPutLocked b i with
      | none => b
      | some b => { b with posted := rest }

/-! ## Contexts in use -/

/-- The `n` contexts after `item`. -/
def walk (last item : Nat) : Nat → List Nat
  | 0 => []
  | n + 1 => sendctxNext last item :: walk last (sendctxNext last item) n

/-- How many contexts have been handed out and not released. -/
def ScBuffer.used (b : ScBuffer) : Nat :=
  if b.scTail ≤ b.scHead then b.scHead - b.scTail else b.scHead + (b.scLast + 1) - b.scTail

/-- The contexts handed out and not released, oldest first. -/
def ScBuffer.held (b : ScBuffer) : List Nat :=
  walk b.scLast b.scTail b.used

@[simp] theorem walk_length (last item n : Nat) : (walk last item n).length = n := by
  induction n generalizing item with
  | zero => rfl
  | succ n ih => simp [walk, ih]

theorem sendctxNext_le (last item : Nat) : sendctxNext last item ≤ last := by
  unfold sendctxNext
  split <;> omega

/-- The position `n` after `item`. -/
def ringAdd (last item n : Nat) : Nat :=
  if item + n ≤ last then item + n else item + n - (last + 1)

variable {last item n : Nat}

theorem walk_eq_map (hitem : item ≤ last) (hn : n ≤ last + 1) :
    walk last item n = (List.range n).map fun j => ringAdd last item (j + 1) := by
  induction n generalizing item with
  | zero => rfl
  | succ n ih =>
    rw [walk, ih (sendctxNext_le last item) (by omega), range_succ_eq_map, map_cons,
      map_map]
    congr 1
    · unfold sendctxNext ringAdd
      repeat' split
      all_goals omega
    · refine map_congr_left fun j hj => ?_
      have hj' := mem_range.mp hj
      simp only [Function.comp_apply, sendctxNext, ringAdd]
      repeat' split
      all_goals omega

theorem walk_nodup (hitem : item ≤ last) (hn : n ≤ last + 1) :
    (walk last item n).Nodup := by
  rw [walk_eq_map hitem hn]
  refine List.Nodup.map_on (fun i hi j hj h => ?_) nodup_range
  have hi' := mem_range.mp hi
  have hj' := mem_range.mp hj
  unfold ringAdd at h
  split at h <;> split at h <;> omega

theorem walk_succ (hitem : item ≤ last) (hn : n ≤ last) :
    walk last item (n + 1) = walk last item n ++ [ringAdd last item (n + 1)] := by
  rw [walk_eq_map hitem (by omega), walk_eq_map hitem (by omega), range_succ,
    map_append, map_singleton]

variable {as bs : List Nat} {i : Nat}

theorem walk_split (h : walk last item n = as ++ i :: bs) : bs = walk last i bs.length := by
  induction as generalizing item n with
  | nil =>
    cases n with
    | zero => simp [walk] at h
    | succ n =>
      obtain ⟨rfl, rfl⟩ := h
      rw [walk_length]
  | cons a as ih =>
    cases n with
    | zero => simp [walk] at h
    | succ n =>
      simp only [walk, cons_append, List.cons.injEq] at h
      exact ih h.2

variable {b : ScBuffer}

/-- The loop of the release goes through the walk up to the completed context. -/
theorem putWalk_eq {fuel tail n : Nat} (dma : Dma) (h : walk b.scLast tail n = as ++ i :: bs)
    (hi : i ∉ as) (hfuel : as.length < fuel) :
    putWalk b i fuel tail dma =
      some (i, { dma with
        unmapped := dma.unmapped ++ (as ++ [i]).flatMap fun j => (b.ctxs j).mapped }) := by
  induction as generalizing tail n dma fuel with
  | nil =>
    obtain ⟨fuel, rfl⟩ := Nat.exists_eq_succ_of_ne_zero (by omega : fuel ≠ 0)
    cases n with
    | zero => simp [walk] at h
    | succ n =>
      simp only [walk, nil_append, List.cons.injEq] at h
      simp [putWalk, h.1, rpcrdmaUnmapSendctx]
  | cons a as ih =>
    obtain ⟨fuel, rfl⟩ := Nat.exists_eq_succ_of_ne_zero (by simp at hfuel; omega : fuel ≠ 0)
    cases n with
    | zero => simp [walk] at h
    | succ n =>
      simp only [walk, cons_append, List.cons.injEq] at h
      simp only [mem_cons, not_or] at hi
      have hlt : as.length < fuel := by simpa using hfuel
      rw [putWalk, h.1, if_neg (fun h => hi.1 h.symm), ih _ (h.1 ▸ h.2) hi.2 hlt]
      simp [rpcrdmaUnmapSendctx]

/-! ## What a preparation maps -/

/-- The mappings of a context are the ones made since it was taken, and the error path has
unmapped them if it was taken. -/
structure Prepared (dma : Dma) (r : Dma × SendCtx × Bool) : Prop where
  mapped : r.2.1.mapped = List.range' dma.next r.2.1.unmapCount
  next : r.1.next = dma.next + r.2.1.unmapCount
  unmapped : r.1.unmapped = dma.unmapped ++ if r.2.1.failed then r.2.1.mapped else []

/-- A context in the middle of a preparation. -/
structure Preparing (start dma : Dma) (sc : SendCtx) : Prop where
  length : sc.sges.length = sc.unmapCount + 2
  mapped : sc.mapped = List.range' start.next sc.unmapCount
  next : dma.next = start.next + sc.unmapCount
  unmapped : dma.unmapped = start.unmapped
  failed : sc.failed = false

variable {start dma : Dma} {sc : SendCtx}

theorem Preparing.err (h : Preparing start dma sc) :
    Prepared start (outMappingErr dma sc) where
  mapped := h.mapped
  next := h.next
  unmapped := by
    show dma.unmapped ++ sc.mapped = start.unmapped ++ sc.mapped
    rw [h.unmapped]

theorem Preparing.out (h : Preparing start dma sc) :
    Prepared start (prepareOut dma sc) where
  mapped := h.mapped
  next := h.next
  unmapped := by
    simp only [prepareOut, h.failed, h.unmapped]
    exact (append_nil _).symm

theorem Preparing.mapSge (h : Preparing start dma sc) {env : MapEnv} {bytes : List UInt8}
    {r : Dma × SendCtx} (hr : mapSge env dma sc bytes = some r) : Preparing start r.1 r.2 := by
  unfold Xprtrdma.mapSge at hr
  split at hr
  · cases hr
    refine ⟨by simp [h.length], ?_, by simp [h.next, Nat.add_assoc], h.unmapped, h.failed⟩
    have hlen := h.length
    have hdrop (x : Sge) : (sc.sges ++ [x]).drop 2 = sc.sges.drop 2 ++ [x] :=
      drop_append_of_le_length (by omega)
    have hold : (sc.sges.drop 2).filterMap Sge.mapping = List.range' start.next sc.unmapCount := by
      rw [← h.mapped, SendCtx.mapped, take_of_length_le (by simp [hlen])]
    simp only [SendCtx.mapped]
    rw [hdrop, take_of_length_le (by simp [h.length]), filterMap_append, hold, h.next,
      List.range'_concat]
    simp
  · cases hr

theorem mapTail_prepared (h : Preparing start dma sc) (env : MapEnv) (bytes : List UInt8) :
    Prepared start (mapTail env dma sc bytes) := by
  unfold mapTail
  split
  · exact h.err
  next hr => exact (h.mapSge hr).out

theorem mapPages_prepared (h : Preparing start dma sc) (env : MapEnv) (xdr : XdrBuf)
    (ps : List PagePart) :
    Prepared start (mapPages env xdr dma sc ps) := by
  induction ps generalizing dma sc with
  | nil =>
    unfold mapPages
    split
    · exact mapTail_prepared h env _
    · exact h.out
  | cons p ps ih =>
    unfold mapPages
    split
    · exact h.err
    · split
      · exact h.err
      next hr => exact ih (h.mapSge hr)

theorem rpcrdmaPrepareSendSges_prepared (env : MapEnv) (hdr : List UInt8) (xdr : XdrBuf)
    (rtype : ChunkType) (dma : Dma) :
    Prepared dma (rpcrdmaPrepareSendSges env hdr xdr rtype dma) := by
  -- a context that nothing has been mapped in
  have hnone (sc : SendCtx) (ok : Bool) (hc : sc.unmapCount = 0) (hf : sc.failed = false) :
      Prepared dma (dma, sc, ok) :=
    ⟨by simp [SendCtx.mapped, hc], by simp [hc], by simp [hf]⟩
  unfold rpcrdmaPrepareSendSges
  split
  · split
    · unfold rpcrdmaPrepareMsgSges
      split
      · have h : Preparing dma dma
            { sges := [⟨hdr, none⟩] ++ [⟨xdr.head, none⟩], numSge := 1 } :=
          ⟨rfl, rfl, rfl, rfl, rfl⟩
        dsimp only
        split
        · split
          · exact h.out
          · exact mapTail_prepared h env _
        · exact mapPages_prepared h env xdr _
      · exact hnone _ _ rfl rfl
    · exact hnone _ _ rfl rfl
  · exact hnone _ _ rfl rfl

/-! ## The invariant of the ring -/

/-- The Sends that have not completed use contexts in use, in the order of the ring. -/
structure RingInv (b : ScBuffer) : Prop where
  head : b.scHead ≤ b.scLast
  tail : b.scTail ≤ b.scLast
  posted : (b.posted.map Prod.fst).Sublist b.held
  count : ∀ i ∈ b.held, (b.ctxs i).mapped.length = (b.ctxs i).unmapCount

theorem RingInv.used_le (h : RingInv b) : b.used ≤ b.scLast := by
  have hh := h.head
  unfold ScBuffer.used
  split <;> omega

theorem RingInv.held_nodup (h : RingInv b) : b.held.Nodup :=
  walk_nodup h.tail (Nat.le_succ_of_le h.used_le)

theorem init_ringInv (last : Nat) : RingInv (.init last) :=
  ⟨Nat.zero_le _, Nat.zero_le _, nil_sublist _, by simp [ScBuffer.held, ScBuffer.used,
    ScBuffer.init, walk]⟩

/-- A context that is handed out joins those in use at the end. -/
theorem held_of_get (h : RingInv b) (hi : sendctxGetLocked b = some i) (r : Dma × SendCtx × Bool)
    (post : Option Bool) :
    (prepareAndPost b i r post).held = b.held ++ [i] ∧ i ∉ b.held ∧ i ≤ b.scLast := by
  have hh := h.head
  have ht := h.tail
  unfold sendctxGetLocked at hi
  dsimp only at hi
  split at hi
  · cases hi
  next hne =>
    cases hi
    have hused : (prepareAndPost b (sendctxNext b.scLast b.scHead) r post).used = b.used + 1 := by
      simp only [prepareAndPost, ScBuffer.used]
      unfold sendctxNext at hne ⊢
      repeat' split
      all_goals split at hne
      all_goals omega
    have hend : ringAdd b.scLast b.scTail (b.used + 1) = sendctxNext b.scLast b.scHead := by
      unfold ringAdd ScBuffer.used sendctxNext
      repeat' split
      all_goals omega
    have hheld : (prepareAndPost b (sendctxNext b.scLast b.scHead) r post).held =
        b.held ++ [sendctxNext b.scLast b.scHead] := by
      rw [ScBuffer.held, hused]
      exact (walk_succ ht h.used_le).trans (by rw [hend]; rfl)
    refine ⟨hheld, ?_, sendctxNext_le _ _⟩
    have hnodup : (b.held ++ [sendctxNext b.scLast b.scHead]).Nodup := by
      rw [← hend]
      exact (walk_succ ht h.used_le) ▸ walk_nodup ht (Nat.succ_le_succ h.used_le)
    exact fun hmem => disjoint_of_nodup_append hnodup hmem (mem_singleton_self _)

theorem sublist_of_cons_sublist_append {as bs l : List Nat} {a : Nat} (ha : a ∉ as)
    (h : (a :: l).Sublist (as ++ a :: bs)) : l.Sublist bs := by
  induction as with
  | nil => exact cons_sublist_cons.mp h
  | cons x as ih =>
    simp only [mem_cons, not_or] at ha
    cases h with
    | cons _ h => exact ih ha.2 h
    | cons_cons _ _ => exact absurd rfl ha.1

variable {rest : List (Nat × Bool)}

/-- The contexts that a completion releases, and those it leaves. -/
theorem nextSignaled_split (h : RingInv b) (hn : b.nextSignaled = some (i, rest)) :
    ∃ as bs, b.held = as ++ i :: bs ∧ i ∉ as ∧ (rest.map Prod.fst).Sublist bs := by
  unfold ScBuffer.nextSignaled at hn
  split at hn
  · cases hn
  next p ps hdrop =>
    simp only [Option.some.injEq, Prod.mk.injEq] at hn
    obtain ⟨rfl, rfl⟩ := hn
    have hsub : ((p :: ps).map Prod.fst).Sublist b.held := by
      rw [← hdrop]
      exact ((dropWhile_suffix _).sublist.map _).trans h.posted
    have hmem : p.1 ∈ b.held := hsub.subset (by simp)
    obtain ⟨as, bs, heq⟩ := append_of_mem hmem
    have hnodup := h.held_nodup
    rw [heq] at hnodup hsub
    have hnot : p.1 ∉ as := fun hp =>
      disjoint_of_nodup_append hnodup hp mem_cons_self
    exact ⟨as, bs, heq, hnot, sublist_of_cons_sublist_append hnot hsub⟩

/-- A completion releases the contexts up to its own: its walk ends there within one lap,
and unmaps all of them. -/
theorem sendctxPutLocked_eq (h : RingInv b) (hheld : b.held = as ++ i :: bs) (hi : i ∉ as) :
    sendctxPutLocked b i = some { b with
      scTail := i
      dma := { b.dma with
        unmapped := b.dma.unmapped ++ (as ++ [i]).flatMap fun j => (b.ctxs j).mapped } } := by
  have hlen : as.length < b.scLast + 1 := by
    have := congrArg List.length hheld
    simp only [ScBuffer.held, walk_length, length_append, length_cons] at this
    have := h.used_le
    omega
  rw [sendctxPutLocked, putWalk_eq b.dma hheld hi hlen]
  rfl

/-- The ring after the release of the contexts `as` and `i`. -/
def releaseUpTo (b : ScBuffer) (as : List Nat) (i : Nat) (rest : List (Nat × Bool)) : ScBuffer :=
  { b with
    scTail := i
    posted := rest
    dma := { b.dma with
      unmapped := b.dma.unmapped ++ (as ++ [i]).flatMap fun j => (b.ctxs j).mapped } }

theorem scStep_complete (h : RingInv b) (hn : b.nextSignaled = some (i, rest))
    (hheld : b.held = as ++ i :: bs) (hi : i ∉ as) :
    scStep b .complete = releaseUpTo b as i rest := by
  simp only [scStep, hn, sendctxPutLocked_eq h hheld hi]
  rfl

theorem held_releaseUpTo (h : RingInv b) (hheld : b.held = as ++ i :: bs)
    (rest : List (Nat × Bool)) :
    (releaseUpTo b as i rest).held = bs ∧ i ≤ b.scLast := by
  have hlen : b.used = as.length + 1 + bs.length := by
    have := congrArg List.length hheld
    simp only [ScBuffer.held, walk_length, length_append, length_cons] at this
    omega
  have hle := h.used_le
  have hh := h.head
  have ht := h.tail
  have hpos : ringAdd b.scLast b.scTail (as.length + 1) = i := by
    have hget : b.held[as.length]? = some i := by rw [hheld]; simp
    rw [ScBuffer.held, walk_eq_map ht (Nat.le_succ_of_le hle)] at hget
    simpa [List.getElem?_range (by omega : as.length < b.used)] using hget
  have hused : (releaseUpTo b as i rest).used = bs.length := by
    simp only [releaseUpTo, ScBuffer.used, ← hpos]
    unfold ScBuffer.used at hlen hle
    unfold ringAdd
    repeat' split
    all_goals split at hlen
    all_goals omega
  refine ⟨?_, ?_⟩
  · rw [ScBuffer.held, hused]
    exact (walk_split hheld).symm
  · rw [← hpos]
    unfold ringAdd
    split <;> omega

theorem scStep_ringInv {a : ScAction} (h : RingInv b) : RingInv (scStep b a) := by
  cases a with
  | sendRequest env hdr xdr rtype post =>
    simp only [scStep]
    split
    · exact h
    next i hi =>
      have hprep := rpcrdmaPrepareSendSges_prepared env hdr xdr rtype b.dma
      generalize rpcrdmaPrepareSendSges env hdr xdr rtype b.dma = r at hprep ⊢
      obtain ⟨hheld, hnot, hle⟩ := held_of_get h hi r post
      refine ⟨hle, h.tail, ?_, fun j hj => ?_⟩
      · rw [hheld]
        simp only [prepareAndPost]
        split
        · split
          · rw [map_append]
            exact h.posted.append (List.Sublist.refl _)
          · exact h.posted.trans (sublist_append_left _ _)
        · exact h.posted.trans (sublist_append_left _ _)
      · rw [hheld, mem_append, mem_singleton] at hj
        by_cases hji : j = i
        · subst hji
          simp [prepareAndPost, hprep.mapped]
        · simpa [prepareAndPost, hji] using h.count j (hj.resolve_right hji)
  | complete =>
    simp only [scStep]
    split
    · exact h
    next i rest hn =>
      obtain ⟨as, bs, hheld, hi, hrest⟩ := nextSignaled_split h hn
      have heq := scStep_complete h hn hheld hi
      simp only [scStep, hn] at heq
      rw [heq]
      obtain ⟨hbs, hle⟩ := held_releaseUpTo h hheld rest
      refine ⟨h.head, hle, ?_, fun j hj => h.count j ?_⟩
      · rw [hbs]
        exact hrest
      · rw [hbs] at hj
        rw [hheld]
        simp [hj]

/-! ## Mappings over runs -/

/-- Mappings that the contexts in use still have. -/
def ScBuffer.heldMaps (b : ScBuffer) : List Nat :=
  (b.held.filter fun i => !(b.ctxs i).failed).flatMap fun i => (b.ctxs i).mapped

/-- Every mapping ever made is either still held by a context in use or has been unmapped,
and that once. -/
def ScBuffer.Accounted (b : ScBuffer) : Prop :=
  (b.dma.unmapped ++ b.heldMaps).Perm (List.range b.dma.next)

/-- No context is handed out while a Send uses it, and a completion comes to its context
within one lap. -/
def RingSafe (b : ScBuffer) : ScAction → Prop
  | .sendRequest .. => ∀ i, sendctxGetLocked b = some i → ∀ signaled, (i, signaled) ∉ b.posted
  | .complete => ∀ i rest, b.nextSignaled = some (i, rest) →
      ∃ b', sendctxPutLocked b i = some b' ∧ b'.scTail = i

/-- The contexts from the tail up to that of the Send that completes. -/
def ScBuffer.released (b : ScBuffer) : List Nat :=
  match b.nextSignaled with
  | none => []
  | some (i, _) => b.held.takeWhile (· ≠ i) ++ [i]

/-- A completion goes over no context whose preparation failed after a mapping. -/
def WalksNoFailed (b : ScBuffer) : ScAction → Prop
  | .sendRequest .. => True
  | .complete => ∀ i ∈ b.released, (b.ctxs i).failed → (b.ctxs i).unmapCount = 0

theorem ringSafe (h : RingInv b) (a : ScAction) : RingSafe b a := by
  cases a with
  | sendRequest env hdr xdr rtype post =>
    intro i hi signaled hmem
    obtain ⟨-, hnot, -⟩ := held_of_get h hi ({}, {}, true) none
    exact hnot (h.posted.subset (mem_map_of_mem hmem))
  | complete =>
    intro i rest hn
    obtain ⟨as, bs, hheld, hi, -⟩ := nextSignaled_split h hn
    exact ⟨_, sendctxPutLocked_eq h hheld hi, rfl⟩

/-- A preparation adds its mappings to those that are held, or unmaps them. -/
theorem accounted_sendRequest (h : RingInv b) (hg : b.Accounted) (hi : sendctxGetLocked b = some i)
    {r : Dma × SendCtx × Bool} (hr : Prepared b.dma r) (post : Option Bool) :
    (prepareAndPost b i r post).Accounted := by
  obtain ⟨hheld, hnot, -⟩ := held_of_get h hi r post
  -- the other contexts keep their mappings
  have hold : ∀ j ∈ b.held, (prepareAndPost b i r post).ctxs j = b.ctxs j := by
    intro j hj
    have hne : j ≠ i := by
      rintro rfl
      exact hnot hj
    exact Function.update_of_ne hne _ _
  have hmaps : (prepareAndPost b i r post).heldMaps =
      b.heldMaps ++ if r.2.1.failed then [] else r.2.1.mapped := by
    have hnew : (prepareAndPost b i r post).ctxs i = r.2.1 := Function.update_self _ _ _
    rw [ScBuffer.heldMaps, hheld, filter_append, flatMap_append]
    congr 1
    · rw [filter_congr fun j hj => by rw [hold j hj]]
      exact flatMap_congr fun j hj => by rw [hold j (mem_of_mem_filter hj)]
    · by_cases hf : r.2.1.failed <;> simp [hnew, hf]
  have hrange : List.range r.1.next = List.range b.dma.next ++ r.2.1.mapped := by
    rw [hr.next, hr.mapped, range_add]
    simp [List.range'_eq_map_range]
  show (r.1.unmapped ++ (prepareAndPost b i r post).heldMaps).Perm (List.range r.1.next)
  rw [hmaps, hr.unmapped, hrange]
  by_cases hf : r.2.1.failed
  · simp only [hf, if_true, append_nil, append_assoc]
    refine (List.Perm.append_left _ perm_append_comm).trans ?_
    rw [← append_assoc]
    exact hg.append_right _
  · simp only [hf, Bool.false_eq_true, if_false, append_nil]
    rw [← append_assoc]
    exact hg.append_right _

/-- Leaving out elements leaves out nothing of their lists only if these are empty. -/
theorem flatMap_filter_perm_iff {l : List Nat} {p : Nat → Bool} {f : Nat → List Nat} :
    (l.flatMap f).Perm ((l.filter p).flatMap f) ↔ ∀ j ∈ l, p j = false → f j = [] := by
  have hle (l : List Nat) : ((l.filter p).flatMap f).length ≤ (l.flatMap f).length := by
    induction l with
    | nil => simp
    | cons j l ih =>
      by_cases hp : p j <;> simp only [filter_cons, hp, flatMap_cons, length_append,
        if_true, Bool.false_eq_true, if_false] <;> omega
  constructor
  · intro h
    replace h := h.length_eq
    induction l with
    | nil => simp
    | cons j l ih =>
      have hl := hle l
      by_cases hp : p j
      · simp only [filter_cons, hp, if_true, flatMap_cons, length_append] at h
        simpa [hp] using ih (by omega)
      · simp only [filter_cons, hp, Bool.false_eq_true, if_false, flatMap_cons,
          length_append] at h
        have hj : f j = [] := eq_nil_of_length_eq_zero (by omega)
        simpa [hp, hj] using ih (by omega)
  · intro h
    suffices (l.filter p).flatMap f = l.flatMap f by rw [this]
    induction l with
    | nil => rfl
    | cons j l ih =>
      have hl := ih fun k hk => h k (mem_cons_of_mem _ hk)
      by_cases hp : p j
      · simp [hp, hl]
      · have hj := h j mem_cons_self (by simpa using hp)
        simp [hp, hl, hj]

theorem released_eq (hn : b.nextSignaled = some (i, rest)) (hheld : b.held = as ++ i :: bs)
    (hi : i ∉ as) : b.released = as ++ [i] := by
  have htake : as.takeWhile (fun j => decide (j ≠ i)) = as :=
    takeWhile_eq_self_iff.mpr fun j hj => by
      simp only [ne_eq, decide_not, Bool.not_eq_eq_eq_not, Bool.not_true, decide_eq_false_iff_not]
      rintro rfl
      exact hi hj
  simp only [ScBuffer.released, hn, hheld]
  rw [takeWhile_append, htake]
  simp

/-- A completion keeps the account exactly if it goes over no context that the error path
has unmapped already. -/
theorem accounted_complete_iff (h : RingInv b) (hg : b.Accounted) :
    (scStep b .complete).Accounted ↔ WalksNoFailed b .complete := by
  cases hn : b.nextSignaled with
  | none => simpa [scStep, hn, WalksNoFailed, ScBuffer.released] using hg
  | some r =>
    obtain ⟨i, rest⟩ := r
    obtain ⟨as, bs, hheld, hi, -⟩ := nextSignaled_split h hn
    rw [scStep_complete h hn hheld hi]
    have hbs := (held_releaseUpTo h hheld rest).1
    have hsplit : b.held = (as ++ [i]) ++ bs := by simp [hheld]
    have hcount : ∀ j ∈ as ++ [i], (b.ctxs j).mapped = [] ↔ (b.ctxs j).unmapCount = 0 := by
      intro j hj
      rw [← h.count j (hsplit ▸ mem_append_left _ hj), length_eq_zero_iff]
    have hiff : (releaseUpTo b as i rest).Accounted ↔
        ((as ++ [i]).flatMap fun j => (b.ctxs j).mapped).Perm
          (((as ++ [i]).filter fun j => !(b.ctxs j).failed).flatMap
            fun j => (b.ctxs j).mapped) := by
      have hg' : (b.dma.unmapped ++ b.heldMaps).Perm (List.range b.dma.next) := hg
      rw [ScBuffer.heldMaps, hsplit, filter_append, flatMap_append,
        ← append_assoc] at hg'
      rw [ScBuffer.Accounted, ScBuffer.heldMaps, hbs]
      show ((b.dma.unmapped ++ (as ++ [i]).flatMap fun j => (b.ctxs j).mapped) ++
        (bs.filter fun j => !(b.ctxs j).failed).flatMap fun j => (b.ctxs j).mapped).Perm
          (List.range b.dma.next) ↔ _
      rw [← List.Perm.congr_right hg', perm_append_right_iff, perm_append_left_iff]
    rw [hiff, flatMap_filter_perm_iff, WalksNoFailed, released_eq hn hheld hi]
    refine forall_congr' fun j => forall_congr' fun hj => ?_
    rw [hcount j hj]
    simp

theorem accounted_step_iff (h : RingInv b) (hg : b.Accounted) (a : ScAction) :
    (scStep b a).Accounted ↔ WalksNoFailed b a := by
  cases a with
  | sendRequest env hdr xdr rtype post =>
    refine iff_of_true ?_ trivial
    simp only [scStep]
    split
    · exact hg
    next i hi =>
      exact accounted_sendRequest h hg hi (rpcrdmaPrepareSendSges_prepared env hdr xdr rtype _) post
  | complete => exact accounted_complete_iff h hg

/-- In every run the ring is safe, and every mapping is unmapped once exactly if no completion
goes over a context that failed after a mapping. -/
theorem sendctx_ring_every_run (last : Nat) (as : List ScAction) :
    (Run.Steps scStep RingSafe (.init last) as ∧
      ∀ b ∈ Run.states scStep (.init last) as, b.Accounted) ↔
    Run.Steps scStep WalksNoFailed (.init last) as := by
  have hinv (b : ScBuffer) (a : ScAction) (h : RingInv b) (_ : True) : RingInv (scStep b a) :=
    scStep_ringInv h
  have hrun : Run.Steps scStep (fun _ _ => True) (.init last) as := Run.steps_true _ as
  have hsafe : Run.Steps scStep RingSafe (.init last) as :=
    hrun.each hinv (fun b a h _ => ringSafe h a) (init_ringInv last)
  have hstart : (ScBuffer.init last).Accounted := by
    simp [ScBuffer.Accounted, ScBuffer.heldMaps, ScBuffer.held, ScBuffer.used, ScBuffer.init, walk]
  have hiff := Run.forall_states_iff hinv
    (fun b a h _ hg => accounted_step_iff h hg a) (init_ringInv last) hstart hrun
  exact ⟨fun h => hiff.mp h.2, fun h => ⟨hsafe, hiff.mpr h⟩⟩

/-- A call whose page list is two bytes across a page boundary. -/
def twoPages : XdrBuf :=
  { head := [], headBase := 0, pages := fun _ _ => 0, pageBase := 4095, pageLen := 2, tail := [],
    tailBase := 0 }

/-- The second page of a first call cannot be mapped; the completion of the next call's
Send unmaps the first page again. -/
def failedThenSent : List ScAction :=
  [.sendRequest { mapOk := fun n => n ≠ 3 } [] twoPages .noch none,
   .sendRequest {} [] twoPages .noch (some true), .complete]

theorem failed_context_unmapped_twice :
    ¬ (Run.Steps scStep RingSafe (.init 3) failedThenSent ∧
      ∀ b ∈ Run.states scStep (.init 3) failedThenSent, b.Accounted) := by
  rintro ⟨-, h⟩
  have hlast := h _ (Run.final_mem_states _ _)
  have hnot : ¬ ((Run.final scStep (.init 3) failedThenSent).dma.unmapped ++
      (Run.final scStep (.init 3) failedThenSent).heldMaps).Perm
        (List.range (Run.final scStep (.init 3) failedThenSent).dma.next) := by
    decide +kernel
  exact hnot hlast

end Xprtrdma
