-- SUMMARY: When a received message is handled by its bytes alone.
import OfaKernel.Xprtrdma.ReplyHandler

/-!
# What a reply is read from

The words that tell a backchannel call are peeked at without a check, and what the upper layer is
shown follows its own lengths. A message is handled by its bytes alone exactly if it reaches
neither.
-/

open List

namespace Xprtrdma.Reply

/-! ## Specification -/

/-- Two receive buffers agree on the bytes received. -/
def Agree (n : Nat) (mem mem' : Mem) : Prop := ∀ k < n, mem k = mem' k

/-- Whatever lies behind the message in the buffer, the outcome is the same. -/
def ByReceived (x : Xprt) (n : Nat) (mem : Mem) : Prop :=
  ∀ mem₁ mem₂, Agree n mem mem₁ → Agree n mem mem₂ →
    rpcrdmaReplyHandler x n mem₁ = rpcrdmaReplyHandler x n mem₂

/-- Behind its fixed header a backchannel call has no chunks, the XID again, and the direction. -/
def callPattern (xid : List UInt8) : List UInt8 := xdrZero ++ xdrZero ++ xdrZero ++ xid ++ rpcCall

/-- A message of version one with a fixed header that says `RDMA_MSG`. -/
def IsMsg (n : Nat) (mem : Mem) : Prop :=
  16 ≤ n ∧ wordAt mem 4 = rpcrdmaVersion ∧ wordAt mem 12 = rdmaMsg

/-- Up to position `n` the bytes behind the fixed header are those of a backchannel call. -/
def LooksLikeCall (n : Nat) (mem : Mem) : Prop :=
  ∀ k < 20, 16 + k < n → (callPattern (wordAt mem 0))[k]? = some (mem (16 + k))

/-- A message that ends before the peek does, and does not settle it. -/
def OpenPeek (n : Nat) (mem : Mem) : Prop := IsMsg n mem ∧ n < 36 ∧ LooksLikeCall n mem

/-- The inline bytes of a reply in the head, and in the pages. -/
def inHead (rqst : Rqst) (rpclen : Nat) : Nat := min rqst.headLen rpclen

def inPages (rqst : Rqst) (rpclen : Nat) : Nat := min rqst.pageLen (rpclen - inHead rqst rpclen)

def tailBase (rqst : Rqst) (base rpclen pad : Nat) : Option Nat :=
  if rpclen - inHead rqst rpclen - inPages rqst rpclen ≠ 0 ∨ pad ≠ 0 then
    some (base + inHead rqst rpclen + inPages rqst rpclen -
      if inPages rqst rpclen ≠ 0 then pad else 0)
  else none

/-- Head, pages and tail of a reply of `status` bytes show no byte behind the message. -/
structure WithinReceived (n : Nat) (rqst : Rqst) (base rpclen pad status : Nat) : Prop where
  head : base + min status rqst.headLen ≤ n
  pages : 0 < min (status - rqst.headLen) (inPages rqst rpclen) →
    base + inHead rqst rpclen + min (status - rqst.headLen) (inPages rqst rpclen) ≤ n
  tail : ∀ p ∈ tailBase rqst base rpclen pad,
    pad < min (status - rqst.headLen - rqst.pageLen) rqst.tailLen →
      p + min (status - rqst.headLen - rqst.pageLen) rqst.tailLen ≤ n

/-- A reply for a waiting request, with its inline part at `base` and a write list of so many bytes.
-/
structure InlineReply (x : Xprt) (n : Nat) (mem : Mem) (rqst : Rqst)
    (base writelist : Nat) : Prop where
  msg : IsMsg n mem
  notCall : ¬ LooksLikeCall 36 mem
  lookup : x.lookup (wordAt mem 0) = some rqst
  decode : ∃ rest, decodeChunkLists (wordsFrom n mem 16) = some (writelist, 0, rest) ∧
    base = 16 + 4 * ((wordsFrom n mem 16).length - rest.length)

/-- The message is handled without a look behind it. -/
structure ReadsReceived (x : Xprt) (n : Nat) (mem : Mem) : Prop where
  peek : ¬ OpenPeek n mem
  call : IsMsg n mem → LooksLikeCall 36 mem → x.bcRqst → 28 + x.remaining n 28 ≤ n
  reply : ∀ rqst base writelist, InlineReply x n mem rqst base writelist →
    ∀ status, I32.wrap (x.remaining n base + xdrAlignSize writelist : Nat) = (status : Nat) →
      WithinReceived n rqst base (x.remaining n base) (writelist % 4) status

section

variable {x : Xprt} {n : Nat} {mem mem' : Mem}

theorem Agree.wordAt (h : Agree n mem mem') {p : Nat} (hp : p + 4 ≤ n) :
    wordAt mem p = wordAt mem' p := by
  unfold Reply.wordAt
  rw [h p (by omega), h (p + 1) (by omega), h (p + 2) (by omega), h (p + 3) (by omega)]

theorem Agree.isMsg (h : Agree n mem mem') : IsMsg n mem ↔ IsMsg n mem' := by
  unfold IsMsg
  refine and_congr_right fun hn => ?_
  rw [h.wordAt (show 4 + 4 ≤ n by omega), h.wordAt (show 12 + 4 ≤ n by omega)]

theorem Agree.wordsFrom (h : Agree n mem mem') (p : Nat) :
    wordsFrom n mem p = wordsFrom n mem' p := by
  unfold Reply.wordsFrom
  refine map_congr_left fun i hi => ?_
  have hi := mem_range.mp hi
  rw [h.wordAt (by omega)]

theorem Agree.looksLikeCall (h : Agree n mem mem') (hn : 16 ≤ n) :
    LooksLikeCall n mem ↔ LooksLikeCall n mem' := by
  unfold LooksLikeCall
  rw [h.wordAt (show 0 + 4 ≤ n by omega)]
  exact forall_congr' fun k => forall_congr' fun _ => forall_congr' fun hk => by rw [h _ hk]

/-- The five words that are compared are those of the pattern. -/
theorem looksLikeCall_iff : LooksLikeCall 36 mem ↔
    wordAt mem 16 = xdrZero ∧ wordAt mem 20 = xdrZero ∧ wordAt mem 24 = xdrZero ∧
      wordAt mem 28 = wordAt mem 0 ∧ wordAt mem 32 = rpcCall := by
  have hlist : LooksLikeCall 36 mem ↔
      (List.range 20).map (fun k => mem (16 + k)) = callPattern (wordAt mem 0) := by
    unfold LooksLikeCall
    have hlen : (callPattern (wordAt mem 0)).length = 20 := rfl
    constructor
    · intro h
      refine ext_getElem? fun k => ?_
      by_cases hk : k < 20
      · rw [List.getElem?_map, List.getElem?_range hk, h k hk (by omega)]
        rfl
      · rw [List.getElem?_eq_none (by simpa using hk), List.getElem?_eq_none (by omega)]
    · intro h k hk _
      rw [← h, List.getElem?_map, List.getElem?_range hk]
      rfl
  rw [hlist]
  simp only [List.range, List.range.loop, map_cons, map_nil, callPattern, xdrZero, rpcCall, wordAt,
    cons_append, nil_append, List.cons.injEq, and_true]
  norm_num
  tauto

theorem rpcrdmaIsBcall_eq (xid proc : List UInt8) (hxid : xid = wordAt mem 0) :
    rpcrdmaIsBcall x n mem 16 xid proc =
      open Classical in
      if proc = rdmaMsg ∧ LooksLikeCall 36 mem then
        some (if 28 ≤ n then bcReceiveCall x n mem 28 else .shortCall)
      else none := by
  subst hxid
  rw [looksLikeCall_iff]
  unfold rpcrdmaIsBcall
  split_ifs <;> simp_all

/-- The pages get the bytes from `srcp` on, one after the other. -/
theorem fixupPages_eq {npages page pageBase srcp len : Nat} {pages : Nat → Option UInt8}
    (hbase : pageBase < pageSize)
    (hnpages : (pageBase + len + pageSize - 1) / pageSize ≤ npages) (a : Nat) :
    fixupPages mem npages page pageBase srcp len pages a =
      if page * pageSize + pageBase ≤ a ∧ a < page * pageSize + pageBase + len then
        some (mem (srcp + (a - (page * pageSize + pageBase))))
      else pages a := by
  induction npages generalizing page pageBase srcp len pages with
  | zero =>
    have hlen : len = 0 := by
      unfold pageSize at *
      omega
    subst hlen
    rw [fixupPages, if_neg (by omega)]
  | succ npages ih =>
    rw [fixupPages]
    generalize hcur : min (pageSize - pageBase) len = curlen
    split
    next hend =>
      obtain rfl : curlen = len := by omega
      rfl
    next hmore =>
      have hcur' : curlen = pageSize - pageBase := by omega
      have hnext : (page + 1) * pageSize + 0 = page * pageSize + pageBase + curlen := by
        rw [Nat.succ_mul]
        omega
      rw [ih (by decide) (by unfold pageSize at *; omega), hnext]
      by_cases hrest : page * pageSize + pageBase + curlen ≤ a ∧
          a < page * pageSize + pageBase + curlen + (len - curlen)
      · rw [if_pos hrest, if_pos (by omega)]
        congr 2
        omega
      · rw [if_neg hrest]
        by_cases hfirst : page * pageSize + pageBase ≤ a ∧ a < page * pageSize + pageBase + curlen
        · rw [if_pos hfirst, if_pos (by omega)]
        · rw [if_neg hfirst, if_neg (by omega)]

variable {rqst : Rqst} {base rpclen pad : Nat}

theorem inlineFixup_pages (a : Nat) : (rpcrdmaInlineFixup mem rqst base rpclen pad).pages a =
    if rqst.pageBase ≤ a ∧ a < rqst.pageBase + inPages rqst rpclen then
      some (mem (base + inHead rqst rpclen + (a - rqst.pageBase)))
    else none := by
  have hlinear : rqst.pageBase / pageSize * pageSize + rqst.pageBase % pageSize =
    rqst.pageBase := by
    rw [Nat.mul_comm]
    exact Nat.div_add_mod _ _
  unfold rpcrdmaInlineFixup
  dsimp only
  by_cases h : rpclen - min rqst.headLen rpclen ≠ 0 ∧ rqst.pageLen ≠ 0
  · rw [if_pos h, if_pos h, fixupPages_eq (Nat.mod_lt _ (by decide)) (Nat.le_refl _), hlinear]
    rfl
  · have hzero : inPages rqst rpclen = 0 := by
      unfold inPages inHead
      omega
    rw [if_neg h, hzero, if_neg (by omega)]

theorem inlineFixup_tailBase :
    (rpcrdmaInlineFixup mem rqst base rpclen pad).tailBase = tailBase rqst base rpclen pad := by
  unfold rpcrdmaInlineFixup tailBase
  dsimp only
  by_cases h : rpclen - min rqst.headLen rpclen ≠ 0 ∧ rqst.pageLen ≠ 0
  · have hin : min rqst.pageLen (rpclen - min rqst.headLen rpclen) = inPages rqst rpclen := rfl
    have hne : inPages rqst rpclen ≠ 0 := by
      unfold inPages inHead
      omega
    rw [if_pos h, if_pos h, if_pos hne, hin]
    rfl
  · have hzero : inPages rqst rpclen = 0 := by
      unfold inPages inHead
      omega
    rw [if_neg h, if_neg h, hzero]
    rfl

theorem map_append_eq_iff {α β : Type} {l : List α} {f g : α → β} {r r' : List β} :
    l.map f ++ r = l.map g ++ r' ↔ (∀ a ∈ l, f a = g a) ∧ r = r' := by
  constructor
  · intro h
    obtain ⟨hl, hr⟩ := append_inj h (by rw [length_map, length_map])
    exact ⟨map_inj_left.mp hl, hr⟩
  · rintro ⟨hl, rfl⟩
    rw [map_congr_left hl]

theorem mem_drop_range {m k a : Nat} : a ∈ (List.range m).drop k ↔ k ≤ a ∧ a < m := by
  rw [mem_drop_iff_getElem]
  constructor
  · rintro ⟨i, hi, rfl⟩
    rw [getElem_range]
    rw [length_range] at hi
    omega
  · rintro ⟨hk, hm⟩
    exact ⟨a - k, by rw [length_range]; omega, by rw [getElem_range]; omega⟩

/-- The upper layer sees the same exactly if the bytes of head, pages and tail that it is shown
agree. -/
theorem shown_eq_iff {status : Nat} :
    shown mem rqst (rpcrdmaInlineFixup mem rqst base rpclen pad) pad status =
      shown mem' rqst (rpcrdmaInlineFixup mem' rqst base rpclen pad) pad status ↔
    (∀ i < min status rqst.headLen, mem (base + i) = mem' (base + i)) ∧
    (∀ i < min (status - rqst.headLen) (inPages rqst rpclen),
      mem (base + inHead rqst rpclen + i) = mem' (base + inHead rqst rpclen + i)) ∧
    ∀ p ∈ tailBase rqst base rpclen pad,
      ∀ i < min (status - rqst.headLen - rqst.pageLen) rqst.tailLen, pad ≤ i →
      mem (p + i) = mem' (p + i) := by
  have hin : inPages rqst rpclen ≤ rqst.pageLen := Nat.min_le_left _ _
  unfold shown
  rw [inlineFixup_tailBase, inlineFixup_tailBase, append_assoc, append_assoc]
  have hhead : (rpcrdmaInlineFixup mem' rqst base rpclen pad).headBase =
      (rpcrdmaInlineFixup mem rqst base rpclen pad).headBase := rfl
  rw [hhead, map_append_eq_iff, map_append_eq_iff, map_inj_left]
  refine and_congr ?_ (and_congr ?_ ?_)
  · simp only [mem_range, Option.some.injEq]
    rfl
  · simp only [mem_range, inlineFixup_pages, Nat.le_add_right, true_and, Nat.add_lt_add_iff_left,
      Nat.add_sub_cancel_left]
    constructor
    · intro h i hi
      have := h i (by omega)
      rwa [if_pos (by omega), if_pos (by omega), Option.some.injEq] at this
    · intro h i hi
      by_cases hlt : i < inPages rqst rpclen
      · rw [if_pos hlt, if_pos hlt, h i (by omega)]
      · rw [if_neg hlt, if_neg hlt]
  · cases htail : tailBase rqst base rpclen pad with
    | none => simp
    | some p =>
      simp only [mem_drop_range, Option.map_some, Option.some.injEq,
        Option.mem_some_iff, forall_eq']
      exact forall_congr' fun i => ⟨fun h hi hp => h ⟨hp, hi⟩, fun h hi => h hi.2 hi.1⟩

theorem LooksLikeCall.mono {m : Nat} (h : LooksLikeCall m mem) (hn : n ≤ m) : LooksLikeCall n mem :=
  fun k hk hlt => h k hk (by omega)

/-- A peek that the message settles gives the same for both buffers. -/
theorem looksLikeCall_congr (h : Agree n mem mem') (hmsg : IsMsg n mem) (hpeek : ¬ OpenPeek n mem) :
    LooksLikeCall 36 mem ↔ LooksLikeCall 36 mem' := by
  by_cases hn : 36 ≤ n
  · have hagree : Agree 36 mem mem' := fun k hk => h k (by omega)
    exact hagree.looksLikeCall (by decide)
  · have hno : ¬ LooksLikeCall n mem := fun hcall => hpeek ⟨hmsg, by omega, hcall⟩
    refine iff_of_false (fun hcall => hno (hcall.mono (by omega))) fun hcall => hno ?_
    exact (h.looksLikeCall hmsg.1).mpr (hcall.mono (by omega))

theorem handler_call (hmsg : IsMsg n mem) (hcall : LooksLikeCall 36 mem) :
    rpcrdmaReplyHandler x n mem = if 28 ≤ n then bcReceiveCall x n mem 28 else .shortCall := by
  obtain ⟨hn, hvers, hproc⟩ := hmsg
  unfold rpcrdmaReplyHandler
  rw [if_neg (by omega), if_neg (by omega)]
  dsimp only
  rw [if_neg (not_not.mpr hvers), rpcrdmaIsBcall_eq _ _ rfl, if_pos ⟨hproc, hcall⟩]

/-- The fields of the header that a reply is matched by. -/
theorem handler_notCall (hn : 16 ≤ n) (hvers : wordAt mem 4 = rpcrdmaVersion)
    (hcall : ¬ (wordAt mem 12 = rdmaMsg ∧ LooksLikeCall 36 mem)) :
    rpcrdmaReplyHandler x n mem =
      match x.lookup (wordAt mem 0) with
      | none => .repost .noRqst
      | some rqst =>
        .reply rqst.id
          (if be32 (wordAt mem 8) = 0 then 1 else min (be32 (wordAt mem 8)) x.maxRequests)
          (rpcrdmaCompleteRqst x n mem 16 (wordAt mem 12) rqst).1
          (rpcrdmaCompleteRqst x n mem 16 (wordAt mem 12) rqst).2 := by
  unfold rpcrdmaReplyHandler
  rw [if_neg (by omega), if_neg (by omega)]
  dsimp only
  rw [if_neg (not_not.mpr hvers)]
  have hnone : rpcrdmaIsBcall x n mem 16 (wordAt mem 0) (wordAt mem 12) = none :=
    (rpcrdmaIsBcall_eq _ _ rfl).trans (if_neg hcall)
  generalize rpcrdmaIsBcall x n mem 16 (wordAt mem 0) (wordAt mem 12) = bcall at hnone ⊢
  cases hnone
  rfl

theorem base_le {writelist replychunk : Nat} {rest : List Nat}
    (_ : decodeChunkLists (wordsFrom n mem 16) = some (writelist, replychunk, rest)) (hn : 16 ≤ n) :
    16 + 4 * ((wordsFrom n mem 16).length - rest.length) ≤ n := by
  have hlen : (wordsFrom n mem 16).length = (n - 16) / 4 := by
    unfold wordsFrom
    rw [length_map, length_range]
  omega

/-- An inline reply that shows the message only is completed in the same way. -/
theorem completeRqst_congr (h : Agree n mem mem')
    (hwithin : ∀ writelist rest, decodeChunkLists (wordsFrom n mem 16) = some (writelist, 0, rest) →
      let base := 16 + 4 * ((wordsFrom n mem 16).length - rest.length)
      ∀ status, I32.wrap (x.remaining n base + xdrAlignSize writelist : Nat) = (status : Nat) →
        WithinReceived n rqst base (x.remaining n base) (writelist % 4) status) :
    rpcrdmaCompleteRqst x n mem 16 rdmaMsg rqst = rpcrdmaCompleteRqst x n mem' 16 rdmaMsg rqst := by
  have hdecode : rpcrdmaDecodeMsg x n mem 16 rqst = rpcrdmaDecodeMsg x n mem' 16 rqst := by
    unfold rpcrdmaDecodeMsg
    rw [← h.wordsFrom 16]
    cases hlists : decodeChunkLists (wordsFrom n mem 16) with
    | none => rfl
    | some lists =>
      obtain ⟨writelist, replychunk, rest⟩ := lists
      dsimp only
      by_cases hchunk : replychunk = 0
      swap
      · rw [if_pos hchunk, if_pos hchunk]
      subst hchunk
      simp only [ne_eq, not_true_eq_false, if_false]
      by_cases hneg : I32.wrap (x.remaining n
        (16 + 4 * ((wordsFrom n mem 16).length - rest.length)) +
          xdrAlignSize writelist : Nat) < 0
      · rw [if_pos hneg, if_pos hneg]
      rw [if_neg hneg, if_neg hneg]
      obtain ⟨hhead, hpages, htail⟩ :=
        hwithin writelist rest hlists _ (Int.toNat_of_nonneg (by omega)).symm
      refine Prod.ext rfl (shown_eq_iff.mpr ⟨fun i hi => h _ (by omega), fun i hi => h _ ?_,
        fun p hp i hi hpad => h _ ?_⟩)
      · have := hpages (by omega)
        omega
      · have := htail p hp (by omega)
        omega
  unfold rpcrdmaCompleteRqst
  rw [if_pos rfl, if_pos rfl, hdecode]

/-- A message that is handled without a look behind it is handled by its bytes alone. -/
theorem handler_congr (h : Agree n mem mem') (hreads : ReadsReceived x n mem) :
    rpcrdmaReplyHandler x n mem = rpcrdmaReplyHandler x n mem' := by
  by_cases hzero : n = 0
  · unfold rpcrdmaReplyHandler
    rw [if_pos hzero, if_pos hzero]
  by_cases hshort : n < 16
  · unfold rpcrdmaReplyHandler
    rw [if_neg hzero, if_neg hzero, if_pos hshort, if_pos hshort]
  have hxid := h.wordAt (show 0 + 4 ≤ n by omega)
  have hvers := h.wordAt (show 4 + 4 ≤ n by omega)
  have hcredits := h.wordAt (show 8 + 4 ≤ n by omega)
  have hproc := h.wordAt (show 12 + 4 ≤ n by omega)
  by_cases hversion : wordAt mem 4 = rpcrdmaVersion
  swap
  · unfold rpcrdmaReplyHandler
    dsimp only
    rw [if_neg hzero, if_neg hzero, if_neg hshort, if_neg hshort, if_pos hversion,
      if_pos (hvers ▸ hversion)]
  by_cases htype : wordAt mem 12 = rdmaMsg
  swap
  · -- not an inline message: only the words of the header count
    rw [handler_notCall (by omega) hversion (fun hc => htype hc.1),
      handler_notCall (by omega) (hvers ▸ hversion) (fun hc => htype (hproc.trans hc.1)), ← hxid,
        ← hcredits, ← hproc]
    have hcomplete (rqst : Rqst) : rpcrdmaCompleteRqst x n mem 16 (wordAt mem 12) rqst =
        rpcrdmaCompleteRqst x n mem' 16 (wordAt mem 12) rqst := by
      unfold rpcrdmaCompleteRqst
      rw [if_neg htype, if_neg htype, h.wordsFrom 16]
    simp only [hcomplete]
  have hmsg : IsMsg n mem := ⟨by omega, hversion, htype⟩
  have hmsg' := h.isMsg.mp hmsg
  by_cases hcall : LooksLikeCall 36 mem
  · have hcall' := (looksLikeCall_congr h hmsg hreads.peek).mp hcall
    have hn : 36 ≤ n := by
      by_contra hn
      exact hreads.peek ⟨hmsg, by omega, hcall.mono (by omega)⟩
    rw [handler_call hmsg hcall, handler_call hmsg' hcall', if_pos (by omega), if_pos (by omega)]
    unfold bcReceiveCall
    dsimp only
    by_cases hfree : x.bcRqst = true
    · have hsize := hreads.call hmsg hcall hfree
      rw [if_neg (not_not.mpr hfree), if_neg (not_not.mpr hfree),
        h.wordAt (show 28 + 4 ≤ n by omega)]
      refine congrArg _ (map_congr_left fun i hi => h _ ?_)
      have := mem_range.mp hi
      omega
    · rw [if_pos hfree, if_pos hfree]
  · have hcall' : ¬ LooksLikeCall 36 mem' :=
      fun hc => hcall ((looksLikeCall_congr h hmsg hreads.peek).mpr hc)
    rw [handler_notCall hmsg.1 hversion (fun hc => hcall hc.2),
      handler_notCall hmsg.1 hmsg'.2.1 (fun hc => hcall' hc.2),
      ← hxid, ← hcredits, ← hproc, htype]
    cases hlookup : x.lookup (wordAt mem 0) with
    | none => rfl
    | some rqst =>
      dsimp only
      rw [completeRqst_congr h fun writelist rest hdecode => ?_]
      exact hreads.reply rqst _ writelist ⟨hmsg, hcall, hlookup, rest, hdecode, rfl⟩

/-! ## Bytes behind the message -/

/-- A buffer with one byte changed. -/
def tamper (mem : Mem) (k : Nat) : Mem := Function.update mem k (mem k + 1)

theorem tamper_ne (mem : Mem) (k : Nat) : mem k ≠ tamper mem k k := by
  unfold tamper
  rw [Function.update_self]
  intro h
  have hbit := congrArg UInt8.toNat h
  rw [UInt8.toNat_add] at hbit
  have := UInt8.toNat_lt (mem k)
  simp only [UInt8.reduceToNat] at hbit
  omega

theorem agree_tamper {k : Nat} (hk : n ≤ k) : Agree n mem (tamper mem k) := by
  intro j hj
  unfold tamper
  rw [Function.update_of_ne (by omega)]

theorem Agree.refl (n : Nat) (mem : Mem) : Agree n mem mem := fun _ _ => rfl

theorem ByReceived.tamper {k : Nat} (h : ByReceived x n mem) (hk : n ≤ k) :
    rpcrdmaReplyHandler x n mem = rpcrdmaReplyHandler x n (Reply.tamper mem k) :=
  h _ _ (.refl n mem) (agree_tamper hk)

/-- The outcomes of a message that was taken for a backchannel call. -/
def Outcome.IsCall : Outcome → Prop
  | .shortCall | .callOverflow | .call _ _ => True
  | _ => False

/-- An open peek is completed by what lies behind the message. -/
theorem ByReceived.peek (h : ByReceived x n mem) : ¬ OpenPeek n mem := by
  rintro ⟨hmsg, hn, hlooks⟩
  have hn16 := hmsg.1
  let called : Mem := fun k => if k < n then mem k else (callPattern (wordAt mem 0)).getD (k - 16) 0
  have hagree : Agree n mem called := fun k hk => (if_pos hk).symm
  have hagree' : Agree n mem (Reply.tamper called 35) := fun k hk =>
    (hagree k hk).trans (@agree_tamper n called 35 (show n ≤ 35 by omega) k hk)
  have hxid : wordAt called 0 = wordAt mem 0 := (hagree.wordAt (by omega)).symm
  have hxid' : wordAt (Reply.tamper called 35) 0 = wordAt mem 0 := (hagree'.wordAt (by omega)).symm
  have hcalled : LooksLikeCall 36 called := by
    intro k hk _
    rw [hxid]
    by_cases hlt : 16 + k < n
    · rw [hlooks k hk hlt]
      exact congrArg some (hagree _ hlt)
    · have hlen : k < (callPattern (wordAt mem 0)).length := hk
      change _ = some (if 16 + k < n then _ else _)
      rw [if_neg hlt, Nat.add_sub_cancel_left, getD_eq_getElem?_getD, List.getElem?_eq_getElem hlen]
      rfl
  have hcalled' : ¬ LooksLikeCall 36 (Reply.tamper called 35) := by
    intro hlooks'
    have hlast := hlooks' 19 (by decide) (by decide)
    have hlast' := hcalled 19 (by decide) (by decide)
    rw [hxid'] at hlast
    rw [hxid] at hlast'
    exact tamper_ne called 35 (Option.some.inj (hlast'.symm.trans hlast))
  have hmsg₁ := hagree.isMsg.mp hmsg
  have hmsg₂ := hagree'.isMsg.mp hmsg
  have hsame := h called (Reply.tamper called 35) hagree hagree'
  have hcall : (rpcrdmaReplyHandler x n called).IsCall := by
    rw [handler_call hmsg₁ hcalled]
    unfold bcReceiveCall
    dsimp only
    split_ifs <;> trivial
  rw [hsame, handler_notCall hmsg₂.1 hmsg₂.2.1 fun hc => hcalled' hc.2] at hcall
  split at hcall <;> exact hcall

theorem ByReceived.call (h : ByReceived x n mem) (hmsg : IsMsg n mem) (hcall : LooksLikeCall 36 mem)
    (hfree : x.bcRqst = true) : 28 + x.remaining n 28 ≤ n := by
  have hn : 36 ≤ n := by
    by_contra hn
    exact h.peek ⟨hmsg, by omega, hcall.mono (by omega)⟩
  by_contra hsize
  have hk : n ≤ 28 + (x.remaining n 28 - 1) := by omega
  have hagree := @agree_tamper _ mem _ hk
  have hsame := h.tamper hk
  rw [handler_call hmsg hcall, handler_call (hagree.isMsg.mp hmsg)
    ((looksLikeCall_congr hagree hmsg h.peek).mp hcall), if_pos (by omega),
    if_pos (by omega)] at hsame
  unfold bcReceiveCall at hsame
  dsimp only at hsame
  rw [if_neg (not_not.mpr hfree), if_neg (not_not.mpr hfree), Outcome.call.injEq] at hsame
  have hbytes := map_inj_left.mp hsame.2 (x.remaining n 28 - 1) (mem_range.mpr (by omega))
  exact tamper_ne mem _ hbytes

/-- What the upper layer is shown of an inline reply does not change with the byte at `k`. -/
theorem ByReceived.shown (h : ByReceived x n mem) {writelist status : Nat}
    (hreply : InlineReply x n mem rqst base writelist)
    (hstatus : I32.wrap (x.remaining n base + xdrAlignSize writelist : Nat) = (status : Nat))
    {k : Nat} (hk : n ≤ k) :
    Reply.shown mem rqst (rpcrdmaInlineFixup mem rqst base (x.remaining n base) (writelist % 4))
      (writelist % 4) status =
      Reply.shown (Reply.tamper mem k) rqst
        (rpcrdmaInlineFixup (Reply.tamper mem k) rqst base (x.remaining n base) (writelist % 4))
          (writelist % 4)
        status := by
  obtain ⟨hmsg, hcall, hlookup, rest, hdecode, hbase⟩ := hreply
  have hagree := @agree_tamper _ mem _ hk
  have hcall' : ¬ LooksLikeCall 36 (Reply.tamper mem k) := fun hc =>
    hcall ((looksLikeCall_congr hagree hmsg h.peek).mpr hc)
  have hmsg' := hagree.isMsg.mp hmsg
  have hn := hmsg.1
  have hcomplete (m : Mem) (hwords : wordsFrom n m 16 = wordsFrom n mem 16) :
      rpcrdmaCompleteRqst x n m 16 rdmaMsg rqst = ((status : Int), Reply.shown m rqst
        (rpcrdmaInlineFixup m rqst base (x.remaining n base) (writelist % 4))
          (writelist % 4) status) := by
    unfold rpcrdmaCompleteRqst rpcrdmaDecodeMsg
    rw [if_pos rfl, hwords, hdecode]
    dsimp only
    rw [if_neg (not_not.mpr rfl), ← hbase, hstatus, if_neg (show ¬ (status : Int) < 0 by omega),
      if_neg (by omega)]
    rfl
  have hsame := h.tamper hk
  rw [handler_notCall hmsg.1 hmsg.2.1 fun hc => hcall hc.2,
    handler_notCall hmsg'.1 hmsg'.2.1 fun hc => hcall' hc.2,
    ← hagree.wordAt (show 0 + 4 ≤ n by omega), hlookup, hmsg.2.2, hmsg'.2.2] at hsame
  dsimp only at hsame
  rw [hcomplete mem rfl, hcomplete _ (hagree.wordsFrom 16).symm] at hsame
  exact (Outcome.reply.inj hsame).2.2.2

theorem ByReceived.reply (h : ByReceived x n mem) {writelist status : Nat}
    (hreply : InlineReply x n mem rqst base writelist)
    (hstatus : I32.wrap (x.remaining n base + xdrAlignSize writelist : Nat) = (status : Nat)) :
    WithinReceived n rqst base (x.remaining n base) (writelist % 4) status := by
  have hbase : base ≤ n := by
    obtain ⟨hmsg, -, -, rest, hdecode, rfl⟩ := hreply
    exact base_le hdecode hmsg.1
  constructor
  · by_contra hhead
    have hk : n ≤ base + (min status rqst.headLen - 1) := by omega
    exact tamper_ne mem _ ((shown_eq_iff.mp (h.shown hreply hstatus hk)).1 _ (by omega))
  · intro hpos
    by_contra hpages
    have hk : n ≤ base + inHead rqst (x.remaining n base) +
        (min (status - rqst.headLen) (inPages rqst (x.remaining n base)) - 1) := by omega
    exact tamper_ne mem _ ((shown_eq_iff.mp (h.shown hreply hstatus hk)).2.1 _ (by omega))
  · intro p hp hpad
    by_contra htail
    have hk : n ≤ p + (min (status - rqst.headLen - rqst.pageLen) rqst.tailLen - 1) := by omega
    exact tamper_ne mem _ ((shown_eq_iff.mp (h.shown hreply hstatus hk)).2.2 p hp _
      (by omega) (by omega))

/-- The outcome of a message is that of its received bytes exactly if it is handled without a look
behind it. -/
theorem by_received_iff (x : Xprt) (n : Nat) (mem : Mem) :
    ByReceived x n mem ↔ ReadsReceived x n mem := by
  constructor
  · intro h
    exact ⟨h.peek, fun hmsg hcall hfree => h.call hmsg hcall hfree,
      fun _ _ _ hreply _ hstatus => h.reply hreply hstatus⟩
  · intro hreads mem₁ mem₂ h₁ h₂
    rw [← handler_congr h₁ hreads, ← handler_congr h₂ hreads]

end

/-- One request is waiting, with the XID 7. -/
def oneWaiting : Xprt where
  lookup xid := if xid = [0, 0, 0, 7] then some ⟨0, 8, 0, 0, 0⟩ else none
  maxRequests := 32
  bcRqst := true
  remaining n p := (n - p + 3) / 4 * 4

/-- An empty reply of 28 bytes for that request, and `behind` after it. -/
def emptyReply (behind : List UInt8) : Mem := fun k =>
  ([0, 0, 0, 7, 0, 0, 0, 1, 0, 0, 0, 32] ++ rdmaMsg ++ xdrZero ++ xdrZero ++ xdrZero
    ++ behind).getD k 255

/-- With an older call of that XID behind it, the reply is taken for a backchannel call. -/
theorem stale_call_taken :
    (∀ k < 28, emptyReply [] k = emptyReply ([0, 0, 0, 7] ++ rpcCall) k) ∧
      rpcrdmaReplyHandler oneWaiting 28 (emptyReply []) = .reply 0 32 0 [] ∧
      rpcrdmaReplyHandler oneWaiting 28 (emptyReply ([0, 0, 0, 7] ++ rpcCall)) =
        .call [0, 0, 0, 7] [] ∧
      ¬ ByReceived oneWaiting 28 (emptyReply []) := by
  have hagree : Agree 28 (emptyReply []) (emptyReply ([0, 0, 0, 7] ++ rpcCall)) := by
    unfold Agree
    decide
  have hreply : rpcrdmaReplyHandler oneWaiting 28 (emptyReply []) = .reply 0 32 0 [] := by
    decide +kernel
  have hcall : rpcrdmaReplyHandler oneWaiting 28 (emptyReply ([0, 0, 0, 7] ++ rpcCall)) =
    .call [0, 0, 0, 7] [] := by
    decide
  refine ⟨hagree, hreply, hcall, fun h => ?_⟩
  have hsame := h _ _ (.refl _ _) hagree
  rw [hreply, hcall] at hsame
  exact Outcome.noConfusion hsame

end Xprtrdma.Reply
