-- SUMMARY: The hash chains of the mlx4 multicast table.
import OfaKernel.Lib.HashChain
import OfaKernel.Mlx4.BitmapAccounting
import OfaKernel.Mlx4.Mcg

/-!
# Chains of the multicast table

The table is a `HashChain` table whose keys are GIDs with a protocol and whose values are the
members of an entry.
-/

open List

namespace Mlx4

open HashChain McgState

/-! ## Entries -/

namespace Mgm

theorem packCount_and {c p : Nat} (hc : c < 2 ^ 24) : packCount c p &&& 0xffffff = c := by
  have hmask : 0xffffff = 2 ^ 24 - 1 := rfl
  rw [packCount, Nat.and_or_distrib_right, hmask, Nat.and_two_pow_sub_one_eq_mod,
    Nat.and_two_pow_sub_one_eq_mod, Nat.mod_eq_of_lt hc, Nat.shiftLeft_eq]
  have : p * 2 ^ 30 % 2 ^ 24 = 0 := by omega
  rw [this, Nat.or_zero]

theorem packCount_shiftRight {c p : Nat} (hc : c < 2 ^ 24) : packCount c p >>> 30 = p := by
  rw [packCount, Nat.shiftRight_or_distrib, Nat.shiftLeft_shiftRight, Nat.shiftRight_eq_div_pow,
    Nat.div_eq_of_lt (by omega), Nat.zero_or]

variable {m : Mgm}

theorem next_withNext {i : Nat} (hi : i < 2 ^ 26) : (m.withNext i).next = i := by
  have hlt : i <<< 6 < 2 ^ 32 := by rw [Nat.shiftLeft_eq]; omega
  rw [next, withNext, U32.wrap_of_lt hlt, Nat.shiftLeft_shiftRight]

@[simp] theorem members_withGid (m : Mgm) (gid : Gid) : (m.withGid gid).members = m.members := rfl

@[simp] theorem count_withGid (m : Mgm) (gid : Gid) : (m.withGid gid).count = m.count := rfl

@[simp] theorem length_members (m : Mgm) : m.members.length = m.count := by simp [members]

@[simp] theorem count_zero : zero.count = 0 := Nat.zero_and _

theorem members_of_count (h : m.count = 0) : m.members = [] := by
  simp [members, h]

variable {q : Nat}

theorem mem_members : q ∈ m.members ↔ ∃ i < m.count, m.qpn i = q := by
  simp [members]

/-- Key and members of an entry that is in use. -/
def content (m : Mgm) : Option ((Gid × Nat) × List Nat) :=
  if m.count = 0 then none else some ((m.gid, m.prot), m.members)

@[simp] theorem content_withNext (m : Mgm) (i : Nat) : (m.withNext i).content = m.content := rfl

theorem content_eq_none : m.content = none ↔ m.count = 0 := by
  unfold content
  split <;> simp_all

theorem content_eq_some {k : Gid × Nat} {l : List Nat} :
    m.content = some (k, l) ↔ l ≠ [] ∧ m.gid = k.1 ∧ m.prot = k.2 ∧ m.members = l := by
  have hlen := m.length_members
  unfold content
  split
  next hz =>
    simp only [reduceCtorEq, false_iff, not_and]
    rintro hne - - rfl
    rw [hz] at hlen
    exact hne (eq_nil_of_length_eq_zero hlen)
  next hz =>
    obtain ⟨g, p⟩ := k
    simp only [Option.some.injEq, Prod.mk.injEq, and_assoc]
    constructor
    · rintro ⟨hg, hp, rfl⟩
      exact ⟨fun hnil => hz (by rw [← hlen, hnil]; rfl), hg, hp, rfl⟩
    · rintro ⟨-, hg, hp, hl⟩
      exact ⟨hg, hp, hl⟩

/-- An entry after a QP has been added. -/
theorem members_push {word p : Nat} (hc : m.count + 1 < 2 ^ 24) :
    (m.push word p).members = m.members ++ [word &&& mgmQpnMask] := by
  have hcount : (m.push word p).count = m.count + 1 := packCount_and hc
  rw [members, hcount, range_succ, map_append, members]
  congr 1
  · refine map_congr_left fun i hi => ?_
    have hne : i ≠ m.count := Nat.ne_of_lt (mem_range.mp hi)
    simp [qpn, push, Function.update_of_ne hne]
  · simp [qpn, push]

theorem prot_push {word p : Nat} (hc : m.count + 1 < 2 ^ 24) : (m.push word p).prot = p :=
  packCount_shiftRight hc

theorem findQp_eq_none : m.findQp q = none ↔ q ∉ m.members := by
  simp [findQp, mem_members]

theorem findQp_eq_some {q loc : Nat} (h : m.findQp q = some loc) :
    loc < m.count ∧ m.qpn loc = q := by
  have hmem := mem_of_find?_eq_some h
  have hpred := List.find?_some h
  exact ⟨mem_range.mp hmem, by simpa using hpred⟩

theorem findQp_isSome : (m.findQp q).isSome ↔ q ∈ m.members := by
  rw [Option.isSome_iff_ne_none, Ne, findQp_eq_none, not_not]

theorem count_pop {loc p : Nat} (hc : m.count < 2 ^ 24) : (m.pop loc p).count = m.count - 1 :=
  packCount_and (by omega)

/-- An entry after a QP has been taken out: the others are left. -/
theorem mem_members_pop {q loc p : Nat} (hc : m.count < 2 ^ 24) (hnodup : m.members.Nodup)
    (hloc : m.findQp q = some loc) :
    (m.pop loc p).members.Nodup ∧ ∀ r, r ∈ (m.pop loc p).members ↔ r ∈ m.members ∧ r ≠ q := by
  obtain ⟨hlt, hq⟩ := findQp_eq_some hloc
  have hinj : ∀ i < m.count, ∀ j < m.count, m.qpn i = m.qpn j → i = j := by
    intro i hi j hj he
    exact inj_on_of_nodup_map hnodup (mem_range.mpr hi) (mem_range.mpr hj) he
  -- position `i` now has what was at `old i`
  have hqpn (i : Nat) (hi : i < m.count - 1) :
      (m.pop loc p).qpn i = m.qpn (if i = loc then m.count - 1 else i) := by
    have hne : i ≠ m.count - 1 := Nat.ne_of_lt hi
    by_cases hil : i = loc
    · subst hil
      simp [qpn, pop, Function.update_of_ne hne]
    · simp [qpn, pop, Function.update_of_ne hne, hil]
  have hmem (r : Nat) : r ∈ (m.pop loc p).members ↔
      ∃ i < m.count - 1, m.qpn (if i = loc then m.count - 1 else i) = r := by
    rw [mem_members, count_pop hc]
    refine exists_congr fun i => and_congr_right fun hi => ?_
    rw [hqpn i hi]
  refine ⟨?_, fun r => ?_⟩
  · refine List.Nodup.map_on ?_ nodup_range
    intro i hi j hj he
    rw [mem_range, count_pop hc] at hi hj
    rw [hqpn i hi, hqpn j hj] at he
    have := hinj _ (by split <;> omega) _ (by split <;> omega) he
    split at this <;> split at this <;> omega
  · rw [hmem, mem_members]
    constructor
    · rintro ⟨i, hi, rfl⟩
      refine ⟨⟨_, by split <;> omega, rfl⟩, fun he => ?_⟩
      have := hinj _ (by split <;> omega) loc hlt (he.trans hq.symm)
      split at this <;> omega
    · rintro ⟨⟨i, hi, rfl⟩, hne⟩
      have hil : i ≠ loc := fun he => hne (he ▸ hq)
      by_cases hlast : i = m.count - 1
      · exact ⟨loc, by omega, by rw [if_pos rfl, hlast]⟩
      · exact ⟨i, by omega, by rw [if_neg hil]⟩

end Mgm

variable {qpn : Nat}

theorem qpWord_and {caps : McgCaps} {block : Bool} (hq : qpn < 2 ^ 24) :
    qpWord caps qpn block &&& mgmQpnMask = qpn := by
  have hmask : mgmQpnMask = 2 ^ 24 - 1 := rfl
  rw [qpWord, Nat.and_or_distrib_right, hmask, Nat.and_two_pow_sub_one_eq_mod,
    Nat.and_two_pow_sub_one_eq_mod, Nat.and_two_pow_sub_one_eq_mod, Nat.mod_mod,
    Nat.mod_eq_of_lt hq, Nat.shiftLeft_eq]
  have hz : ∀ x : Nat, x * 2 ^ mgmBlckLbBit % 2 ^ 24 = 0 := fun x => by
    have : (2 : Nat) ^ mgmBlckLbBit = 2 ^ 24 * 2 ^ 6 := by decide
    rw [this, Nat.mul_left_comm, Nat.mul_mod_right]
  rw [hz, Nat.or_zero]

/-! ## The table -/

/-- Entry `i` has the members `l` for the key `k`, in the chain of `k`. -/
def StoredAt (caps : McgCaps) (s : McgState) (chain : Nat → List Nat) (i : Nat) (k : Gid × Nat)
    (l : List Nat) : Prop :=
  At caps.hash chain (fun i => (s.mem i).content) i k l

/-- The bitmap of AMGM entries. Its mask leaves nothing of `top`. -/
structure Amgms (caps : McgCaps) (b : BitmapAllocator) : Prop where
  max : b.max = caps.numAmgms
  reservedTop : b.reservedTop = 0
  mask : b.mask = caps.numAmgms - 1
  top : b.top = 0
  used_lt : ∀ a, b.table a = true → a < caps.numAmgms

/-- The chains with the bitmap; an entry has no member twice. -/
structure Table (caps : McgCaps) (s : McgState) (chain : Nat → List Nat) : Prop where
  chains : Chains caps.hash caps.numMgms (fun i => (s.mem i).next) (fun i => (s.mem i).content)
    (fun a => s.bitmap.table a = true) chain
  amgms : Amgms caps s.bitmap
  members : ∀ i k l, StoredAt caps s chain i k l → l.length ≤ caps.numQpPerMgm ∧ l.Nodup

variable {caps : McgCaps} {s s' : McgState} {chain chain' : Nat → List Nat}

theorem McgCaps.hash_lt (caps : McgCaps) (k : Gid × Nat) : caps.hash k < caps.numMgms :=
  Nat.lt_of_le_of_lt (Nat.mod_le _ _) (caps.gidHash_lt _ _)

theorem McgCaps.numAmgms_le (caps : McgCaps) :
    caps.numMgms + caps.numAmgms ≤ 2 ^ 26 := caps.index_lt

variable {i : Nat} {k : Gid × Nat} {l : List Nat}

theorem StoredAt.ne_nil (h : StoredAt caps s chain i k l) :
    l ≠ [] :=
  (Mgm.content_eq_some.mp h.2).1

theorem StoredAt.members_eq (h : StoredAt caps s chain i k l) : (s.mem i).members = l :=
  (Mgm.content_eq_some.mp h.2).2.2.2

theorem Table.count_lt (h : Table caps s chain) (hi : StoredAt caps s chain i k l) :
    (s.mem i).count ≤ caps.numQpPerMgm := by
  rw [← Mgm.length_members, hi.members_eq]
  exact (h.members i k l hi).1

theorem Table.index_lt (h : Table caps s chain) {b i : Nat} (hb : b < caps.numMgms)
    (hi : i ∈ chain b) : i < caps.numMgms + caps.numAmgms := by
  rcases h.chains.overflow b hb i hi with rfl | hge
  · omega
  · obtain ⟨a, rfl⟩ := Nat.exists_eq_add_of_le hge
    have := h.amgms.used_lt a ((h.chains.used a).mpr ⟨b, hb, hi⟩)
    omega

variable {b : BitmapAllocator}

theorem Amgms.init (h : initMcgTable caps true = some b) :
    Amgms caps b ∧ ∀ a, b.table a = false := by
  have hpow : caps.numAmgms = roundupPowOfTwo caps.numAmgms :=
    (BitmapState.roundupPowOfTwo_pow caps.amgmLog).symm
  have hle := caps.numAmgms_le
  rw [initMcgTable, bitmapInit, if_neg (fun hne => hne hpow), if_pos rfl, Option.some.injEq] at h
  subst h
  have htable (a : Nat) : Bitmap.zero.setRange 0 0 a = false := by rw [Bitmap.setRange_zero]; rfl
  refine ⟨⟨?_, rfl, rfl, rfl, fun a ha => ?_⟩, htable⟩
  · exact U32.sub_of_le (Nat.zero_le _) (by omega)
  · exact absurd ha (by simp)

theorem Amgms.nextTop (h : Amgms caps b) : b.nextTop = 0 := by
  have hle := caps.numAmgms_le
  rw [BitmapAllocator.nextTop, h.top, h.max, h.reservedTop, h.mask, U32.wrap_of_lt (by omega)]
  unfold McgCaps.numAmgms
  rw [Nat.and_two_pow_sub_one_eq_mod, Nat.zero_add, Nat.add_zero, Nat.mod_self]

/-- `mlx4_bitmap_alloc` marks a free entry, or fails and marks none. -/
theorem Amgms.alloc (h : Amgms caps b) :
    Amgms caps (bitmapAlloc b).1 ∧
      ((bitmapAlloc b).2 = U32.allOnes ∧ (bitmapAlloc b).1.table = b.table ∨
        ∃ a < caps.numAmgms, b.table a = false ∧ (bitmapAlloc b).2 = a ∧
          (bitmapAlloc b).1.table = b.table.setBit a ∧ a ≠ U32.allOnes) := by
  have hle := caps.numAmgms_le
  obtain ⟨top, htop, hcase⟩ := bitmapAlloc_outcome b
  have htop0 : top = 0 := by
    rcases htop with rfl | rfl
    · exact h.top
    · exact h.nextTop
  subst htop0
  rcases hcase with heq | ⟨last, a, hlt, -, hfree, heq⟩
  · rw [heq]
    exact ⟨⟨h.max, h.reservedTop, h.mask, rfl, h.used_lt⟩, .inl ⟨rfl, rfl⟩⟩
  · rw [h.max] at hlt
    have hfalse := hfree a (le_refl a) (Nat.lt_succ_self a)
    have hone : b.table.setRange a 1 = b.table.setBit a := Bitmap.setRange_one _ _
    rw [heq]
    refine ⟨⟨h.max, h.reservedTop, h.mask, rfl, fun j hj => ?_⟩,
      .inr ⟨a, hlt, hfalse, ?_, hone, ?_⟩⟩
    · rw [BitmapAllocator.takeAt, hone, Bitmap.setBit_eq_true] at hj
      rcases hj with rfl | hj
      · exact hlt
      · exact h.used_lt j hj
    · exact Nat.or_zero a
    · have : U32.allOnes = 2 ^ 32 - 1 := rfl
      omega

/-- `mlx4_bitmap_free` of an entry in use. -/
theorem Amgms.free (h : Amgms caps b) {a : Nat} (ha : b.table a = true) :
    Amgms caps (bitmapFree b a true) ∧
      ∀ j, (bitmapFree b a true).table j = true ↔ b.table j = true ∧ j ≠ a := by
  have hle := caps.numAmgms_le
  have hlt := h.used_lt a ha
  have hmasked : bitmapMaskedValue b a = a := by
    rw [bitmapMaskedValue, h.max, h.reservedTop, U32.wrap_of_lt (by omega),
      U32.sub_of_le (by omega) (by omega), Nat.add_zero]
    unfold McgCaps.numAmgms at hlt ⊢
    rw [Nat.and_two_pow_sub_one_eq_mod, Nat.mod_eq_of_lt hlt]
  have htable (j : Nat) : (bitmapFree b a true).table j = true ↔ b.table j = true ∧ j ≠ a := by
    rw [bitmapFree, bitmapFreeRange, hmasked]
    simp only [Bitmap.clearRange_eq_true]
    constructor
    · rintro ⟨hnot, hj⟩
      exact ⟨hj, fun he => hnot (by omega)⟩
    · rintro ⟨hj, hne⟩
      exact ⟨fun hin => hne (by omega), hj⟩
  refine ⟨⟨h.max, h.reservedTop, h.mask, h.top, fun j hj => ?_⟩, htable⟩
  exact h.used_lt j ((htable j).mp hj).1

/-- What `find_entry` finds for a key: the entry that has it, an empty bucket, or the end
of the chain. -/
inductive FindSpec (caps : McgCaps) (s : McgState) (chain : Nat → List Nat) (k : Gid × Nat) :
    Found → Prop
  | hit {l r ms : List Nat} {i : Nat} (hc : chain (caps.hash k) = l ++ i :: r)
      (hi : StoredAt caps s chain i k ms) : FindSpec caps s chain k
        (.entry (s.mem i) l.getLast? (some i))
  | empty (hz : (s.mem (caps.hash k)).content = none) :
      FindSpec caps s chain k (.entry (s.mem (caps.hash k)) none (some (caps.hash k)))
  | missing {l : List Nat} {p : Nat} (hc : chain (caps.hash k) = l ++ [p])
      (hhead : (s.mem (caps.hash k)).content ≠ none)
      (hnone : ∀ j ∈ chain (caps.hash k), ∀ w, (s.mem j).content ≠ some (k, w)) :
      FindSpec caps s chain k (.entry (s.mem p) (some p) none)

theorem findEntryLoop_spec (h : Table caps s chain) (gid : Gid) (prot : Protocol) {l r : List Nat}
    {i fuel : Nat} (hc : chain (caps.hash (gid, prot.val)) = l ++ i :: r) (hfuel : r.length < fuel)
    (hhead : l ≠ [] → (s.mem (caps.hash (gid, prot.val))).content ≠ none)
    (hnone : ∀ j ∈ l, ∀ w, (s.mem j).content ≠ some ((gid, prot.val), w)) :
    FindSpec caps s chain (gid, prot.val)
      (findEntryLoop s.mem (caps.hash (gid, prot.val)) gid prot fuel i l.getLast?) := by
  have hb := caps.hash_lt (gid, prot.val)
  -- along the chain: `l` are the entries passed
  induction fuel generalizing l r i with
  | zero => omega
  | succ fuel ih =>
    have hi : i ∈ chain (caps.hash (gid, prot.val)) := by rw [hc]; simp
    have hlinked := h.chains.linked _ hb
    have hnodup := h.chains.nodup _ hb
    have hstart := h.chains.start _ hb
    rw [hc] at hlinked hnodup hstart
    have hnext := (linked_append.mp hlinked).2.1
    unfold findEntryLoop
    simp only
    split
    next hz =>
      -- an entry without members is the bucket itself
      have hcontent := Mgm.content_eq_none.mpr hz
      have hib : i = caps.hash (gid, prot.val) := by
        by_contra hne
        exact h.chains.full _ hb i hi hne hcontent
      have hl : l = [] := by
        by_contra hne
        exact hhead hne (hib ▸ hcontent)
      subst hib hl
      rw [if_neg (fun hne => hne rfl)]
      exact .empty hcontent
    next hz =>
      split
      next hkey =>
        have hstored : StoredAt caps s chain i (gid, prot.val) (s.mem i).members := by
          refine ⟨hi, Mgm.content_eq_some.mpr ⟨fun hnil => hz ?_, hkey.1, hkey.2, rfl⟩⟩
          rw [← Mgm.length_members, hnil]
          rfl
        exact .hit hc hstored
      next hkey =>
        have hnone' : ∀ j ∈ l ++ [i], ∀ w, (s.mem j).content ≠ some ((gid, prot.val), w) := by
          intro j hj w hw
          rcases mem_append.mp hj with hj | hj
          · exact hnone j hj w hw
          · rw [mem_singleton.mp hj] at hw
            have := Mgm.content_eq_some.mp hw
            exact hkey ⟨this.2.1, this.2.2.1⟩
        have hhead' : (s.mem (caps.hash (gid, prot.val))).content ≠ none := by
          by_cases hl : l = []
          · subst hl
            obtain ⟨t, ht⟩ := hstart
            rw [← (List.cons.inj ht).1, Ne, Mgm.content_eq_none]
            exact hz
          · exact hhead hl
        cases r with
        | nil =>
          have hend : (s.mem i).next = 0 := hnext
          rw [if_pos hend]
          exact .missing hc hhead' (by rw [hc]; exact hnone')
        | cons x r =>
          have hx : (s.mem i).next = x := hnext
          have hge : caps.numMgms ≤ x := by
            have hmem : x ∈ chain (caps.hash (gid, prot.val)) := by rw [hc]; simp
            refine (h.chains.overflow _ hb x hmem).resolve_left fun he => ?_
            -- the bucket is the first entry, and no entry comes twice
            obtain ⟨t, ht⟩ := hstart
            rw [ht] at hnodup
            refine (nodup_cons.mp hnodup).1 ?_
            cases l with
            | nil => rw [← (List.cons.inj ht).2, ← he]; exact mem_cons_self
            | cons y l => rw [← (List.cons.inj ht).2, ← he]; simp
          rw [hx, if_neg (by omega)]
          have hlast : some i = (l ++ [i]).getLast? := by simp
          rw [hlast]
          refine ih (r := r) (by rw [hc]; simp) ?_ (fun _ => hhead') hnone'
          simp only [length_cons] at hfuel
          omega

theorem findEntry_spec (h : Table caps s chain) (gid : Gid) (prot : Protocol) :
    FindSpec caps s chain (gid, prot.val) (findEntry caps s gid prot) := by
  have hb := caps.hash_lt (gid, prot.val)
  obtain ⟨t, ht⟩ := h.chains.start _ hb
  have hlen := h.chains.length_le hb h.amgms.used_lt
  rw [ht] at hlen
  exact findEntryLoop_spec h gid prot (l := []) ht (by simp at hlen; omega)
    (fun hne => absurd rfl hne) nofun

theorem findEntry_stored (h : Table caps s chain) {gid : Gid} {prot : Protocol}
    (hi : StoredAt caps s chain i (gid, prot.val) l) :
    ∃ l' rest, chain (caps.hash (gid, prot.val)) = l' ++ i :: rest ∧
      findEntry caps s gid prot = .entry (s.mem i) l'.getLast? (some i) := by
  have hfind := findEntry_spec h gid prot
  cases hfound : findEntry caps s gid prot with
  | running | zeroMgid =>
    rw [hfound] at hfind
    cases hfind
  | entry mgm prev index =>
    rw [hfound] at hfind
    cases hfind with
    | @hit l' rest ms j hc hj =>
      obtain ⟨rfl, -⟩ := h.chains.at_unique caps.hash_lt hj hi
      exact ⟨l', rest, hc, rfl⟩
    | empty hz =>
      have hchain := h.chains.empty _ (caps.hash_lt _) hz
      have hmem := hi.1
      rw [hchain, mem_singleton] at hmem
      have hc := hi.2
      simp only [hmem, hz] at hc
      cases hc
    | missing hc hhead hnone => exact absurd hi.2 (hnone i hi.1 l)

/-! ## Attach -/

theorem writeEntry_mem (s : McgState) (i : Nat) (m : Mgm) (j : Nat) :
    (s.writeEntry i m).mem j = if j = i then m else s.mem j := by
  simp [McgState.writeEntry, Function.update_apply]

/-- In `s'`, `k` is stored at `i` with members `l`, and other keys as in `s`. -/
structure Stores (caps : McgCaps) (s s' : McgState) (chain chain' : Nat → List Nat) (i : Nat)
    (k : Gid × Nat) (l : List Nat) : Prop where
  table : Table caps s' chain'
  stored : StoredAt caps s' chain' i k l
  others : ∀ j k' l', k' ≠ k → (StoredAt caps s' chain' j k' l' ↔ StoredAt caps s chain j k' l')
  steer : s'.steer = s.steer

/-- At the label `out`: there is no entry to take, the entry is full, it has the QP, it gets the
QP, or a new entry does. -/
inductive AttachSpec (caps : McgCaps) (s : McgState) (chain : Nat → List Nat) (qpn : Nat)
    (k : Gid × Nat) : Attached → Prop
  | noEntry {b : BitmapAllocator} (hb : Amgms caps b) (htable : b.table = s.bitmap.table)
      (hnone : ∀ j l, ¬ StoredAt caps s chain j k l) :
      AttachSpec caps s chain qpn k ⟨{ s with bitmap := b }, false, true, none, some .enomem⟩
  | full {i : Nat} {l : List Nat} (hi : StoredAt caps s chain i k l)
      (hfull : l.length = caps.numQpPerMgm) :
      AttachSpec caps s chain qpn k ⟨s, false, false, some i, some .enomem⟩
  | member {i : Nat} {l : List Nat} (hi : StoredAt caps s chain i k l) (hq : qpn ∈ l) :
      AttachSpec caps s chain qpn k ⟨s, false, false, some i, none⟩
  | joined {i : Nat} {l : List Nat} {s' : McgState} (hi : StoredAt caps s chain i k l)
      (hq : qpn ∉ l)
      (hs : Stores caps s s' chain chain i k (l ++ [qpn])) :
      AttachSpec caps s chain qpn k ⟨s', false, false, some i, none⟩
  | created {i : Nat} {s' : McgState} (chain' : Nat → List Nat) {link : Bool}
      (hnone : ∀ j l, ¬ StoredAt caps s chain j k l)
      (hs : Stores caps s s' chain chain' i k [qpn]) :
      AttachSpec caps s chain qpn k ⟨s', true, link, some i, none⟩

/-- Members for one key, the other keys left alone, make a table again. -/
theorem Table.of_store (h : Table caps s chain) (s' : McgState) (hamgms : Amgms caps s'.bitmap)
    (hlen : l.length ≤ caps.numQpPerMgm) (hnodup : l.Nodup) (hsteer : s'.steer = s.steer)
    (hc : Chains caps.hash caps.numMgms (fun i => (s'.mem i).next) (fun i => (s'.mem i).content)
      (fun a => s'.bitmap.table a = true) chain' ∧
      StoredAt caps s' chain' i k l ∧
      ∀ j k' l', k' ≠ k → (StoredAt caps s' chain' j k' l' ↔ StoredAt caps s chain j k' l')) :
    Stores caps s s' chain chain' i k l := by
  refine ⟨⟨hc.1, hamgms, fun j k' l' hj => ?_⟩, hc.2.1, hc.2.2, hsteer⟩
  by_cases hk : k' = k
  · subst hk
    obtain ⟨-, rfl⟩ := hc.1.at_unique caps.hash_lt hj hc.2.1
    exact ⟨hlen, hnodup⟩
  · exact h.members j k' l' ((hc.2.2 j k' l' hk).mp hj)

theorem push_content (caps : McgCaps) (block : Bool) {m : Mgm} (hq : qpn < 2 ^ 24)
    (hgid : m.gid = k.1) (hc : m.count < caps.numQpPerMgm) :
    (m.push (qpWord caps qpn block) k.2).content = some (k, m.members ++ [qpn]) := by
  have hle := caps.qp_le
  have hlt : m.count + 1 < 2 ^ 24 := by omega
  refine Mgm.content_eq_some.mpr ⟨by simp, hgid, Mgm.prot_push hlt, ?_⟩
  rw [Mgm.members_push hlt, qpWord_and hq]

theorem attachMember_new {block : Bool} {prot : Protocol} {mgm : Mgm} {newEntry : Bool}
    {index : Nat} {link : Option Nat} (hz : mgm.count = 0) :
    attachMember caps s qpn block prot mgm newEntry index link =
      let s₁ := s.writeEntry index (mgm.push (qpWord caps qpn block) prot.val)
      { state := match link with
          | none => s₁
          | some prev => s₁.writeEntry prev ((s₁.mem prev).withNext index)
        newEntry := newEntry
        link := link.isSome
        index := some index
        err := none } := by
  have hne : mgm.count ≠ caps.numQpPerMgm := by have := caps.qp_pos; omega
  have hfind : mgm.findQp qpn = none := by simp [Mgm.findQp, hz]
  simp only [attachMember, if_neg hne, hfind]
  cases link <;> rfl

theorem attachEntry_spec (h : Table caps s chain) (hq : qpn < 2 ^ 24) (gid : Gid) (block : Bool)
    (prot : Protocol) :
    AttachSpec caps s chain qpn (gid, prot.val) (attachEntry caps s qpn gid block prot) := by
  have hfind := findEntry_spec h gid prot
  have hb := caps.hash_lt (gid, prot.val)
  unfold attachEntry
  generalize findEntry caps s gid prot = found at hfind
  cases hfind with
  | @hit l r ms i hc hi =>
    -- the entry of the key, with its members
    have hcount : (s.mem i).count = ms.length := by rw [← Mgm.length_members, hi.members_eq]
    have hne : (s.mem i).count ≠ 0 := by
      rw [hcount]
      exact fun hz => hi.ne_nil (eq_nil_of_length_eq_zero hz)
    obtain ⟨hlen, hnodup⟩ := h.members i _ ms hi
    simp only [if_neg hne, attachMember]
    split
    next hfull => exact .full hi (hcount.symm.trans hfull)
    next hfull =>
      split
      next hm => exact .member hi (hi.members_eq ▸ Mgm.findQp_isSome.mp hm)
      next hm =>
        have hnot : qpn ∉ ms := fun hmem => hm (Mgm.findQp_isSome.mpr (hi.members_eq ▸ hmem))
        have hgid := (Mgm.content_eq_some.mp hi.2).2.1
        have hcontent := push_content caps block (k := (gid, prot.val)) hq hgid (by omega)
        refine .joined hi hnot (h.of_store _ (by exact h.amgms) ?_ ?_ rfl ?_)
        · simp only [length_append, length_singleton]
          omega
        · exact nodup_append.mpr ⟨hnodup, by simp, fun a ha b hb he =>
            hnot ((he.trans (mem_singleton.mp hb)) ▸ ha)⟩
        · refine h.chains.store caps.hash_lt hi.1 ?_ ?_ ?_ ?_ ?_
          · intro k' w hw
            have := hi.2.symm.trans hw
            cases this
            rfl
          · exact fun j hj w hw => (h.chains.at_unique caps.hash_lt ⟨hj, hw⟩ hi).1
          · simp only [writeEntry_mem, if_true]
            rw [hcontent, hi.members_eq]
          · intro j hj
            simp only [writeEntry_mem, if_neg hj]
          · intro j
            simp only [writeEntry_mem]
            split
            next hj => rw [hj]; rfl
            · rfl
  | empty hz =>
    -- the bucket is free, and the only entry of its chain
    have hzero := Mgm.content_eq_none.mp hz
    have hchain := h.chains.empty _ hb hz
    have hnone : ∀ j l, ¬ StoredAt caps s chain j (gid, prot.val) l := by
      rintro j l ⟨hj, hcj⟩
      rw [hchain, mem_singleton] at hj
      subst hj
      exact absurd (hz.symm.trans hcj) nofun
    have hcontent := push_content caps block (m := (s.mem (caps.hash (gid, prot.val))).withGid gid)
      (k := (gid, prot.val)) hq rfl (by rw [Mgm.count_withGid, hzero]; exact caps.qp_pos)
    rw [Mgm.members_withGid, Mgm.members_of_count hzero] at hcontent
    simp only [if_pos hzero]
    rw [attachMember_new (by exact hzero)]
    refine .created chain hnone (h.of_store _ (by exact h.amgms) ?_ (nodup_singleton _) rfl ?_)
    · exact caps.qp_pos
    · refine h.chains.store caps.hash_lt (h.chains.head_mem hb) ?_ ?_ ?_ ?_ ?_
      · intro k' w hw
        rw [hz] at hw
        cases hw
      · exact fun j hj w hw => absurd ⟨hj, hw⟩ (hnone j w)
      · simp only [writeEntry_mem, if_true]
        exact hcontent
      · intro j hj
        simp only [writeEntry_mem, if_neg hj]
      · intro j
        simp only [writeEntry_mem]
        split
        next hj => rw [hj]; rfl
        · rfl
  | @missing l p hc hhead hnone =>
    have hnone' : ∀ j l, ¬ StoredAt caps s chain j (gid, prot.val) l :=
      fun j l hj => hnone j hj.1 l hj.2
    obtain ⟨hamgms, hcase⟩ := h.amgms.alloc
    simp only
    rcases hcase with ⟨hall, htable⟩ | ⟨a, hlt, hfree, ha, htable, hne⟩
    · rw [if_pos hall]
      exact .noEntry hamgms htable hnone'
    · -- a new entry at the end of the chain
      have hindex := caps.numAmgms_le
      have hp : p ∈ chain (caps.hash (gid, prot.val)) := by rw [hc]; simp
      have hunused : ¬ s.bitmap.table a = true := by simp [hfree]
      have hpa : p ≠ caps.numMgms + a := fun he =>
        hunused ((h.chains.used a).mpr ⟨_, hb, he ▸ hp⟩)
      have hzero : (Mgm.zero.withGid gid).count = 0 := Mgm.count_zero
      have hcontent := push_content caps block (m := Mgm.zero.withGid gid)
        (k := (gid, prot.val)) hq rfl
        (by rw [hzero]; exact caps.qp_pos)
      rw [Mgm.members_of_count hzero] at hcontent
      rw [ha, if_neg hne, attachMember_new hzero, Nat.add_comm a]
      refine .created (Function.update chain (caps.hash (gid, prot.val))
        (l ++ [p, caps.numMgms + a]))
        hnone' (h.of_store _ (by exact hamgms) ?_ (nodup_singleton _) rfl ?_)
      · exact caps.qp_pos
      · refine h.chains.push caps.hash_lt hc hunused hhead hnone ?_ ?_ ?_ ?_ ?_ ?_
        · simp only [writeEntry_mem, if_neg (Ne.symm hpa), if_true]
          exact hcontent
        · intro j hj
          simp only [writeEntry_mem, if_neg hpa, if_neg hj]
          split
          next hjp => rw [hjp, Mgm.content_withNext]
          · rfl
        · simp only [writeEntry_mem, if_true]
          exact Mgm.next_withNext (by omega)
        · simp only [writeEntry_mem, if_neg (Ne.symm hpa), if_true]
          exact Nat.zero_shiftRight 6
        · intro j hjp hj
          simp only [writeEntry_mem, if_neg hjp, if_neg hj]
        · intro a'
          show (bitmapAlloc s.bitmap).1.table a' = true ↔ _
          rw [htable, Bitmap.setBit_eq_true]

/-- In `s'`, `k` is no longer stored, and other keys are as in `s`. Unless the bucket took
over the entry after it, they are where they were. -/
structure Deletes (caps : McgCaps) (s s' : McgState) (chain chain' : Nat → List Nat) (k : Gid × Nat)
    (moved : Prop) : Prop where
  table : Table caps s' chain'
  others : ∀ k' l', (∃ j, StoredAt caps s' chain' j k' l') ↔
    k' ≠ k ∧ ∃ j, StoredAt caps s chain j k' l'
  same : ¬ moved → ∀ j k' l', StoredAt caps s' chain' j k' l' ↔ k' ≠ k ∧
    StoredAt caps s chain j k' l'
  steer : s'.steer = s.steer

theorem Table.of_delete (h : Table caps s chain) (s' : McgState) (hamgms : Amgms caps s'.bitmap)
    (hsteer : s'.steer = s.steer)
    (hc : Chains caps.hash caps.numMgms (fun i => (s'.mem i).next) (fun i => (s'.mem i).content)
      (fun a => s'.bitmap.table a = true) chain' ∧
      ∀ j k' l', StoredAt caps s' chain' j k' l' ↔ k' ≠ k ∧ StoredAt caps s chain j k' l')
    (moved : Prop) : Deletes caps s s' chain chain' k moved := by
  refine ⟨⟨hc.1, hamgms, fun j k' l' hj => ?_⟩, fun k' l' => ?_, fun _ => hc.2, hsteer⟩
  · exact h.members j k' l' ((hc.2 j k' l').mp hj).2
  · simp [hc.2]

theorem freeAmgm_spec (h : Amgms caps s.bitmap) {a : Nat} (ha : s.bitmap.table a = true) :
    Amgms caps (freeAmgm caps s (caps.numMgms + a)).bitmap ∧
      (∀ a', (freeAmgm caps s (caps.numMgms + a)).bitmap.table a' = true ↔
        s.bitmap.table a' = true ∧ caps.numMgms + a' ≠ caps.numMgms + a) ∧
      (freeAmgm caps s (caps.numMgms + a)).mem = s.mem ∧
      (freeAmgm caps s (caps.numMgms + a)).steer = s.steer := by
  have hfree := h.free ha
  rw [freeAmgm, if_neg (by omega), Nat.add_sub_cancel_left]
  refine ⟨hfree.1, fun a' => ?_, rfl, rfl⟩
  rw [hfree.2 a']
  exact and_congr_right fun _ => by omega

theorem deleteEntry_spec (h : Table caps s chain) {l r ms : List Nat}
    (hc : chain (caps.hash k) = l ++ i :: r) (hi : StoredAt caps s chain i k ms) (mgm : Mgm)
    (hnext : mgm.next = (s.mem i).next) (hzero : mgm.count = 0) :
    ∃ chain', Deletes caps s (deleteEntry caps s mgm l.getLast? i) chain chain' k
      (l = [] ∧ r ≠ []) := by
  have hb := caps.hash_lt k
  have hlinked := h.chains.linked _ hb
  have hstart := h.chains.start _ hb
  rw [hc] at hlinked hstart
  have hlink : (s.mem i).next = r.headD 0 := (linked_append.mp hlinked).2.1
  have hnodup := h.chains.nodup _ hb
  rw [hc] at hnodup
  have hindex := caps.numAmgms_le
  -- an overflow entry of the chain is one that was handed out
  have hover {j : Nat} (hj : j ∈ chain (caps.hash k)) (hne : j ≠ caps.hash k) :
      ∃ a, j = caps.numMgms + a ∧ s.bitmap.table a = true := by
    obtain ⟨a, rfl⟩ := Nat.exists_eq_add_of_le ((h.chains.overflow _ hb j hj).resolve_left hne)
    exact ⟨a, rfl, (h.chains.used a).mpr ⟨_, hb, hj⟩⟩
  rcases eq_nil_or_concat l with rfl | ⟨l, p, rfl⟩
  · -- the bucket itself
    obtain ⟨t, ht⟩ := hstart
    obtain ⟨rfl, rfl⟩ := List.cons.inj ht
    simp only [deleteEntry, List.getLast?_nil]
    cases r with
    | nil =>
      have hend : mgm.next = 0 := hnext.trans hlink
      rw [if_neg (fun hne => hne hend)]
      refine ⟨chain, h.of_delete
        (s.writeEntry (caps.hash k) (mgm.withGid (Vector.replicate 16 0))) h.amgms
        rfl (h.chains.clear hb hc hi.2 ?_ ?_ ?_) _⟩
      · simp only [writeEntry_mem, if_true]
        exact Mgm.content_eq_none.mpr hzero
      · intro j hj
        simp only [writeEntry_mem, if_neg hj]
      · intro j
        simp only [writeEntry_mem]
        split
        next hj => rw [hj]; exact hnext
        · rfl
    | cons a r =>
      have ha : mgm.next = a := hnext.trans hlink
      have hmem : a ∈ chain (caps.hash k) := by rw [hc]; simp
      have hne : a ≠ caps.hash k := fun he => (nodup_cons.mp hnodup).1 (by rw [he]; simp)
      obtain ⟨a, rfl, hused⟩ := hover hmem hne
      have hpos : mgm.next ≠ 0 := by rw [ha]; omega
      rw [if_pos hpos, ha]
      obtain ⟨hamgms, htable, hmemeq, hsteer⟩ := freeAmgm_spec (s := s.writeEntry (caps.hash k)
        (s.mem (caps.numMgms + a))) (by exact h.amgms) hused
      generalize freeAmgm caps (s.writeEntry (caps.hash k) (s.mem (caps.numMgms + a)))
        (caps.numMgms + a) = s' at hamgms htable hmemeq hsteer
      have hpull : Chains caps.hash caps.numMgms (fun j => (s'.mem j).next)
        (fun j => (s'.mem j).content)
          (fun a => s'.bitmap.table a = true)
            (Function.update chain (caps.hash k) (caps.hash k :: r)) ∧
          ∀ k' l', (∃ j, StoredAt caps s'
            (Function.update chain (caps.hash k) (caps.hash k :: r)) j k' l') ↔
            k' ≠ k ∧ ∃ j, StoredAt caps s chain j k' l' := by
        refine h.chains.pull caps.hash_lt hb hc hi.2 ?_ ?_ ?_ ?_ htable
        · simp [hmemeq, writeEntry_mem]
        · intro j hj
          simp only [hmemeq, writeEntry_mem, if_neg hj]
        · simp [hmemeq, writeEntry_mem]
        · intro j hj
          simp only [hmemeq, writeEntry_mem, if_neg hj]
      refine ⟨_, ⟨hpull.1, hamgms, fun j k' l' hj => ?_⟩, hpull.2, fun hn => ?_, hsteer⟩
      · obtain ⟨-, j', hj'⟩ := (hpull.2 k' l').mp ⟨j, hj⟩
        exact h.members j' k' l' hj'
      · exact absurd ⟨trivial, nofun⟩ hn
  · -- a later entry: the one before it is linked to the one after it
    have hne : i ≠ caps.hash k := by
      obtain ⟨t, ht⟩ := hstart
      rw [ht] at hnodup
      intro he
      refine (nodup_cons.mp hnodup).1 ?_
      have hmem : i ∈ t := by
        cases l with
        | nil => rw [← (List.cons.inj ht).2]; simp
        | cons x l => rw [← (List.cons.inj ht).2]; simp
      exact he ▸ hmem
    obtain ⟨a, rfl, hused⟩ := hover hi.1 hne
    simp only [deleteEntry, concat_eq_append, List.getLast?_append_cons, List.getLast?_singleton]
    obtain ⟨hamgms, htable, hmemeq, hsteer⟩ := freeAmgm_spec
      (s := s.writeEntry p ((s.mem p).withNext mgm.next)) (by exact h.amgms) hused
    have hc' : chain (caps.hash k) = l ++ p :: (caps.numMgms + a) :: r := by rw [hc]; simp
    have hlt : mgm.next < 2 ^ 26 := by
      rw [hnext, hlink]
      cases r with
      | nil => simp
      | cons x r =>
        have := h.index_lt hb (i := x) (by rw [hc]; simp)
        exact Nat.lt_of_lt_of_le this hindex
    refine ⟨_, h.of_delete _ hamgms hsteer
      (h.chains.unlink caps.hash_lt hb hc' hi.2 ?_ ?_ ?_ htable) _⟩
    · intro j
      simp only [hmemeq, writeEntry_mem]
      split
      next hj => rw [hj, Mgm.content_withNext]
      · rfl
    · simp only [hmemeq, writeEntry_mem, if_true]
      rw [Mgm.next_withNext hlt, hnext]
    · intro j hj
      simp only [hmemeq, writeEntry_mem, if_neg hj]

/-- The entry of a key with one member less. -/
theorem store_pop (h : Table caps s chain) {gid : Gid} {prot : Protocol} {ms : List Nat}
    {i qpn loc : Nat}
    (hi : StoredAt caps s chain i (gid, prot.val) ms) (hloc : (s.mem i).findQp qpn = some loc)
    (hcount : ((s.mem i).pop loc prot.val).count ≠ 0) :
    Stores caps s (s.writeEntry i ((s.mem i).pop loc prot.val)) chain chain i (gid, prot.val)
      ((s.mem i).pop loc prot.val).members := by
  have hle := caps.qp_le
  have hcnt := h.count_lt hi
  obtain ⟨-, hnodup⟩ := h.members i _ ms hi
  rw [← hi.members_eq] at hnodup
  have hlt : (s.mem i).count < 2 ^ 24 := by omega
  have hpop := Mgm.mem_members_pop (p := prot.val) hlt hnodup hloc
  have hgid := (Mgm.content_eq_some.mp hi.2).2.1
  refine h.of_store _ (by exact h.amgms) ?_ hpop.1 rfl ?_
  · rw [Mgm.length_members, Mgm.count_pop hlt]
    omega
  · refine h.chains.store caps.hash_lt hi.1 ?_ ?_ ?_ ?_ ?_
    · intro k' w hw
      have := hi.2.symm.trans hw
      cases this
      rfl
    · exact fun j hj w hw => (h.chains.at_unique caps.hash_lt ⟨hj, hw⟩ hi).1
    · simp only [writeEntry_mem, if_true]
      refine Mgm.content_eq_some.mpr ⟨fun hnil => hcount ?_, hgid, ?_, rfl⟩
      · rw [← Mgm.length_members, hnil]
        rfl
      · exact Mgm.packCount_shiftRight (by omega)
    · intro j hj
      simp only [writeEntry_mem, if_neg hj]
    · intro j
      simp only [writeEntry_mem]
      split
      next hj => rw [hj]; rfl
      · rfl

/-! ## Runs -/

/-- Calls for QPs, whose numbers have 24 bits. -/
inductive McgCall where
  | attach (mailboxes : Bool) (qpn : Fin (2 ^ 24)) (gid : Gid) (blockMcastLoopback : Bool)
      (prot : Protocol) (steer : SteerType)
  | detach (mailboxes : Bool) (qpn : Fin (2 ^ 24)) (gid : Gid) (prot : Protocol) (steer : SteerType)
  deriving DecidableEq

def McgCall.prot : McgCall → Protocol
  | .attach _ _ _ _ prot _ => prot
  | .detach _ _ _ prot _ => prot

/-- The table with the attachments whose calls succeeded and that were not detached. -/
structure McgRun where
  table : McgState
  attached : List (Gid × Protocol × Nat)

def mcgStep (caps : McgCaps) (s : McgRun) : McgCall → McgRun
  | .attach mailboxes qpn gid block prot steer =>
    let r := qpAttachCommon caps s.table mailboxes qpn gid block prot steer
    { table := r.1
      attached := if r.2 = none then (gid, prot, qpn.val) :: s.attached else s.attached }
  | .detach mailboxes qpn gid prot steer =>
    let r := qpDetachCommon caps s.table mailboxes qpn gid prot steer
    { table := r.1
      attached := if r.2 = none then s.attached.filter (· ≠ (gid, prot, qpn.val)) else s.attached }

/-- After `mlx4_init_mcg_table`: the MGM entries are empty. -/
def McgRun.start (caps : McgCaps) (bitmap : BitmapAllocator) (amgm : Nat → Mgm)
    (steer : Nat → SteerType → Steer) : McgRun :=
  { table :=
      { mem := fun i => if i < caps.numMgms then Mgm.zero else amgm i
        bitmap := bitmap
        steer := steer }
    attached := [] }

/-- What is stored is what is attached. -/
structure McgInv (caps : McgCaps) (s : McgRun) (chain : Nat → List Nat) : Prop where
  table : Table caps s.table chain
  attached : ∀ gid (prot : Protocol) q, (gid, prot, q) ∈ s.attached ↔
    ∃ i l, StoredAt caps s.table chain i (gid, prot.val) l ∧ q ∈ l

theorem Protocol.val_inj {p q : Protocol} (h : p.val = q.val) : p = q := by
  cases p <;> cases q <;> first | rfl | cases h

theorem Mgm.content_zero : Mgm.zero.content = none := Mgm.content_eq_none.mpr Mgm.count_zero

theorem start_not_stored (bitmap : BitmapAllocator) (amgm : Nat → Mgm)
    (steer : Nat → SteerType → Steer)
    (i : Nat) (k : Gid × Nat) (l : List Nat) :
    ¬ StoredAt caps (McgRun.start caps bitmap amgm steer).table (fun b => [b]) i k l := by
  rintro ⟨hi, hc⟩
  rw [mem_singleton] at hi
  have hmem : (McgRun.start caps bitmap amgm steer).table.mem i = Mgm.zero :=
    if_pos (hi ▸ caps.hash_lt k)
  simp only [hmem, Mgm.content_zero] at hc
  cases hc

theorem start_mcgInv {bitmap : BitmapAllocator} (hb : initMcgTable caps true = some bitmap)
    (amgm : Nat → Mgm) (steer : Nat → SteerType → Steer) :
    McgInv caps (.start caps bitmap amgm steer) (fun b => [b]) := by
  obtain ⟨hamgms, htable⟩ := Amgms.init hb
  have hzero {b : Nat} (hb : b < caps.numMgms) :
      (McgRun.start caps bitmap amgm steer).table.mem b = Mgm.zero := if_pos hb
  have hnone := @start_not_stored caps bitmap amgm steer
  refine ⟨⟨?_, hamgms, fun i k l hi => absurd hi (hnone i k l)⟩, fun gid prot q => ?_⟩
  · constructor
    case start => exact fun b _ => ⟨[], rfl⟩
    case linked =>
      intro b hb
      refine ⟨?_, trivial⟩
      simp only [hzero hb]
      exact Nat.zero_shiftRight 6
    case nodup => exact fun b _ => nodup_singleton b
    case overflow => exact fun b _ i hi => .inl (mem_singleton.mp hi)
    case disjoint =>
      exact fun b _ b' _ i hi hi' => (mem_singleton.mp hi).symm.trans (mem_singleton.mp hi')
    case used =>
      intro a
      have hfalse : (McgRun.start caps bitmap amgm steer).table.bitmap.table a = false := htable a
      simp only [hfalse, Bool.false_eq_true, mem_singleton, false_iff, not_exists, not_and]
      omega
    case full => exact fun b _ i hi hne => absurd (mem_singleton.mp hi) hne
    case empty => exact fun b _ _ => rfl
    case hashed =>
      intro b hb i hi k v hc
      simp only [mem_singleton.mp hi, hzero hb, Mgm.content_zero] at hc
      cases hc
    case unique =>
      exact fun b _ i hi j hj _ _ _ _ _ => (mem_singleton.mp hi).trans (mem_singleton.mp hj).symm
  · constructor
    · exact nofun
    · rintro ⟨i, l, hi, -⟩
      exact absurd hi (hnone i _ l)

section

variable {r : McgRun} {t : McgState} {attached : List (Gid × Protocol × Nat)} {gid : Gid}
    {prot : Protocol}

variable {i : Nat}

/-- The members attached for a key are those of its entry. -/
theorem McgInv.mem_iff (h : McgInv caps r chain) {l : List Nat}
    (hi : StoredAt caps r.table chain i (gid, prot.val) l) (q : Nat) :
    (gid, prot, q) ∈ r.attached ↔ q ∈ l := by
  rw [h.attached]
  constructor
  · rintro ⟨j, l', hj, hq⟩
    obtain ⟨-, rfl⟩ := h.table.chains.at_unique caps.hash_lt hj hi
    exact hq
  · exact fun hq => ⟨i, l, hi, hq⟩

theorem key_ne {gid' : Gid} {prot' : Protocol} (h : ¬ (gid' = gid ∧ prot' = prot)) :
    (gid', prot'.val) ≠ (gid, prot.val) := by
  intro he
  obtain ⟨hg, hp⟩ := Prod.mk.inj he
  exact h ⟨hg, Protocol.val_inj hp⟩

theorem McgInv.of_stores (h : McgInv caps r chain) {l : List Nat}
    (hs : Stores caps r.table t chain chain' i (gid, prot.val) l)
    (hq : ∀ q, (gid, prot, q) ∈ attached ↔ q ∈ l)
    (hother : ∀ gid' prot' q, ¬ (gid' = gid ∧ prot' = prot) →
      ((gid', prot', q) ∈ attached ↔ (gid', prot', q) ∈ r.attached)) :
    McgInv caps ⟨t, attached⟩ chain' := by
  refine ⟨hs.table, fun gid' prot' q => ?_⟩
  by_cases hk : gid' = gid ∧ prot' = prot
  · obtain ⟨rfl, rfl⟩ := hk
    rw [hq q]
    constructor
    · exact fun hm => ⟨i, l, hs.stored, hm⟩
    · rintro ⟨j, l', hj, hm⟩
      obtain ⟨-, rfl⟩ := hs.table.chains.at_unique caps.hash_lt hj hs.stored
      exact hm
  · rw [hother gid' prot' q hk, h.attached]
    simp only [hs.others _ _ _ (key_ne hk)]

theorem McgInv.of_deletes (h : McgInv caps r chain) {moved : Prop}
    (hd : Deletes caps r.table t chain chain' (gid, prot.val) moved)
    (hq : ∀ q, (gid, prot, q) ∉ attached)
    (hother : ∀ gid' prot' q, ¬ (gid' = gid ∧ prot' = prot) →
      ((gid', prot', q) ∈ attached ↔ (gid', prot', q) ∈ r.attached)) :
    McgInv caps ⟨t, attached⟩ chain' := by
  refine ⟨hd.table, fun gid' prot' q => ?_⟩
  by_cases hk : gid' = gid ∧ prot' = prot
  · obtain ⟨rfl, rfl⟩ := hk
    refine iff_of_false (hq q) ?_
    rintro ⟨j, l', hj, -⟩
    exact ((hd.others _ l').mp ⟨j, hj⟩).1 rfl
  · rw [hother gid' prot' q hk, h.attached]
    constructor
    · rintro ⟨j, l', hj, hm⟩
      obtain ⟨j', hj'⟩ := (hd.others _ l').mpr ⟨key_ne hk, j, hj⟩
      exact ⟨j', l', hj', hm⟩
    · rintro ⟨j, l', hj, hm⟩
      obtain ⟨-, j', hj'⟩ := (hd.others _ l').mp ⟨j, hj⟩
      exact ⟨j', l', hj', hm⟩

/-- For a protocol other than Ethernet nothing is done at the label `out`. -/
theorem attachOut_ib (hprot : prot ≠ .eth) {qpn port : Nat} {steer : SteerType} {k : Gid × Nat}
    {a : Attached} (h : AttachSpec caps s chain qpn k a) :
    attachOut caps qpn port prot steer a = (a.state, a.err) := by
  cases h <;> simp [attachOut, if_neg hprot]

theorem attach_mcgInv (h : McgInv caps r chain) (hprot : prot ≠ .eth) (mailboxes : Bool)
    (qpn : Fin (2 ^ 24)) (block : Bool) (steer : SteerType) :
    ∃ chain', McgInv caps (mcgStep caps r (.attach mailboxes qpn gid block prot steer)) chain' := by
  cases mailboxes with
  | false => exact ⟨chain, h⟩
  | true =>
    have hspec := attachEntry_spec h.table qpn.isLt gid block prot
    simp only [mcgStep, qpAttachCommon, if_true, attachOut_ib hprot hspec]
    generalize attachEntry caps r.table qpn gid block prot = a at hspec
    have hcons (gid' : Gid) (prot' : Protocol) (q : Nat) (hk : ¬ (gid' = gid ∧ prot' = prot)) :
        (gid', prot', q) ∈ (gid, prot, qpn.val) :: r.attached ↔ (gid', prot', q) ∈ r.attached := by
      rw [mem_cons, or_iff_right]
      intro he
      simp only [Prod.mk.injEq] at he
      exact hk ⟨he.1, he.2.1⟩
    cases hspec with
    | @noEntry b hb htable _ =>
      have hc := h.table.chains
      rw [← htable] at hc
      exact ⟨chain, ⟨hc, hb, h.table.members⟩, h.attached⟩
    | full hi hfull => exact ⟨chain, h⟩
    | @member i l hi hq =>
      refine ⟨chain, h.table, fun gid' prot' q => ?_⟩
      rw [← h.attached gid' prot' q, if_pos rfl, mem_cons, or_iff_right_of_imp]
      rintro he
      rw [he]
      exact (h.mem_iff hi _).mpr hq
    | @joined i l s' hi hq hs =>
      refine ⟨chain, h.of_stores hs (fun q => ?_) hcons⟩
      rw [if_pos rfl, mem_cons, h.mem_iff hi, mem_append, mem_singleton, or_comm]
      simp
    | @created i s' chain' link hnone hs =>
      refine ⟨chain', h.of_stores hs (fun q => ?_) hcons⟩
      have hnot : (gid, prot, q) ∉ r.attached := fun hm => by
        obtain ⟨j, l, hj, -⟩ := (h.attached _ _ _).mp hm
        exact hnone j l hj
      simp [hnot]

theorem qpDetachCommon_ib (hprot : prot ≠ .eth) {qpn : Nat} {steer : SteerType} {mgm : Mgm}
    {prev : Option Nat} (hfound : findEntry caps s gid prot = .entry mgm prev (some i)) :
    qpDetachCommon caps s true qpn gid prot steer =
      match mgm.findQp qpn with
      | none => (s, some .einval)
      | some loc =>
        if (mgm.pop loc prot.val).count = 0 then
          (deleteEntry caps s ((mgm.pop loc prot.val).withNoMembers prot.val) prev i, none)
        else (s.writeEntry i (mgm.pop loc prot.val), none) := by
  simp only [qpDetachCommon, hfound, if_neg hprot]
  cases mgm.findQp qpn with
  | none => rfl
  | some loc => by_cases hz : (mgm.pop loc prot.val).count = 0 <;> simp [hz, hprot]

theorem detach_mcgInv (h : McgInv caps r chain) (hprot : prot ≠ .eth) (mailboxes : Bool)
    (qpn : Fin (2 ^ 24)) (steer : SteerType) :
    ∃ chain', McgInv caps (mcgStep caps r (.detach mailboxes qpn gid prot steer)) chain' := by
  cases mailboxes with
  | false => exact ⟨chain, h⟩
  | true =>
    have hfind := findEntry_spec h.table gid prot
    have hfilter (gid' : Gid) (prot' : Protocol) (q : Nat) (hk : ¬ (gid' = gid ∧ prot' = prot)) :
        (gid', prot', q) ∈ r.attached.filter (· ≠ (gid, prot, qpn.val)) ↔
          (gid', prot', q) ∈ r.attached := by
      rw [mem_filter, and_iff_left]
      simp only [ne_eq, Prod.mk.injEq, decide_eq_true_eq, not_and]
      exact fun hg hp => absurd ⟨hg, hp⟩ hk
    cases hfound : findEntry caps r.table gid prot with
    | running | zeroMgid =>
      rw [hfound] at hfind
      cases hfind
    | entry mgm prev index =>
      rw [hfound] at hfind
      cases hfind with
      | @hit l rest ms i hc hi =>
        have hle := caps.qp_le
        have hcnt := h.table.count_lt hi
        obtain ⟨-, hnodup⟩ := h.table.members i _ ms hi
        rw [← hi.members_eq] at hnodup
        have hlt : (r.table.mem i).count < 2 ^ 24 := by omega
        simp only [mcgStep, qpDetachCommon_ib hprot hfound]
        cases hloc : (r.table.mem i).findQp qpn with
        | none => exact ⟨chain, h⟩
        | some loc =>
          have hpop := Mgm.mem_members_pop (p := prot.val) hlt hnodup hloc
          have hmem (q : Nat) : (gid, prot, q) ∈ r.attached.filter (· ≠ (gid, prot, qpn.val)) ↔
              q ∈ ((r.table.mem i).pop loc prot.val).members := by
            rw [hpop.2, hi.members_eq, ← h.mem_iff hi, mem_filter]
            simp
          simp only
          split
          next hcount =>
            obtain ⟨chain', hdel⟩ := deleteEntry_spec h.table hc hi
              (((r.table.mem i).pop loc prot.val).withNoMembers prot.val) rfl
              (Mgm.packCount_and (by omega))
            refine ⟨chain', h.of_deletes hdel (fun q => ?_) hfilter⟩
            rw [if_pos rfl, hmem, Mgm.members_of_count hcount]
            exact not_mem_nil
          next hcount =>
            exact ⟨chain, h.of_stores (store_pop h.table hi hloc hcount) hmem hfilter⟩
      | empty hz =>
        have hnone : (r.table.mem (caps.hash (gid, prot.val))).findQp qpn = none := by
          rw [Mgm.findQp_eq_none, Mgm.members_of_count (Mgm.content_eq_none.mp hz)]
          exact not_mem_nil
        simp only [mcgStep, qpDetachCommon_ib hprot hfound, hnone]
        exact ⟨chain, h⟩
      | missing hc hhead hnone =>
        simp only [mcgStep, qpDetachCommon, hfound]
        exact ⟨chain, h⟩

end

/-- The chains as the driver's lookups rely on them. -/
structure ChainsIntact (caps : McgCaps) (r : McgRun) : Prop where
  /-- A key with an attached QP has one entry in its chain. -/
  stored : ∀ gid (prot : Protocol) q, (gid, prot, q) ∈ r.attached →
    ∃! i, Reach (fun i => (r.table.mem i).next) (caps.hash (gid, prot.val)) i ∧
      (r.table.mem i).count ≠ 0 ∧ (r.table.mem i).gid = gid ∧ (r.table.mem i).prot = prot.val
  /-- The members of an entry are the attached QPs. -/
  members : ∀ gid (prot : Protocol) i,
    Reach (fun i => (r.table.mem i).next) (caps.hash (gid, prot.val)) i →
    (r.table.mem i).count ≠ 0 → (r.table.mem i).gid = gid → (r.table.mem i).prot = prot.val →
    (r.table.mem i).members.Nodup ∧
      ∀ q, q ∈ (r.table.mem i).members ↔ (gid, prot, q) ∈ r.attached
  used : ∀ a < caps.numAmgms, r.table.bitmap.table a = true →
    ∃! b, b < caps.numMgms ∧ Reach (fun i => (r.table.mem i).next) b (caps.numMgms + a)
  free : ∀ a < caps.numAmgms, r.table.bitmap.table a = false →
    ∀ b < caps.numMgms, ¬ Reach (fun i => (r.table.mem i).next) b (caps.numMgms + a)
  acyclic : ∀ b < caps.numMgms, ∃ m,
    (r.table.mem ((fun i => (r.table.mem i).next)^[m] b)).next = 0
  /-- `find_entry` returns, and not with its error. -/
  found : ∀ gid prot, ∃ mgm prev index, findEntry caps r.table gid prot = .entry mgm prev index

theorem McgInv.chainsIntact {r : McgRun} (h : McgInv caps r chain) : ChainsIntact caps r := by
  have hc := h.table.chains
  have hstored {gid : Gid} {prot : Protocol} {i : Nat}
      (hr : Reach (fun i => (r.table.mem i).next) (caps.hash (gid, prot.val)) i)
      (hne : (r.table.mem i).count ≠ 0) (hg : (r.table.mem i).gid = gid)
      (hp : (r.table.mem i).prot = prot.val) :
      StoredAt caps r.table chain i (gid, prot.val) (r.table.mem i).members := by
    refine ⟨(hc.reach_iff (caps.hash_lt _)).mp hr,
      Mgm.content_eq_some.mpr ⟨fun hnil => hne ?_, hg, hp, rfl⟩⟩
    rw [← Mgm.length_members, hnil]
    rfl
  constructor
  case stored =>
    intro gid prot q hq
    obtain ⟨i, l, hi, -⟩ := (h.attached gid prot q).mp hq
    obtain ⟨hne, hg, hp, hl⟩ := Mgm.content_eq_some.mp hi.2
    refine ⟨i, ⟨(hc.reach_iff (caps.hash_lt _)).mpr hi.1, fun hz => hne ?_, hg, hp⟩, ?_⟩
    · rw [← hl, Mgm.members_of_count hz]
    · rintro j ⟨hr, hz, hg', hp'⟩
      exact (hc.at_unique caps.hash_lt (hstored hr hz hg' hp') hi).1
  case members =>
    intro gid prot i hr hz hg hp
    have hi := hstored hr hz hg hp
    exact ⟨(h.table.members i _ _ hi).2, fun q => (h.mem_iff hi q).symm⟩
  case used =>
    intro a _ ha
    obtain ⟨b, hb, hm⟩ := (hc.used a).mp ha
    refine ⟨b, ⟨hb, (hc.reach_iff hb).mpr hm⟩, ?_⟩
    rintro b' ⟨hb', hr⟩
    exact hc.disjoint b' hb' b hb _ ((hc.reach_iff hb').mp hr) hm
  case free =>
    intro a _ ha b hb hr
    have := (hc.used a).mpr ⟨b, hb, (hc.reach_iff hb).mp hr⟩
    rw [ha] at this
    cases this
  case acyclic => exact fun b hb => hc.ends hb
  case found =>
    intro gid prot
    have hfind := findEntry_spec h.table gid prot
    cases hfound : findEntry caps r.table gid prot with
    | entry mgm prev index => exact ⟨mgm, prev, index, rfl⟩
    | running | zeroMgid =>
      rw [hfound] at hfind
      cases hfind

/-- For every hash function and every sequence of attach and detach calls with protocols
other than Ethernet, the chains stay intact. -/
theorem mcg_chains_every_run (caps : McgCaps) (bitmap : BitmapAllocator) (amgm : Nat → Mgm)
    (steer : Nat → SteerType → Steer) (calls : List McgCall)
    (hb : initMcgTable caps true = some bitmap) (hprot : ∀ c ∈ calls, c.prot ≠ .eth) :
    ∀ r ∈ Run.states (mcgStep caps) (.start caps bitmap amgm steer) calls, ChainsIntact caps r := by
  have hsteps := @Run.steps_of_forall _ _ (mcgStep caps) _ _ hprot (.start caps bitmap amgm steer)
  have hinv : ∀ r ∈ Run.states (mcgStep caps) (.start caps bitmap amgm steer) calls,
      ∃ chain, McgInv caps r chain := by
    refine hsteps.invariant (fun r c hr hc => ?_) ⟨_, start_mcgInv hb amgm steer⟩
    obtain ⟨chain, h⟩ := hr
    cases c with
    | attach mailboxes qpn gid block prot steer =>
      exact attach_mcgInv h hc mailboxes qpn block steer
    | detach mailboxes qpn gid prot steer => exact detach_mcgInv h hc mailboxes qpn steer
  intro r hr
  obtain ⟨chain, h⟩ := hinv r hr
  exact h.chainsIntact

/-- One bucket and one overflow entry. -/
def oneBucket : McgCaps where
  numMgms := 1
  amgmLog := 0
  numQpPerMgm := 24
  numPorts := 1
  mfunc := false
  vepMcSteer := false
  blckLb := false
  gidHash _ _ := 0
  gidHash_lt _ _ := Nat.zero_lt_one
  index_lt := by decide
  qp_pos := by decide
  qp_le := by decide

attribute [local instance] neZero_qpns

/-- Two GIDs in one chain; the bucket takes over the entry of the second. -/
def collidingCalls : List McgCall :=
  let first : Gid := Vector.replicate 16 1
  let second : Gid := Vector.replicate 16 2
  [.attach true 7 first false .ibIpv6 .mc, .attach true 8 second true .ibIpv6 .mc,
    .detach true 7 first .ibIpv6 .mc]

theorem mcg_chains_colliding : ∃ bitmap, initMcgTable oneBucket true = some bitmap ∧
    (∀ c ∈ collidingCalls, c.prot ≠ .eth) ∧
    ∀ r ∈ Run.states (mcgStep oneBucket) (.start oneBucket bitmap (fun _ => Mgm.zero)
      fun _ _ => ⟨[], [], Mgm.zero⟩) collidingCalls, ChainsIntact oneBucket r := by
  have hb : ∃ bitmap, initMcgTable oneBucket true = some bitmap := by
    have hpow : oneBucket.numAmgms = roundupPowOfTwo oneBucket.numAmgms :=
      (BitmapState.roundupPowOfTwo_pow 0).symm
    exact ⟨_, by rw [initMcgTable, bitmapInit, if_neg (fun hne => hne hpow), if_pos rfl]⟩
  obtain ⟨bitmap, hb⟩ := hb
  have hprot : ∀ c ∈ collidingCalls, c.prot ≠ .eth := by decide
  exact ⟨bitmap, hb, hprot, mcg_chains_every_run oneBucket bitmap _ _ collidingCalls hb hprot⟩

end Mlx4
