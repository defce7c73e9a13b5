-- SUMMARY: Packing a structure into a wire buffer and back.
import Mathlib.Data.List.Pairwise
import OfaKernel.Lib.BigEndian

/-!
# Packing and unpacking

A table of fields says where each field of a structure lies in a buffer of big-endian words. The
byte swaps of the source are part of reading and writing a word here.
-/

open List

namespace Packer

open BigEndian

/-- `struct ib_field`, without the name that only warnings print. -/
structure IbField where
  structOffsetBytes : Nat
  structSizeBytes : Nat
  offsetWords : Nat
  offsetBits : Nat
  sizeBits : Nat
deriving DecidableEq, Repr

def valueRead (offset size : Nat) (structure_ : Mem) : Nat :=
  if size = 1 ∨ size = 2 ∨ size = 4 ∨ size = 8 then read structure_ offset size else 0

def valueWrite (offset size val : Nat) (structure_ : Mem) : Mem :=
  if size = 1 ∨ size = 2 ∨ size = 4 ∨ size = 8 then write structure_ offset size val
  else structure_

/-- `*addr = (*addr & ~mask) | (val & mask)` for a word of `bytes` bytes. -/
def setMasked (buf : Mem) (addr bytes mask val : Nat) : Mem :=
  write buf addr bytes
    (read buf addr bytes &&& (2 ^ (8 * bytes) - (mask + 1)) ||| (val &&& mask))

/-- The mask of a field of at most 32 bits. -/
def mask32 (sizeBits shift : Nat) : Nat := ((1 <<< sizeBits - 1) <<< shift) % 2 ^ 32

/-- The mask of a field of at most 64 bits. -/
def mask64 (sizeBits shift : Nat) : Nat :=
  ((2 ^ 64 - 1) >>> (64 - sizeBits)) <<< shift % 2 ^ 64

/-- One turn of the loop of `ib_pack`. -/
def packField (structure_ buf : Mem) (f : IbField) : Mem :=
  if f.sizeBits ≤ 32 then
    let shift := 32 - f.offsetBits - f.sizeBits
    let val :=
      if f.structSizeBytes ≠ 0 then
        valueRead f.structOffsetBytes f.structSizeBytes structure_ <<< shift % 2 ^ 32
      else 0
    setMasked buf (4 * f.offsetWords) 4 (mask32 f.sizeBits shift) val
  else if f.sizeBits ≤ 64 then
    let shift := 64 - f.offsetBits - f.sizeBits
    let val :=
      if f.structSizeBytes ≠ 0 then
        valueRead f.structOffsetBytes f.structSizeBytes structure_ <<< shift % 2 ^ 64
      else 0
    setMasked buf (4 * f.offsetWords) 8 (mask64 f.sizeBits shift) val
  else if f.structSizeBytes ≠ 0 then
    copy buf (f.offsetWords * 4 + f.offsetBits / 8) structure_ f.structOffsetBytes (f.sizeBits / 8)
  else clear buf (f.offsetWords * 4 + f.offsetBits / 8) (f.sizeBits / 8)

def ibPack (desc : List IbField) (structure_ buf : Mem) : Mem :=
  desc.foldl (packField structure_) buf

/-- One turn of the loop of `ib_unpack`. A field of 33 to 64 bits is read at `offset_words` words
of 64 bits. -/
def unpackField (buf structure_ : Mem) (f : IbField) : Mem :=
  if f.structSizeBytes = 0 then structure_
  else if f.sizeBits ≤ 32 then
    let shift := 32 - f.offsetBits - f.sizeBits
    let val := (read buf (4 * f.offsetWords) 4 &&& mask32 f.sizeBits shift) >>> shift
    valueWrite f.structOffsetBytes f.structSizeBytes val structure_
  else if f.sizeBits ≤ 64 then
    let shift := 64 - f.offsetBits - f.sizeBits
    let val := (read buf (8 * f.offsetWords) 8 &&& mask64 f.sizeBits shift) >>> shift
    valueWrite f.structOffsetBytes f.structSizeBytes val structure_
  else
    copy structure_ f.structOffsetBytes buf (f.offsetWords * 4 + f.offsetBits / 8) (f.sizeBits / 8)

def ibUnpack (desc : List IbField) (buf structure_ : Mem) : Mem :=
  desc.foldl (unpackField buf) structure_

/-! ## Well-formed tables -/

namespace IbField

variable (f : IbField)

/-- The first bit of the field in the buffer. -/
def start : Nat := 32 * f.offsetWords + f.offsetBits

/-- Bit `b` of the buffer belongs to the field. -/
def Covers (b : Nat) : Prop := f.start ≤ b ∧ b < f.start + f.sizeBits

/-- Byte `x` of the structure belongs to the field. -/
def Holds (x : Nat) : Prop :=
  f.structOffsetBytes ≤ x ∧ x < f.structOffsetBytes + f.structSizeBytes

instance (b : Nat) : Decidable (f.Covers b) := inferInstanceAs (Decidable (_ ∧ _))

instance (x : Nat) : Decidable (f.Holds x) := inferInstanceAs (Decidable (_ ∧ _))

/-- A field of at most 32 bits lies in one word, one of at most 64 bits in the 64 bits at its
word, and a longer one has whole bytes. -/
structure WellFormed : Prop where
  word : f.sizeBits ≤ 32 → f.offsetBits + f.sizeBits ≤ 32
  double : 32 < f.sizeBits → f.sizeBits ≤ 64 → f.offsetBits + f.sizeBits ≤ 64
  size : f.sizeBits ≤ 64 → f.structSizeBytes ∈ [0, 1, 2, 4, 8]
  bytes : 64 < f.sizeBits → 8 ∣ f.offsetBits ∧ 8 ∣ f.sizeBits
  bytesSize : 64 < f.sizeBits → f.structSizeBytes = 0 ∨ f.structSizeBytes = f.sizeBits / 8

instance : Decidable f.WellFormed :=
  decidable_of_iff
    ((f.sizeBits ≤ 32 → f.offsetBits + f.sizeBits ≤ 32) ∧
      (32 < f.sizeBits → f.sizeBits ≤ 64 → f.offsetBits + f.sizeBits ≤ 64) ∧
      (f.sizeBits ≤ 64 → f.structSizeBytes ∈ [0, 1, 2, 4, 8]) ∧
      (64 < f.sizeBits → 8 ∣ f.offsetBits ∧ 8 ∣ f.sizeBits) ∧
      (64 < f.sizeBits → f.structSizeBytes = 0 ∨ f.structSizeBytes = f.sizeBits / 8))
    ⟨fun ⟨h₁, h₂, h₃, h₄, h₅⟩ => ⟨h₁, h₂, h₃, h₄, h₅⟩,
      fun ⟨h₁, h₂, h₃, h₄, h₅⟩ => ⟨h₁, h₂, h₃, h₄, h₅⟩⟩

/-- The value of the field in a structure fits in its bits. -/
def Fits (structure_ : Mem) : Prop :=
  f.sizeBits ≤ 64 → valueRead f.structOffsetBytes f.structSizeBytes structure_ < 2 ^ f.sizeBits

end IbField

/-- The fields of a table have bits and bytes of their own. -/
structure Table (desc : List IbField) : Prop where
  wellFormed : ∀ f ∈ desc, f.WellFormed
  bits : desc.Pairwise fun f g => ∀ b, f.Covers b → ¬g.Covers b
  bytes : desc.Pairwise fun f g => ∀ x, f.Holds x → ¬g.Holds x

variable {desc : List IbField}

theorem Table.disjoint (hd : Table desc) {f g : IbField} (hf : f ∈ desc) (hg : g ∈ desc)
    (hne : f ≠ g) : ∀ x, f.Holds x → ¬g.Holds x := by
  have hsymm : Std.Symm fun f g : IbField => ∀ x, f.Holds x → ¬g.Holds x :=
    ⟨fun _ _ h x hg hf => h x hf hg⟩
  exact hd.bytes.forall hf hg hne

/-- The fields of the table follow one another from bit `a` up to bit `z`. -/
def Tiles : List IbField → Nat → Nat → Prop
  | [], a, z => a = z
  | f :: desc, a, z => f.start = a ∧ Tiles desc (a + f.sizeBits) z

/-- The members of the fields follow one another in the structure. -/
def InOrder (desc : List IbField) : Prop :=
  desc.Pairwise fun f g =>
    f.structSizeBytes = 0 ∨ g.structSizeBytes = 0 ∨
      f.structOffsetBytes + f.structSizeBytes ≤ g.structOffsetBytes

instance Tiles.decidable : ∀ (desc : List IbField) (a z : Nat), Decidable (Tiles desc a z)
  | [], a, z => inferInstanceAs (Decidable (a = z))
  | _ :: desc, _, z => @instDecidableAnd _ _ _ (Tiles.decidable desc _ z)

instance (desc : List IbField) : Decidable (InOrder desc) :=
  inferInstanceAs (Decidable (desc.Pairwise _))

theorem Tiles.le : ∀ {desc : List IbField} {a z : Nat}, Tiles desc a z → a ≤ z
  | [], _, _, h => Nat.le_of_eq h
  | _ :: _, _, _, ⟨_, h⟩ => Nat.le_trans (Nat.le_add_right _ _) h.le

/-- A bit belongs to a field just if it is in the range of the table. -/
theorem Tiles.covers_iff {a z : Nat} (h : Tiles desc a z) (b : Nat) :
    (∃ f ∈ desc, f.Covers b) ↔ a ≤ b ∧ b < z := by
  induction desc generalizing a with
  | nil =>
    have hz : a = z := h
    simp
    omega
  | cons f desc ih =>
    obtain ⟨hstart, hrest⟩ := h
    have hle := hrest.le
    simp only [mem_cons, exists_eq_or_imp, ih hrest]
    unfold IbField.Covers
    omega

theorem Tiles.disjoint {a z : Nat} (h : Tiles desc a z) :
    desc.Pairwise fun f g => ∀ b, f.Covers b → ¬g.Covers b := by
  induction desc generalizing a with
  | nil => exact .nil
  | cons f desc ih =>
    obtain ⟨hstart, hrest⟩ := h
    refine pairwise_cons.mpr ⟨fun g hg b hf hcov => ?_, ih hrest⟩
    have hlo := ((hrest.covers_iff b).mp ⟨g, hg, hcov⟩).1
    have hhi := hf.2
    omega

theorem InOrder.disjoint (h : InOrder desc) :
    desc.Pairwise fun f g => ∀ x, f.Holds x → ¬g.Holds x := by
  refine h.imp fun hfg x hf hg => ?_
  unfold IbField.Holds at hf hg
  omega

theorem Table.of_tiles {a z : Nat} (hwf : ∀ f ∈ desc, f.WellFormed) (htiles : Tiles desc a z)
    (horder : InOrder desc) : Table desc :=
  ⟨hwf, htiles.disjoint, horder.disjoint⟩

/-- Whatever was packed is unpacked, and packing only writes to the fields. -/
def RoundTrips (desc : List IbField) : Prop :=
  ∀ structure_ buf target : Mem, (∀ f ∈ desc, f.Fits structure_) →
    (∀ f ∈ desc, f.structSizeBytes ≠ 0 → ∀ x, f.Holds x →
      ibUnpack desc (ibPack desc structure_ buf) target x = structure_ x) ∧
    ∀ b, (∀ f ∈ desc, ¬f.Covers b) → bit (ibPack desc structure_ buf) b = bit buf b

theorem testBit_mask32 {sizeBits shift : Nat} (h : sizeBits + shift ≤ 32) (i : Nat) :
    (mask32 sizeBits shift).testBit i = decide (shift ≤ i ∧ i < shift + sizeBits) := by
  unfold mask32
  rw [Nat.testBit_mod_two_pow, Nat.testBit_shiftLeft, Nat.one_shiftLeft,
    Nat.testBit_two_pow_sub_one]
  rw [Bool.eq_iff_iff]
  simp
  omega

theorem testBit_mask64 {sizeBits shift : Nat} (h : sizeBits + shift ≤ 64) (i : Nat) :
    (mask64 sizeBits shift).testBit i = decide (shift ≤ i ∧ i < shift + sizeBits) := by
  unfold mask64
  rw [Nat.testBit_mod_two_pow, Nat.testBit_shiftLeft, Nat.testBit_shiftRight,
    Nat.testBit_two_pow_sub_one]
  rw [Bool.eq_iff_iff]
  simp
  omega

theorem mask32_lt (sizeBits shift : Nat) : mask32 sizeBits shift < 2 ^ 32 :=
  Nat.mod_lt _ (by decide)

theorem mask64_lt (sizeBits shift : Nat) : mask64 sizeBits shift < 2 ^ 64 :=
  Nat.mod_lt _ (by decide)

theorem bit_setMasked (buf : Mem) (addr : Nat) {bytes mask : Nat} (val b : Nat)
    (hmask : mask < 2 ^ (8 * bytes)) :
    bit (setMasked buf addr bytes mask val) b =
      if (8 * addr ≤ b ∧ b < 8 * (addr + bytes)) ∧ mask.testBit (8 * (addr + bytes) - 1 - b) then
        val.testBit (8 * (addr + bytes) - 1 - b)
      else bit buf b := by
  unfold setMasked
  rw [bit_write]
  by_cases hb : 8 * addr ≤ b ∧ b < 8 * (addr + bytes)
  · have hj : 8 * (addr + bytes) - 1 - b < 8 * bytes := by omega
    have hback : 8 * (addr + bytes) - 1 - (8 * (addr + bytes) - 1 - b) = b := by omega
    have hread := testBit_read buf addr bytes hj
    rw [hback] at hread
    rw [if_pos hb, Nat.testBit_or, Nat.testBit_and, Nat.testBit_and, hread,
      Nat.testBit_two_pow_sub_succ hmask]
    by_cases hm : mask.testBit (8 * (addr + bytes) - 1 - b)
    · simp [hb, hm]
    · simp [hm, hj]
  · rw [if_neg hb, if_neg fun h => hb h.1]

namespace IbField

/-- Bit `k` of a field in a structure, the most significant one first. -/
def fieldBit (f : IbField) (structure_ : Mem) (k : Nat) : Bool :=
  if f.structSizeBytes = 0 then false
  else if f.sizeBits ≤ 64 then
    (valueRead f.structOffsetBytes f.structSizeBytes structure_).testBit (f.sizeBits - 1 - k)
  else bit structure_ (8 * f.structOffsetBytes + k)

variable {f : IbField}

theorem testBit_shifted (structure_ : Mem) (shift width k : Nat) (hsize : f.sizeBits ≤ 64)
    (hk : k < f.sizeBits) (hfit : shift + f.sizeBits ≤ width) :
    (if f.structSizeBytes ≠ 0 then
        valueRead f.structOffsetBytes f.structSizeBytes structure_ <<< shift % 2 ^ width
      else 0).testBit (shift + (f.sizeBits - 1 - k)) = f.fieldBit structure_ k := by
  unfold fieldBit
  by_cases hzero : f.structSizeBytes = 0
  · simp [hzero]
  · have hlt : shift + (f.sizeBits - 1 - k) < width := by omega
    have hsub : shift + (f.sizeBits - 1 - k) - shift = f.sizeBits - 1 - k := by omega
    rw [if_pos hzero, if_neg hzero, if_pos hsize, Nat.testBit_mod_two_pow, Nat.testBit_shiftLeft,
      hsub]
    simp [hlt]

end IbField

open IbField

variable {f : IbField}

theorem bit_setMasked_field (structure_ buf : Mem) (b : Nat) {bytes shift mask : Nat}
    (hsize : f.sizeBits ≤ 64) (hshift : shift + (f.offsetBits + f.sizeBits) = 8 * bytes)
    (hlt : mask < 2 ^ (8 * bytes))
    (hmask : ∀ i, mask.testBit i = decide (shift ≤ i ∧ i < shift + f.sizeBits)) :
    bit (setMasked buf (4 * f.offsetWords) bytes mask
        (if f.structSizeBytes ≠ 0 then
          valueRead f.structOffsetBytes f.structSizeBytes structure_ <<< shift % 2 ^ (8 * bytes)
        else 0)) b =
      if f.Covers b then f.fieldBit structure_ (b - f.start) else bit buf b := by
  rw [bit_setMasked _ _ _ _ hlt, hmask]
  have hiff : ((8 * (4 * f.offsetWords) ≤ b ∧ b < 8 * (4 * f.offsetWords + bytes)) ∧
      decide (shift ≤ 8 * (4 * f.offsetWords + bytes) - 1 - b ∧
        8 * (4 * f.offsetWords + bytes) - 1 - b < shift + f.sizeBits) = true) ↔ f.Covers b := by
    rw [decide_eq_true_eq]
    unfold IbField.Covers IbField.start
    omega
  by_cases hb : f.Covers b
  · obtain ⟨hlo, hhi⟩ := id hb
    have hstart : f.start = 32 * f.offsetWords + f.offsetBits := rfl
    have hidx : 8 * (4 * f.offsetWords + bytes) - 1 - b =
        shift + (f.sizeBits - 1 - (b - f.start)) := by omega
    have hvalue := testBit_shifted (f := f) structure_ shift (8 * bytes) (b - f.start) hsize
      (by omega) (by omega)
    rw [if_pos (hiff.mpr hb), if_pos hb, hidx]
    exact hvalue
  · rw [if_neg (hiff.not.mpr hb), if_neg hb]

theorem bit_packField (hf : f.WellFormed) (structure_ buf : Mem) (b : Nat) :
    bit (packField structure_ buf f) b =
      if f.Covers b then f.fieldBit structure_ (b - f.start) else bit buf b := by
  unfold packField
  by_cases hsmall : f.sizeBits ≤ 32
  · have hword := hf.word hsmall
    rw [if_pos hsmall]
    exact bit_setMasked_field structure_ buf b (by omega) (by omega) (mask32_lt ..)
      fun i => testBit_mask32 (by omega) i
  by_cases hmid : f.sizeBits ≤ 64
  · have hdouble := hf.double (by omega) hmid
    rw [if_neg hsmall, if_pos hmid]
    exact bit_setMasked_field structure_ buf b hmid (by omega) (mask64_lt ..)
      fun i => testBit_mask64 (by omega) i
  · obtain ⟨⟨o, ho⟩, n, hn⟩ := hf.bytes (by omega)
    have hrange : (8 * (f.offsetWords * 4 + f.offsetBits / 8) ≤ b ∧
        b < 8 * (f.offsetWords * 4 + f.offsetBits / 8 + f.sizeBits / 8)) ↔ f.Covers b := by
      unfold IbField.Covers IbField.start
      omega
    have hstart : 8 * (f.offsetWords * 4 + f.offsetBits / 8) = f.start := by
      unfold IbField.start
      omega
    rw [if_neg hsmall, if_neg hmid]
    unfold IbField.fieldBit clear
    by_cases hzero : f.structSizeBytes = 0
    · rw [if_neg (not_not.mpr hzero), bit_copy, if_pos hzero]
      simp only [hrange]
      simp [bit]
    · rw [if_pos hzero, bit_copy, if_neg hzero, if_neg hmid]
      simp only [hrange]
      rw [hstart]

theorem bit_ibPack (hd : Table desc) (structure_ buf : Mem) (b : Nat) :
    (∀ f ∈ desc, f.Covers b →
      bit (ibPack desc structure_ buf) b = f.fieldBit structure_ (b - f.start)) ∧
    ((∀ f ∈ desc, ¬f.Covers b) → bit (ibPack desc structure_ buf) b = bit buf b) := by
  induction desc generalizing buf with
  | nil => exact ⟨fun f hf => by simp at hf, fun _ => rfl⟩
  | cons g desc ih =>
    have htail : Table desc :=
      ⟨fun f hf => hd.wellFormed f (mem_cons_of_mem _ hf), hd.bits.of_cons, hd.bytes.of_cons⟩
    obtain ⟨hin, hout⟩ := ih htail (packField structure_ buf g)
    have hg := bit_packField (hd.wellFormed g mem_cons_self) structure_ buf b
    constructor
    · intro f hf hcov
      rcases mem_cons.mp hf with rfl | hf
      · have hothers : ∀ f' ∈ desc, ¬f'.Covers b := fun f' hf' =>
          rel_of_pairwise_cons hd.bits hf' b hcov
        rw [if_pos hcov] at hg
        exact (hout hothers).trans hg
      · exact hin f hf hcov
    · intro hnone
      rw [if_neg (hnone g mem_cons_self)] at hg
      exact (hout fun f hf => hnone f (mem_cons_of_mem _ hf)).trans hg

/-! ## Unpacking -/

/-- What a field is read as: the masked word shifted down. -/
def unpackedValue (buf : Mem) (f : IbField) : Nat :=
  if f.sizeBits ≤ 32 then
    let shift := 32 - f.offsetBits - f.sizeBits
    (read buf (4 * f.offsetWords) 4 &&& mask32 f.sizeBits shift) >>> shift
  else
    let shift := 64 - f.offsetBits - f.sizeBits
    (read buf (8 * f.offsetWords) 8 &&& mask64 f.sizeBits shift) >>> shift

/-- The last bit that a field is read from. -/
def readEnd (f : IbField) : Nat :=
  if f.sizeBits ≤ 32 then f.start + f.sizeBits
  else 64 * f.offsetWords + f.offsetBits + f.sizeBits

theorem testBit_unpackedValue (hf : f.WellFormed) (hsize : f.sizeBits ≤ 64) (buf : Mem) (j : Nat) :
    (unpackedValue buf f).testBit j =
      (decide (j < f.sizeBits) && bit buf (readEnd f - 1 - j)) := by
  have hcommon : ∀ {addr bytes shift mask : Nat},
      shift + (f.offsetBits + f.sizeBits) = 8 * bytes →
      (∀ i, mask.testBit i = decide (shift ≤ i ∧ i < shift + f.sizeBits)) →
      8 * addr + f.offsetBits + f.sizeBits = readEnd f →
      ((read buf addr bytes &&& mask) >>> shift).testBit j =
        (decide (j < f.sizeBits) && bit buf (readEnd f - 1 - j)) := by
    intro addr bytes shift mask hshift hmask hend
    rw [Nat.testBit_shiftRight, Nat.testBit_and, hmask]
    by_cases hj : j < f.sizeBits
    · have hidx : 8 * (addr + bytes) - 1 - (shift + j) = readEnd f - 1 - j := by omega
      rw [testBit_read buf addr bytes (by omega), hidx]
      simp [hj]
    · simp [hj]
  unfold unpackedValue
  by_cases hsmall : f.sizeBits ≤ 32
  · have hword := hf.word hsmall
    have hend : 8 * (4 * f.offsetWords) + f.offsetBits + f.sizeBits = readEnd f := by
      unfold readEnd IbField.start
      rw [if_pos hsmall]
      omega
    rw [if_pos hsmall]
    exact hcommon (by omega) (fun i => testBit_mask32 (by omega) i) hend
  · have hdouble := hf.double (by omega) hsize
    have hend : 8 * (8 * f.offsetWords) + f.offsetBits + f.sizeBits = readEnd f := by
      unfold readEnd
      rw [if_neg hsmall]
      omega
    rw [if_neg hsmall]
    exact hcommon (by omega) (fun i => testBit_mask64 (by omega) i) hend

theorem unpackField_value (hf : f.WellFormed) (hne : f.structSizeBytes ≠ 0)
    (hsize : f.sizeBits ≤ 64) (buf target : Mem) :
    unpackField buf target f =
      write target f.structOffsetBytes f.structSizeBytes (unpackedValue buf f) := by
  have hbytes : f.structSizeBytes = 1 ∨ f.structSizeBytes = 2 ∨ f.structSizeBytes = 4 ∨
      f.structSizeBytes = 8 := by
    have hmem := hf.size hsize
    simp only [mem_cons, not_mem_nil, or_false] at hmem
    exact hmem.resolve_left hne
  unfold unpackField unpackedValue valueWrite
  by_cases hsmall : f.sizeBits ≤ 32
  · simp only [if_neg hne, if_pos hsmall, if_pos hbytes]
  · simp only [if_neg hne, if_neg hsmall, if_pos hsize, if_pos hbytes]

theorem unpackField_bytes (hf : f.WellFormed) (hne : f.structSizeBytes ≠ 0)
    (hsize : ¬f.sizeBits ≤ 64) (buf target : Mem) :
    unpackField buf target f =
      copy target f.structOffsetBytes buf (f.offsetWords * 4 + f.offsetBits / 8)
        f.structSizeBytes := by
  have hbytes := (hf.bytesSize (by omega)).resolve_left hne
  unfold unpackField
  rw [if_neg hne, if_neg (by omega), if_neg hsize, hbytes]

variable {x : Nat}

theorem unpackField_of_not_holds (hf : f.WellFormed) (buf target : Mem) (hx : ¬f.Holds x) :
    unpackField buf target f x = target x := by
  by_cases hzero : f.structSizeBytes = 0
  · unfold unpackField
    rw [if_pos hzero]
  by_cases hsize : f.sizeBits ≤ 64
  · rw [unpackField_value hf hzero hsize]
    exact write_of_not _ _ _ _ _ hx
  · rw [unpackField_bytes hf hzero hsize]
    exact copy_of_not _ _ _ _ _ hx

theorem unpackField_of_holds (hf : f.WellFormed) (buf target target' : Mem)
    (hx : f.structOffsetBytes ≤ x ∧ x < f.structOffsetBytes + f.structSizeBytes) :
    unpackField buf target f x = unpackField buf target' f x := by
  have hne : f.structSizeBytes ≠ 0 := by omega
  by_cases hsize : f.sizeBits ≤ 64
  · rw [unpackField_value hf hne hsize, unpackField_value hf hne hsize]
    unfold write
    rw [if_pos hx, if_pos hx]
  · rw [unpackField_bytes hf hne hsize, unpackField_bytes hf hne hsize]
    unfold copy
    rw [if_pos hx, if_pos hx]

theorem ibUnpack_of_holds (hd : Table desc) (buf target : Mem) (hf : f ∈ desc) (hx : f.Holds x) :
    ibUnpack desc buf target x = unpackField buf target f x := by
  have hrest : ∀ (desc : List IbField) (target : Mem), (∀ g ∈ desc, g.WellFormed) →
      (∀ g ∈ desc, ¬g.Holds x) → desc.foldl (unpackField buf) target x = target x := by
    intro desc
    induction desc with
    | nil => exact fun _ _ _ => rfl
    | cons g desc ih =>
      intro target hwf hnot
      have hg := unpackField_of_not_holds (hwf g mem_cons_self) buf target
        (hnot g mem_cons_self)
      exact (ih _ (fun f hf => hwf f (mem_cons_of_mem _ hf))
        fun f hf => hnot f (mem_cons_of_mem _ hf)).trans hg
  induction desc generalizing target with
  | nil => simp at hf
  | cons g desc ih =>
    have hwf : ∀ f ∈ desc, f.WellFormed := fun f hf => hd.wellFormed f (mem_cons_of_mem _ hf)
    rcases mem_cons.mp hf with rfl | hf
    · exact hrest desc _ hwf fun g hg => rel_of_pairwise_cons hd.bytes hg x hx
    · have htail := ih ⟨hwf, hd.bits.of_cons, hd.bytes.of_cons⟩ (unpackField buf target g) hf
      exact htail.trans (unpackField_of_holds (hwf f hf) _ _ _ hx)

/-! ## The round trip -/

theorem valueRead_eq (hf : f.WellFormed) (hne : f.structSizeBytes ≠ 0) (hsize : f.sizeBits ≤ 64)
    (structure_ : Mem) :
    valueRead f.structOffsetBytes f.structSizeBytes structure_ =
      read structure_ f.structOffsetBytes f.structSizeBytes := by
  have hmem := hf.size hsize
  simp only [mem_cons, not_mem_nil, or_false] at hmem
  exact if_pos (hmem.resolve_left hne)

/-- A field that is read where it was written comes back up to its width. -/
theorem unpackedValue_of_bits (hf : f.WellFormed) (hne : f.structSizeBytes ≠ 0)
    (hsize : f.sizeBits ≤ 64) {structure_ buf : Mem}
    (hbits : ∀ b, f.Covers b → bit buf b = f.fieldBit structure_ (b - f.start))
    (hplace : readEnd f = f.start + f.sizeBits) :
    unpackedValue buf f =
      valueRead f.structOffsetBytes f.structSizeBytes structure_ % 2 ^ f.sizeBits := by
  apply Nat.eq_of_testBit_eq
  intro j
  rw [testBit_unpackedValue hf hsize, hplace, Nat.testBit_mod_two_pow]
  by_cases hj : j < f.sizeBits
  · have hcov : f.Covers (f.start + f.sizeBits - 1 - j) := ⟨by omega, by omega⟩
    have hidx : f.sizeBits - 1 - (f.start + f.sizeBits - 1 - j - f.start) = j := by omega
    rw [hbits _ hcov]
    unfold IbField.fieldBit
    rw [if_neg hne, if_pos hsize, hidx]
  · simp [hj]

/-- A field that is read where it was written comes back. -/
theorem unpackField_of_bits (hf : f.WellFormed) {structure_ buf : Mem}
    (hbits : ∀ b, f.Covers b → bit buf b = f.fieldBit structure_ (b - f.start))
    (hfits : f.Fits structure_) (hplace : f.sizeBits ≤ 64 → readEnd f = f.start + f.sizeBits)
    (target : Mem) (hx : f.Holds x) : unpackField buf target f x = structure_ x := by
  obtain ⟨hlo, hhi⟩ := id hx
  have hne : f.structSizeBytes ≠ 0 := by omega
  by_cases hsize : f.sizeBits ≤ 64
  · have hvalue : unpackedValue buf f =
        read structure_ f.structOffsetBytes f.structSizeBytes := by
      rw [unpackedValue_of_bits hf hne hsize hbits (hplace hsize), Nat.mod_eq_of_lt (hfits hsize),
        valueRead_eq hf hne hsize]
    rw [unpackField_value hf hne hsize, hvalue, write_read, copy, if_pos ⟨hlo, hhi⟩]
    congr 1
    omega
  · obtain ⟨⟨o, ho⟩, n, hn⟩ := hf.bytes (by omega)
    have hbytes := (hf.bytesSize (by omega)).resolve_left hne
    rw [unpackField_bytes hf hne hsize, copy, if_pos ⟨hlo, hhi⟩]
    apply byte_eq_of_bits
    intro k hk
    have hcov : f.Covers (8 * (f.offsetWords * 4 + f.offsetBits / 8 +
        (x - f.structOffsetBytes)) + k) := by
      unfold IbField.Covers IbField.start
      omega
    rw [hbits _ hcov]
    unfold IbField.fieldBit
    rw [if_neg hne, if_neg hsize]
    congr 1
    unfold IbField.start
    omega

/-- Fields of 33 to 64 bits are read where they were written only at the start of the buffer. -/
def ReadInPlace (desc : List IbField) : Prop :=
  ∀ f ∈ desc, 32 < f.sizeBits → f.sizeBits ≤ 64 → f.structSizeBytes ≠ 0 → f.offsetWords = 0

theorem roundTrips_of_readInPlace (hd : Table desc) (hplace : ReadInPlace desc) :
    RoundTrips desc := by
  intro structure_ buf target hfits
  refine ⟨fun f hf hne x hx => ?_, fun b hb => (bit_ibPack hd structure_ buf b).2 hb⟩
  rw [ibUnpack_of_holds hd _ target hf hx]
  apply unpackField_of_bits (hd.wellFormed f hf) _ (hfits f hf) _ target hx
  · exact fun b hb => (bit_ibPack hd structure_ buf b).1 f hf hb
  · intro hsize
    unfold readEnd IbField.start
    by_cases hsmall : f.sizeBits ≤ 32
    · rw [if_pos hsmall]
    · rw [if_neg hsmall, hplace f hf (by omega) hsize hne]

/-- A structure with the value 1 in a field and zeros elsewhere. -/
def oneIn (f : IbField) : Mem := fun x =>
  if x = f.structOffsetBytes + f.structSizeBytes - 1 then 1 else 0

theorem oneIn_holds (hne : f.structSizeBytes ≠ 0) :
    f.Holds (f.structOffsetBytes + f.structSizeBytes - 1) :=
  ⟨by omega, by omega⟩

theorem read_oneIn (hne : f.structSizeBytes ≠ 0) :
    read (oneIn f) f.structOffsetBytes f.structSizeBytes = 1 := by
  obtain ⟨n, hn⟩ := Nat.exists_eq_succ_of_ne_zero hne
  have hrest : read (oneIn f) f.structOffsetBytes n = 0 := by
    apply read_eq_zero
    intro x hlo hhi
    exact if_neg (by omega)
  have hlast : oneIn f (f.structOffsetBytes + n) = 1 := if_pos (by omega)
  rw [hn, Nat.succ_eq_add_one, BigEndian.read, hrest, hlast]
  rfl

theorem valueRead_eq_zero {g : IbField} (hg : ∀ x, f.Holds x → ¬g.Holds x)
    (hne : f.structSizeBytes ≠ 0) :
    valueRead g.structOffsetBytes g.structSizeBytes (oneIn f) = 0 := by
  unfold valueRead
  split
  · apply read_eq_zero
    intro x hlo hhi
    refine if_neg fun hx => ?_
    have hholds := oneIn_holds hne
    rw [← hx] at hholds
    exact hg x hholds ⟨hlo, hhi⟩
  · rfl

theorem fieldBit_eq_false {g : IbField} (hwf : g.WellFormed) (hg : ∀ x, f.Holds x → ¬g.Holds x)
    (hne : f.structSizeBytes ≠ 0) {k : Nat} (hk : k < g.sizeBits) :
    g.fieldBit (oneIn f) k = false := by
  unfold IbField.fieldBit
  by_cases hzero : g.structSizeBytes = 0
  · rw [if_pos hzero]
  by_cases hsize : g.sizeBits ≤ 64
  · rw [if_neg hzero, if_pos hsize, valueRead_eq_zero hg hne, Nat.zero_testBit]
  · have hbytes := (hwf.bytesSize (by omega)).resolve_left hzero
    obtain ⟨-, n, hn⟩ := hwf.bytes (by omega)
    have hbyte : oneIn f ((8 * g.structOffsetBytes + k) / 8) = 0 := by
      refine if_neg fun hx => ?_
      have hholds := oneIn_holds hne
      exact hg _ hholds ⟨by omega, by omega⟩
    rw [if_neg hzero, if_neg hsize, bit, hbyte]
    simp

theorem bit_ibPack_oneIn (hd : Table desc) (hf : f ∈ desc) (hne : f.structSizeBytes ≠ 0)
    (hsize : f.sizeBits ≤ 64) {b : Nat} (hb : bit (ibPack desc (oneIn f) fun _ => 0) b = true) : b =
    f.start + f.sizeBits - 1 := by
  obtain ⟨hin, hout⟩ := bit_ibPack hd (oneIn f) (fun _ => 0) b
  by_cases hcov : ∃ g ∈ desc, g.Covers b
  · obtain ⟨g, hg, hcov⟩ := hcov
    rw [hin g hg hcov] at hb
    obtain ⟨hlo, hhi⟩ := id hcov
    by_cases hgf : g = f
    · subst hgf
      unfold IbField.fieldBit at hb
      rw [if_neg hne, if_pos hsize, valueRead_eq (hd.wellFormed g hf) hne hsize, read_oneIn hne,
        Nat.testBit_one_eq_true_iff_self_eq_zero] at hb
      omega
    · have hdisj := hd.disjoint hf hg (Ne.symm hgf)
      rw [fieldBit_eq_false (hd.wellFormed g hg) hdisj hne (by omega)] at hb
      cases hb
  · rw [hout fun g hg hc => hcov ⟨g, hg, hc⟩] at hb
    simp [bit] at hb

theorem readInPlace_of_roundTrips (hd : Table desc) (h : RoundTrips desc) : ReadInPlace desc := by
  intro f hf hlarge hsize hne
  have hwf := hd.wellFormed f hf
  have hfits : ∀ g ∈ desc, g.Fits (oneIn f) := by
    intro g hg hgsize
    by_cases hgf : g = f
    · subst hgf
      rw [valueRead_eq hwf hne hsize, read_oneIn hne]
      exact Nat.one_lt_two_pow (by omega)
    · rw [valueRead_eq_zero (hd.disjoint hf hg (Ne.symm hgf)) hne]
      exact Nat.two_pow_pos _
  have hholds := oneIn_holds hne
  have hone := (h (oneIn f) (fun _ => 0) (fun _ => 0) hfits).1 f hf hne _ hholds
  obtain ⟨hlo, hhi⟩ := id hholds
  rw [ibUnpack_of_holds hd _ _ hf hholds, unpackField_value hwf hne hsize, write,
    if_pos ⟨hlo, hhi⟩, oneIn, if_pos rfl, Nat.sub_self] at hone
  -- the lowest bit of what is unpacked has to be set
  have hbit := congrArg (fun v : BitVec 8 => v.getLsbD 0) hone
  have hvalue : (unpackedValue (ibPack desc (oneIn f) fun _ => 0) f).testBit 0 = true := by
    rw [Nat.mul_zero, Nat.shiftRight_zero, BitVec.getLsbD_ofNat] at hbit
    exact (Bool.and_eq_true_iff.mp hbit).2
  rw [testBit_unpackedValue hwf hsize, Bool.and_eq_true] at hvalue
  have hlow := hvalue.2
  have hplace := bit_ibPack_oneIn hd hf hne hsize hlow
  unfold readEnd IbField.start at hplace
  rw [if_neg (by omega)] at hplace
  omega

/-- What a table of fields packs is unpacked again exactly when each of its fields of 33 to 64
bits that is in the structure lies in the first word of the buffer. -/
theorem round_trips_iff {desc : List IbField} (hd : Table desc) :
    RoundTrips desc ↔ ReadInPlace desc :=
  ⟨readInPlace_of_roundTrips hd, roundTrips_of_readInPlace hd⟩

/-- A table with a field of each kind; the one of 64 bits lies at the start. -/
def exampleTable : List IbField :=
  [⟨0, 8, 0, 0, 64⟩, ⟨8, 1, 2, 0, 4⟩, ⟨0, 0, 2, 4, 12⟩, ⟨9, 2, 2, 16, 16⟩, ⟨16, 16, 3, 0, 128⟩]

theorem table_exampleTable : Table exampleTable where
  wellFormed := by
    intro f hf
    simp only [exampleTable, mem_cons, not_mem_nil, or_false] at hf
    rcases hf with rfl | rfl | rfl | rfl | rfl <;>
      exact ⟨by decide, by decide, by decide, by decide, by decide⟩
  bits := by
    simp [exampleTable, IbField.Covers, IbField.start]
    and_intros <;> intro <;> omega
  bytes := by
    simp [exampleTable, IbField.Holds]
    and_intros <;> intro <;> omega

theorem exampleTable_round_trips : RoundTrips exampleTable :=
  (round_trips_iff table_exampleTable).mpr (by unfold ReadInPlace; decide)

/-- A field of 64 bits in the second word is written there, but read from the third. -/
theorem second_word_not_unpacked : Table [⟨0, 8, 1, 0, 64⟩] ∧ ¬RoundTrips [⟨0, 8, 1, 0, 64⟩] := by
  have hd : Table [⟨0, 8, 1, 0, 64⟩] := by
    refine ⟨fun f hf => ?_, pairwise_singleton .., pairwise_singleton ..⟩
    rw [mem_singleton.mp hf]
    exact ⟨by decide, by decide, by decide, by decide, by decide⟩
  refine ⟨hd, fun h => ?_⟩
  have hplace := readInPlace_of_roundTrips hd h
  revert hplace
  unfold ReadInPlace
  decide

end Packer
