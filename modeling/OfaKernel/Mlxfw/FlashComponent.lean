-- SUMMARY: Flashing one component (`mlxfw_fsm.c`).
import OfaKernel.Lib.CInt
import Mathlib.Algebra.Order.Group.Nat

/-!
# Flashing a component

The size of a block is what the device takes at once, rounded down to the alignment it asks for;
the loop runs up to the size of the component, rounded up. A block size of 0 makes it endless.
-/

namespace Mlxfw

def fsmMaxComponentSize : Nat := 10 * 2 ^ 20

/-- A reply of `component_query`. The alignment shifts an `int`, which is not defined
for 31 bits and more; the reply of a device has 4 bits for it. -/
structure ComponentQuery where
  compMaxSize : Nat
  compAlignBits : Nat
  compMaxWriteSize : Nat
  compMaxSize_lt : compMaxSize < 2 ^ 32
  compAlignBits_lt : compAlignBits < 31
  compMaxWriteSize_lt : compMaxWriteSize < 2 ^ 16

/-- `struct mlxfw_mfa2_component`; `data_size` is the number of bytes. -/
structure Component where
  data : List UInt8
  dataSize_lt : data.length < 2 ^ 32

/-- The arguments of one `fsm_block_download`: `size` bytes from `offset` on. -/
structure Block where
  offset : Nat
  size : Nat
deriving DecidableEq, Repr

/-- How the operations on the device end, 0 being success; `download n` is the result of the
`n`-th `fsm_block_download`. -/
structure FsmOps where
  query : Except Int ComponentQuery
  componentUpdate : Int
  waitDownload : Int
  download : Nat → Int
  verify : Int
  waitLocked : Int

/-- `MLXFW_ALIGN_DOWN`, on 32 bits. -/
def mlxfwAlignDown (x alignBits : Nat) : Nat := x &&& (2 ^ 32 - 2 ^ alignBits)

/-- `MLXFW_ALIGN_UP`, on 32 bits. -/
def mlxfwAlignUp (x alignBits : Nat) : Nat :=
  mlxfwAlignDown (U32.wrap (x + (2 ^ alignBits - 1))) alignBits

/-- The download loop from `offset` on, after `n` blocks: how it ends and the blocks it
passes. `none` if it needs more rounds than the fuel. -/
def downloadLoop (download : Nat → Int) (dataSize limit maxWriteSize : Nat) :
    Nat → Nat → Nat → Option (Int × List Block)
  | 0, _, _ => none
  | fuel + 1, n, offset =>
    if offset < limit then
      let blockSize := min (U32.sub dataSize offset) maxWriteSize % 2 ^ 16
      if download n ≠ 0 then some (download n, [⟨offset, blockSize⟩])
      else
        (downloadLoop download dataSize limit maxWriteSize fuel (n + 1)
            (U32.wrap (offset + maxWriteSize))).map fun r =>
          (r.1, ⟨offset, blockSize⟩ :: r.2)
    else some (0, [])

/-- What a call does: its result, the blocks it passed, and whether it canceled. -/
structure FlashResult where
  err : Int
  blocks : List Block
  canceled : Bool

/-- The errors of `mlxfw_flash_component` itself. -/
def einval : Int := -22

def flashComponent (fuel : Nat) (ops : FsmOps) (comp : Component) : Option FlashResult :=
  match ops.query with
  | .error err => some ⟨err, [], false⟩
  | .ok q =>
    let dataSize := comp.data.length
    if min q.compMaxSize fsmMaxComponentSize < dataSize then some ⟨einval, [], false⟩
    else
      let maxWriteSize := mlxfwAlignDown q.compMaxWriteSize q.compAlignBits % 2 ^ 16
      if ops.componentUpdate ≠ 0 then some ⟨ops.componentUpdate, [], false⟩
      else if ops.waitDownload ≠ 0 then some ⟨ops.waitDownload, [], true⟩
      else
        match downloadLoop ops.download dataSize (mlxfwAlignUp dataSize q.compAlignBits)
            maxWriteSize fuel 0 0 with
        | none => none
        | some (err, blocks) =>
          if err ≠ 0 then some ⟨err, blocks, true⟩
          else if ops.verify ≠ 0 then some ⟨ops.verify, blocks, true⟩
          else if ops.waitLocked ≠ 0 then some ⟨ops.waitLocked, blocks, true⟩
          else some ⟨0, blocks, false⟩

/-! ## Tiling -/

def Component.bytes (comp : Component) (b : Block) : List UInt8 :=
  (comp.data.drop b.offset).take b.size

/-- Each block starts where the one before it ends, the first one at `offset`. -/
def Consecutive : Nat → List Block → Prop
  | _, [] => True
  | offset, b :: bs => b.offset = offset ∧ Consecutive (offset + b.size) bs

/-- The blocks tile the component from `offset` on. -/
structure TilesFrom (q : ComponentQuery) (comp : Component) (offset : Nat) (blocks : List Block) :
    Prop where
  consecutive : Consecutive offset blocks
  nonempty : ∀ b ∈ blocks, 0 < b.size
  inside : ∀ b ∈ blocks, b.offset + b.size ≤ comp.data.length
  aligned : ∀ b ∈ blocks, 2 ^ q.compAlignBits ∣ b.offset
  bounded : ∀ b ∈ blocks, b.size ≤ q.compMaxWriteSize
  covers : blocks.flatMap comp.bytes = comp.data.drop offset

/-- The component is not too large, and the device lets the download begin. -/
def Downloads (ops : FsmOps) (q : ComponentQuery) (comp : Component) : Prop :=
  comp.data.length ≤ min q.compMaxSize fsmMaxComponentSize ∧
    ops.componentUpdate = 0 ∧ ops.waitDownload = 0

/-- The call returns; and if every block of a download is taken, the blocks tile the component. -/
def DownloadOk (q : ComponentQuery) (comp : Component) : Prop :=
  ∀ ops : FsmOps, ops.query = .ok q →
    ∃ fuel r, flashComponent fuel ops comp = some r ∧
      (Downloads ops q comp → (∀ n < r.blocks.length, ops.download n = 0) →
        TilesFrom q comp 0 r.blocks)

/-! ## Alignment -/

theorem alignDown_eq {x alignBits : Nat} (hx : x < 2 ^ 32) (ha : alignBits < 32) :
    mlxfwAlignDown x alignBits = x / 2 ^ alignBits * 2 ^ alignBits :=
  U32.and_high hx ha

theorem dvd_alignDown (x alignBits : Nat) (hx : x < 2 ^ 32) (ha : alignBits < 32) :
    2 ^ alignBits ∣ mlxfwAlignDown x alignBits := by
  rw [alignDown_eq hx ha]
  exact Nat.dvd_mul_left _ _

theorem alignDown_le (x alignBits : Nat) (hx : x < 2 ^ 32) (ha : alignBits < 32) :
    mlxfwAlignDown x alignBits ≤ x := by
  rw [alignDown_eq hx ha]
  exact Nat.div_mul_le_self _ _

theorem alignDown_pos_iff (x alignBits : Nat) (hx : x < 2 ^ 32) (ha : alignBits < 32) :
    0 < mlxfwAlignDown x alignBits ↔ 2 ^ alignBits ≤ x := by
  have hpos : 0 < 2 ^ alignBits := Nat.two_pow_pos _
  rw [alignDown_eq hx ha, Nat.mul_pos_iff_of_pos_right hpos, Nat.div_pos_iff]
  exact and_iff_right hpos

section Up

variable {x alignBits : Nat} (hx : x ≤ fsmMaxComponentSize) (ha : alignBits < 31)

include hx ha

theorem alignUp_eq :
    mlxfwAlignUp x alignBits = (x + (2 ^ alignBits - 1)) / 2 ^ alignBits * 2 ^ alignBits := by
  have hpow : 2 ^ alignBits ≤ 2 ^ 30 := Nat.pow_le_pow_right (by decide) (by omega)
  have hlt : x + (2 ^ alignBits - 1) < 2 ^ 32 := by
    unfold fsmMaxComponentSize at hx
    omega
  unfold mlxfwAlignUp
  rw [U32.wrap_of_lt hlt, alignDown_eq hlt (by omega)]

theorem le_alignUp : x ≤ mlxfwAlignUp x alignBits := by
  have hdiv := Nat.div_add_mod (x + (2 ^ alignBits - 1)) (2 ^ alignBits)
  rw [alignUp_eq hx ha, Nat.mul_comm]
  omega

/-- No multiple of the alignment lies between the size and the rounded size. -/
theorem lt_of_lt_alignUp {offset : Nat} (hdvd : 2 ^ alignBits ∣ offset)
    (hlt : offset < mlxfwAlignUp x alignBits) : offset < x := by
  obtain ⟨k, rfl⟩ := hdvd
  have hpos : 0 < 2 ^ alignBits := Nat.two_pow_pos _
  rw [alignUp_eq hx ha, Nat.mul_comm] at hlt
  have hk := Nat.lt_of_mul_lt_mul_right hlt
  have hle := Nat.div_mul_le_self (x + (2 ^ alignBits - 1)) (2 ^ alignBits)
  have hsucc := Nat.mul_le_mul_right (2 ^ alignBits) (Nat.succ_le_of_lt hk)
  rw [Nat.succ_mul, Nat.mul_comm k] at hsucc
  omega

end Up

theorem tilesFrom_nil (q : ComponentQuery) {comp : Component} {offset : Nat}
    (h : comp.data.length ≤ offset) : TilesFrom q comp offset [] where
  consecutive := trivial
  nonempty := by simp
  inside := by simp
  aligned := by simp
  bounded := by simp
  covers := by rw [List.flatMap_nil, List.drop_of_length_le h]

section Loop

variable {q : ComponentQuery} {comp : Component} {maxWriteSize : Nat}

/-- Once the write size is a positive multiple of the alignment, the loop ends, and the
blocks of a download without an error tile what is left. -/
theorem downloadLoop_tiles (hsize : comp.data.length ≤ fsmMaxComponentSize)
    (hpos : 0 < maxWriteSize) (hle : maxWriteSize ≤ q.compMaxWriteSize)
    (hdvd : 2 ^ q.compAlignBits ∣ maxWriteSize) (download : Nat → Int) (n offset : Nat)
    (hoff : 2 ^ q.compAlignBits ∣ offset) (hlt : offset < 2 ^ 31) :
    ∃ fuel r, downloadLoop download comp.data.length
        (mlxfwAlignUp comp.data.length q.compAlignBits) maxWriteSize fuel n offset = some r ∧
      ((∀ k < r.2.length, download (n + k) = 0) → r.1 = 0 ∧ TilesFrom q comp offset r.2) := by
  have hbits := q.compAlignBits_lt
  have hwrite := q.compMaxWriteSize_lt
  have hmax : fsmMaxComponentSize < 2 ^ 30 := by decide
  -- the distance to the end of the component goes down by a whole write
  induction hd : comp.data.length - offset using Nat.strong_induction_on generalizing n offset with
  | _ d ih =>
    by_cases hend : offset < mlxfwAlignUp comp.data.length q.compAlignBits
    · have hin := lt_of_lt_alignUp hsize hbits hoff hend
      have hsub : U32.sub comp.data.length offset = comp.data.length - offset :=
        U32.sub_of_le (by omega) (by omega)
      have hblock : min (U32.sub comp.data.length offset) maxWriteSize % 2 ^ 16 =
          min (comp.data.length - offset) maxWriteSize := by
        rw [hsub]
        exact Nat.mod_eq_of_lt (by omega)
      have hnext : U32.wrap (offset + maxWriteSize) = offset + maxWriteSize :=
        U32.wrap_of_lt (by omega)
      by_cases herr : download n = 0
      · obtain ⟨fuel, r, hrun, htile⟩ := ih (comp.data.length - (offset + maxWriteSize))
          (by omega) (n + 1) (offset + maxWriteSize) (Nat.dvd_add hoff hdvd) (by omega) rfl
        refine ⟨fuel + 1,
          (r.1, ⟨offset, min (comp.data.length - offset) maxWriteSize⟩ :: r.2), ?_, ?_⟩
        · simp only [downloadLoop, if_pos hend, herr, ne_eq, not_true, if_false, hblock, hnext,
            hrun, Option.map_some]
        · intro hok
          obtain ⟨hzero, ht⟩ := htile fun k hk => by
            have := hok (k + 1) (by simpa using hk)
            rwa [Nat.add_comm k 1, ← Nat.add_assoc] at this
          refine ⟨hzero, ?_⟩
          have hcovers : (Component.bytes comp ⟨offset,
              min (comp.data.length - offset) maxWriteSize⟩) ++
                comp.data.drop (offset + maxWriteSize) = comp.data.drop offset := by
            unfold Component.bytes
            rw [← List.drop_drop]
            have htake : (comp.data.drop offset).take
              (min (comp.data.length - offset) maxWriteSize) =
                (comp.data.drop offset).take maxWriteSize := by
              rw [Nat.min_comm, ← List.length_drop, ← List.take_take, List.take_length]
            rw [htake, List.take_append_drop]
          refine ⟨⟨rfl, ?_⟩, ?_, ?_, ?_, ?_, ?_⟩
          · -- a short block is the last one
            by_cases hshort : maxWriteSize ≤ comp.data.length - offset
            · rw [Nat.min_eq_right hshort]
              exact ht.consecutive
            · have hnil : r.2 = [] := by
                cases hblocks : r.2 with
                | nil => rfl
                | cons b bs =>
                  have hcons := ht.consecutive
                  have hins := ht.inside b (by simp [hblocks])
                  rw [hblocks] at hcons
                  rw [hcons.1] at hins
                  omega
              rw [hnil]
              trivial
          · rintro b (_ | ⟨_, hb⟩)
            · simp only
              omega
            · exact ht.nonempty b hb
          · rintro b (_ | ⟨_, hb⟩)
            · simp only
              omega
            · exact ht.inside b hb
          · rintro b (_ | ⟨_, hb⟩)
            · exact hoff
            · exact ht.aligned b hb
          · rintro b (_ | ⟨_, hb⟩)
            · simp only
              omega
            · exact ht.bounded b hb
          · rw [List.flatMap_cons, ht.covers]
            exact hcovers
      · refine ⟨1, (download n, [⟨offset, min (comp.data.length - offset) maxWriteSize⟩]), ?_, ?_⟩
        · simp only [downloadLoop, if_pos hend, ne_eq, herr, not_false_eq_true, if_true, hblock]
        · intro hok
          exact absurd (hok 0 (by simp)) herr
    · refine ⟨1, (0, []), by simp only [downloadLoop, if_neg hend], fun _ => ⟨rfl, ?_⟩⟩
      apply tilesFrom_nil
      exact (le_alignUp hsize hbits).trans (Nat.le_of_not_lt hend)

/-- With a write size of 0 the loop stays at its offset. -/
theorem downloadLoop_zero {dataSize limit offset : Nat} (hlt : offset < limit)
    (hoff : offset < 2 ^ 32) (fuel n : Nat) :
    downloadLoop (fun _ => 0) dataSize limit 0 fuel n offset = none := by
  induction fuel generalizing n with
  | zero => rfl
  | succ fuel ih =>
    have hnext : U32.wrap (offset + 0) = offset := U32.wrap_of_lt hoff
    simp only [downloadLoop, if_pos hlt, hnext, ih, ne_eq, not_true, if_false, Option.map_none]

end Loop

/-! ## Which replies tile -/

/-- The device takes at least one unit of its alignment at once, or there is nothing to write. -/
def TakesBlocks (q : ComponentQuery) (comp : Component) : Prop :=
  2 ^ q.compAlignBits ≤ q.compMaxWriteSize ∨ comp.data = [] ∨
    min q.compMaxSize fsmMaxComponentSize < comp.data.length

section Flash

variable {ops : FsmOps} {q : ComponentQuery} {comp : Component}

def writeSize (q : ComponentQuery) : Nat :=
  mlxfwAlignDown q.compMaxWriteSize q.compAlignBits % 2 ^ 16

theorem writeSize_eq (q : ComponentQuery) :
    writeSize q = mlxfwAlignDown q.compMaxWriteSize q.compAlignBits := by
  have hbits := q.compAlignBits_lt
  have hlt := q.compMaxWriteSize_lt
  have hle := alignDown_le q.compMaxWriteSize q.compAlignBits
    (by omega) (by omega)
  exact Nat.mod_eq_of_lt (by omega)

/-- A call that does not come to the loop returns at once. -/
theorem flashComponent_of_not (hq : ops.query = .ok q) (h : ¬Downloads ops q comp) :
    ∃ r, flashComponent 0 ops comp = some r := by
  unfold flashComponent
  simp only [hq]
  by_cases hfit : min q.compMaxSize fsmMaxComponentSize < comp.data.length
  · exact ⟨_, if_pos hfit⟩
  rw [if_neg hfit]
  by_cases hupdate : ops.componentUpdate = 0
  · have hwait : ops.waitDownload ≠ 0 := fun hwait =>
      h ⟨Nat.le_of_not_lt hfit, hupdate, hwait⟩
    rw [if_neg (not_not.mpr hupdate)]
    exact ⟨_, if_pos hwait⟩
  · exact ⟨_, if_pos hupdate⟩

theorem flashComponent_loop (hq : ops.query = .ok q) (h : Downloads ops q comp) (fuel : Nat) :
    (flashComponent fuel ops comp).map (fun r => r.blocks) =
      (downloadLoop ops.download comp.data.length
        (mlxfwAlignUp comp.data.length q.compAlignBits) (writeSize q) fuel 0 0).map
          fun r => r.2 := by
  obtain ⟨hfit, hupdate, hwait⟩ := h
  unfold flashComponent
  simp only [hq]
  rw [if_neg (Nat.not_lt.mpr hfit), if_neg (not_not.mpr hupdate), if_neg (not_not.mpr hwait)]
  change Option.map _ (match downloadLoop ops.download comp.data.length
    (mlxfwAlignUp comp.data.length q.compAlignBits) (writeSize q) fuel 0 0 with
    | none => none
    | some (err, blocks) => _) = _
  cases downloadLoop ops.download comp.data.length
      (mlxfwAlignUp comp.data.length q.compAlignBits) (writeSize q) fuel 0 0 with
  | none => rfl
  | some r =>
    simp only [Option.map_some]
    split_ifs <;> rfl

end Flash

/-- With a write size of 0 and every block taken, the call does not return. -/
theorem not_downloadOk {q : ComponentQuery} {comp : Component} (hnot : ¬TakesBlocks q comp) :
    ¬DownloadOk q comp := by
  intro h
  have hbits := q.compAlignBits_lt
  have hwrite := q.compMaxWriteSize_lt
  simp only [TakesBlocks, not_or, Nat.not_le, Nat.not_lt] at hnot
  obtain ⟨hsmall, hdata, hfit⟩ := hnot
  let ops : FsmOps := ⟨.ok q, 0, 0, fun _ => 0, 0, 0⟩
  obtain ⟨fuel, r, hrun, -⟩ := h ops rfl
  have hquery : ops.query = .ok q := rfl
  have hloop := flashComponent_loop hquery ⟨hfit, rfl, rfl⟩ fuel
  have hzero : writeSize q = 0 := by
    have hiff := alignDown_pos_iff q.compMaxWriteSize q.compAlignBits
      (by omega) (by omega)
    rw [writeSize_eq]
    omega
  have hlen : 0 < comp.data.length := List.length_pos_iff.mpr hdata
  have hle := le_alignUp (hfit.trans (Nat.min_le_right _ _)) hbits
  rw [hrun, hzero, downloadLoop_zero (by omega) (by decide)] at hloop
  cases hloop

theorem downloadLoop_of_takesBlocks {ops : FsmOps} {q : ComponentQuery} {comp : Component}
    (htakes : TakesBlocks q comp) (hdown : Downloads ops q comp) :
    ∃ fuel r, downloadLoop ops.download comp.data.length
        (mlxfwAlignUp comp.data.length q.compAlignBits) (writeSize q) fuel 0 0 = some r ∧
      ((∀ k < r.2.length, ops.download k = 0) → TilesFrom q comp 0 r.2) := by
  have hbits := q.compAlignBits_lt
  have hwrite := q.compMaxWriteSize_lt
  have hfit := hdown.1.trans (Nat.min_le_right _ _)
  rcases htakes with hunit | hnil | hlarge
  · have hsize := writeSize_eq q
    have hpos := (alignDown_pos_iff q.compMaxWriteSize q.compAlignBits
      (by omega) (by omega)).mpr hunit
    have hle := alignDown_le q.compMaxWriteSize q.compAlignBits
      (by omega) (by omega)
    have hdvd := dvd_alignDown q.compMaxWriteSize q.compAlignBits
      (by omega) (by omega)
    rw [← hsize] at hpos hle hdvd
    obtain ⟨fuel, r, hrun, htile⟩ := downloadLoop_tiles hfit hpos hle hdvd ops.download 0 0
      (Nat.dvd_zero _) (by decide)
    refine ⟨fuel, r, hrun, fun hok => (htile fun k hk => ?_).2⟩
    rw [Nat.zero_add]
    exact hok k hk
  · have hlen : comp.data.length = 0 := by rw [hnil]; rfl
    have hlimit : ¬0 < mlxfwAlignUp comp.data.length q.compAlignBits := by
      intro hpos
      have := lt_of_lt_alignUp hfit hbits (Nat.dvd_zero _) hpos
      omega
    exact ⟨1, (0, []), by simp only [downloadLoop, if_neg hlimit],
      fun _ => tilesFrom_nil q (by omega)⟩
  · exact absurd hdown.1 (Nat.not_le.mpr hlarge)

/-- The download ends and tiles the component exactly when the device takes at least one unit of
its alignment, unless there is nothing to write. -/
theorem download_tiles_iff (q : ComponentQuery) (comp : Component) :
    DownloadOk q comp ↔ TakesBlocks q comp := by
  constructor
  · intro h
    by_contra hnot
    exact not_downloadOk hnot h
  · intro htakes ops hq
    by_cases hdown : Downloads ops q comp
    · obtain ⟨fuel, r, hrun, htile⟩ := downloadLoop_of_takesBlocks htakes hdown
      have hloop := flashComponent_loop hq hdown fuel
      rw [hrun] at hloop
      obtain ⟨res, hres, hblocks⟩ := Option.map_eq_some_iff.mp hloop
      refine ⟨fuel, res, hres, fun _ hok => ?_⟩
      rw [hblocks] at hok ⊢
      exact htile hok
    · obtain ⟨r, hr⟩ := flashComponent_of_not hq hdown
      exact ⟨0, r, hr, fun h => absurd h hdown⟩

/-- A device with words of 4 bytes that takes 2 bytes at once. -/
def narrowQuery : ComponentQuery where
  compMaxSize := 1024
  compAlignBits := 2
  compMaxWriteSize := 2
  compMaxSize_lt := by decide
  compAlignBits_lt := by decide
  compMaxWriteSize_lt := by decide

/-- Its download of one byte does not end. -/
theorem narrowQuery_does_not_end : ¬DownloadOk narrowQuery ⟨[0], by decide⟩ := by
  apply not_downloadOk
  unfold TakesBlocks
  decide

end Mlxfw
