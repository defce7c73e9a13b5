-- SUMMARY: Taking a component out of the xz archive of an MFA2 file.
import OfaKernel.Mlxfw.Mfa2Lookup

/-!
# Components in the archive

`mlxfw_mfa2_file_component_get` decodes the archive up to the component through the buffer of the
result, and then the component into it. The decoder is a parameter. What is behind the allocation
belongs to others.
-/

open List

namespace Mlxfw

inductive XzRet where
  | ok
  | streamEnd
  | unsupportedCheck
  | memError
  | memlimitError
  | formatError
  | optionsError
  | dataError
  | bufError
deriving DecidableEq, Repr

/-- The xz decoder on the archive: `xz_dec_init`, and `xz_dec_run` with room for some bytes. -/
structure XzDec where
  State : Type
  init : Option State
  run : State → Nat → XzRet × List UInt8 × State

abbrev Memory := Nat → UInt8

/-- Bytes are written from the start of the buffer on. -/
def Memory.write (mem : Memory) (out : List UInt8) : Memory := fun p => out.getD p (mem p)

/-- `struct mlxfw_mfa2_component`: `data` are the `data_size` bytes that it points to. -/
structure Mfa2Component where
  index : Nat
  dataSize : Nat
  data : List UInt8
deriving DecidableEq, Repr

def compMagic : List UInt8 :=
  [0x23, 0x42, 0x49, 0x4E, 0x2E, 0x43, 0x4F, 0x4D, 0x50, 0x4F, 0x4E, 0x45, 0x4E, 0x54, 0x21, 0x23]

/-- `mlxfw_mfa2_xz_dec_run`: `finished`, the bytes written and the decoder after it. -/
def mfa2XzDecRun (x : XzDec) (s : x.State) (outSize : Nat) :
    Except Errno (Bool × List UInt8 × x.State) :=
  let r := x.run s outSize
  match r.1 with
  | .streamEnd => .ok (true, r.2)
  | .ok => .ok (false, r.2)
  | .memError => .error .enomem
  | _ => .error .einval

/-- The loop of `mlxfw_mfa2_file_cb_offset_xz` up to the offset, `currOff` bytes being skipped.
`off` is signed there, but the difference becomes a `size_t`. -/
def skipLoop (x : XzDec) (off size : Nat) :
    Nat → x.State → Nat → Memory → Option (Except Errno (x.State × Memory))
  | 0, _, _, _ => none
  | fuel + 1, s, currOff, mem =>
    let outSize := min size (off - currOff)
    if outSize = 0 then some (.ok (s, mem))
    else
      match mfa2XzDecRun x s outSize with
      | .error e => some (.error e)
      | .ok (finished, out, s) =>
        if finished then some (.error .einval)
        else if currOff + out.length = off then some (.ok (s, mem.write out))
        else skipLoop x off size fuel s (currOff + out.length) (mem.write out)

/-- `mlxfw_mfa2_file_cb_offset_xz`: the buffer after it. -/
def fileCbOffsetXz (x : XzDec) (fuel off size : Nat) (mem : Memory) :
    Option (Except Errno Memory) :=
  match x.init with
  | none => some (.error .einval)
  | some s =>
    match skipLoop x off size fuel s 0 mem with
    | none => none
    | some (.error e) => some (.error e)
    | some (.ok (s, mem)) =>
      match mfa2XzDecRun x s size with
      | .error e => some (.error e)
      | .ok (_, out, _) => some (.ok (mem.write out))

/-- `comp_buf_size`, a `u32`. -/
def compBufSize (compSize : Nat) : Nat := (compSize + compMagic.length) % 2 ^ 32

/-- `mlxfw_mfa2_file_component_get` behind the lookup; `alloc` tells whether the buffer, which
holds `mem`, can be allocated. -/
def componentGet (x : XzDec) (fuel : Nat) (alloc : Bool) (mem : Memory)
    (cbOffset compSize identifier : Nat) : Option (Except Errno Mfa2Component) :=
  if alloc then
    match fileCbOffsetXz x fuel cbOffset (compBufSize compSize) mem with
    | none => none
    | some (.error e) => some (.error e)
    | some (.ok mem) =>
      if (List.range compMagic.length).map mem ≠ compMagic then some (.error .einval)
      else some (.ok
        { index := identifier
          dataSize := compSize
          data := (List.range compSize).map fun i => mem (compMagic.length + i) })
  else some (.error .enomem)

def cbOffsetOf (fw : Firmware) (comp : Nat) : Nat :=
  be32At fw (comp + 4) * 2 ^ 32 + be32At fw (comp + 8)

def compSizeOf (fw : Firmware) (comp : Nat) : Nat := be32At fw (comp + 12)

def fileComponentGet (fuel : Nat) (fw : Firmware) (file : Mfa2File) (psid : List UInt8)
    (componentIndex : Int) (x : XzDec) (xzFuel : Nat) (alloc : Bool) (mem : Memory) :
    Parse (Option (Except Errno Mfa2Component)) := do
  match ← fileComponentFind fuel fw file psid componentIndex with
  | none => pure (some (.error .einval))
  | some comp => do
    let offsetH ← load32 fw (comp + 4)
    let offsetL ← load32 fw (comp + 8)
    let compSize ← load32 fw (comp + 12)
    let identifier ← load16 fw (comp + 2)
    pure (componentGet x xzFuel alloc mem (offsetH * 2 ^ 32 + offsetL) compSize identifier)

/-! ## What is expected of the decoder -/

/-- A call of the decoder writes the next bytes of the stream, as many as there is room for; it
says `XZ_OK` while there are more, and `XZ_STREAM_END` when it finds no more for the room. -/
structure XzDec.Writes (stream : List UInt8) (pos outSize : Nat) (ret : XzRet)
    (out : List UInt8) : Prop where
  out_eq : out = (stream.drop pos).take outSize
  ret_mem : ret = .ok ∨ ret = .streamEnd
  ok : pos + out.length < stream.length → ret = .ok
  streamEnd : out.length < outSize → ret = .streamEnd

/-- The decoder writes out the stream. -/
def XzDec.Decodes (x : XzDec) (stream : List UInt8) : Prop :=
  ∃ pos : x.State → Nat, (∀ s, x.init = some s → pos s = 0) ∧ ∀ s n,
    XzDec.Writes stream (pos s) n (x.run s n).1 (x.run s n).2.1 ∧
      pos (x.run s n).2.2 = pos s + (x.run s n).2.1.length

/-- A component that is returned is the part of the stream that the descriptor names. -/
def Extracts (stream : List UInt8) (cbOffset compSize : Nat) :
    Except Errno Mfa2Component → Prop
  | .error _ => True
  | .ok c =>
    (stream.drop cbOffset).take compMagic.length = compMagic ∧ c.dataSize = compSize ∧
      c.data.length = compSize ∧
      c.data = (stream.drop (cbOffset + compMagic.length)).take compSize

/-- The buffer of `size` bytes when `off` bytes of the stream have gone through it: each place
holds the last byte that went there. -/
def skipped (stream : List UInt8) (size off : Nat) (mem : Memory) : Memory := fun p =>
  if p < size ∧ p < off then stream.getD (p + (off - 1 - p) / size * size) 0 else mem p

variable {stream : List UInt8} {size off : Nat}

theorem skipped_of_lt {mem : Memory} {p r : Nat} (hp : p < size) (hlo : r * size + p < off)
    (hhi : off ≤ (r + 1) * size + p) :
    skipped stream size off mem p = stream.getD (p + r * size) 0 := by
  have hdiv : (off - 1 - p) / size = r := by
    rw [Nat.succ_mul] at hhi
    apply Nat.div_eq_of_lt_le
    · omega
    · rw [Nat.succ_mul]
      omega
  unfold skipped
  rw [if_pos ⟨hp, by omega⟩, hdiv]

theorem skipped_of_not {mem : Memory} {p : Nat} (h : ¬ (p < size ∧ p < off)) :
    skipped stream size off mem p = mem p := if_neg h

theorem skipped_zero (mem : Memory) : skipped stream size 0 mem = mem := by
  funext p
  exact skipped_of_not fun h => Nat.not_lt_zero p h.2

/-- One more piece. All pieces but the last fill the buffer. -/
theorem write_skipped {n : Nat} (mem : Memory) (rounds : Nat) (hn : n ≤ size)
    (hin : rounds * size + n ≤ stream.length) :
    (skipped stream size (rounds * size) mem).write ((stream.drop (rounds * size)).take n) =
      skipped stream size (rounds * size + n) mem := by
  have hlen : ((stream.drop (rounds * size)).take n).length = n := by
    rw [length_take, length_drop]
    omega
  funext p
  unfold Memory.write
  by_cases hp : p < n
  · -- a place of the piece
    have hnew : skipped stream size (rounds * size + n) mem p =
        stream.getD (p + rounds * size) 0 :=
      skipped_of_lt (by omega) (by omega) (by rw [Nat.succ_mul]; omega)
    rw [hnew, getD_eq_getElem _ _ (by omega), getD_eq_getElem _ _ (by omega),
      getElem_take, getElem_drop]
    congr 1
    exact Nat.add_comm _ _
  · -- a place that keeps what it has
    rw [getD_eq_default _ _ (by omega)]
    by_cases hsize : p < size
    · cases rounds with
      | zero =>
        rw [skipped_of_not (by omega), skipped_of_not (by omega)]
      | succ r =>
        have hmul : (r + 1) * size = r * size + size := Nat.succ_mul r size
        rw [skipped_of_lt (r := r) hsize (by omega) (by omega),
          skipped_of_lt (r := r) hsize (by omega) (by omega)]
    · rw [skipped_of_not (fun h => hsize h.1), skipped_of_not (fun h => hsize h.1)]

theorem XzDec.Writes.length {x : XzDec} {s : x.State} {pos n : Nat}
    (h : XzDec.Writes stream pos n (x.run s n).1 (x.run s n).2.1) :
    (x.run s n).2.1.length = min n (stream.length - pos) := by
  rw [h.out_eq, length_take, length_drop]

/-- How a call of the decoder ends. -/
theorem xzDecRun_of_decodes {x : XzDec} {s : x.State} {pos n : Nat}
    (h : XzDec.Writes stream pos n (x.run s n).1 (x.run s n).2.1) :
    ∃ finished, mfa2XzDecRun x s n = .ok (finished, (x.run s n).2) ∧
      (pos + (x.run s n).2.1.length < stream.length → finished = false) ∧
      ((x.run s n).2.1.length < n → finished = true) ∧
      (finished = true → (x.run s n).1 = .streamEnd) := by
  unfold mfa2XzDecRun
  dsimp only
  rcases h.ret_mem with hret | hret
  · rw [hret]
    refine ⟨false, rfl, fun _ => rfl, fun hshort => ?_, fun hno => by cases hno⟩
    have hend := h.streamEnd hshort
    rw [hret] at hend
    cases hend
  · rw [hret]
    refine ⟨true, rfl, fun hmore => ?_, fun _ => rfl, fun _ => rfl⟩
    have hok := h.ok hmore
    rw [hret] at hok
    cases hok

/-- The decoder says `XZ_STREAM_END` only when there is room left. -/
def XzDec.Lazy (x : XzDec) : Prop :=
  ∀ s n, (x.run s n).1 = .streamEnd → (x.run s n).2.1.length < n

/-- The loop skips to the offset, or it says that the stream ends before. -/
theorem skipLoop_spec {x : XzDec} {pos : x.State → Nat}
    (hdec : ∀ s n, XzDec.Writes stream (pos s) n (x.run s n).1 (x.run s n).2.1 ∧
      pos (x.run s n).2.2 = pos s + (x.run s n).2.1.length)
    (hsize : 0 < size) (mem : Memory) (off : Nat) {fuel : Nat} {s : x.State} (rounds : Nat)
    (hpos : pos s = rounds * size)
    (hoff : rounds * size ≤ off) (hin : rounds * size ≤ stream.length)
    (hfuel : stream.length < fuel + rounds * size) :
    skipLoop x off size fuel s (rounds * size) (skipped stream size (rounds * size) mem) =
        some (.error .einval) ∧ stream.length ≤ off ∧ (x.Lazy → stream.length < off) ∨
      (∃ s', skipLoop x off size fuel s (rounds * size)
          (skipped stream size (rounds * size) mem) =
        some (.ok (s', skipped stream size off mem)) ∧ pos s' = off) ∧ off ≤ stream.length := by
  induction fuel generalizing s rounds with
  | zero => omega
  | succ fuel ih =>
    unfold skipLoop
    by_cases hnone : min size (off - rounds * size) = 0
    · have heq : rounds * size = off := by omega
      rw [if_pos hnone]
      exact .inr ⟨⟨s, by rw [heq], hpos.trans heq⟩, by omega⟩
    · rw [if_neg hnone]
      obtain ⟨hwrites, hnext⟩ := hdec s (min size (off - rounds * size))
      obtain ⟨finished, hrun, hmore, hshort, hret⟩ := xzDecRun_of_decodes hwrites
      have hlazy : x.Lazy → _ := fun h => h s (min size (off - rounds * size))
      have hlen := hwrites.length
      have hout := hwrites.out_eq
      rw [hrun]
      generalize x.run s (min size (off - rounds * size)) = r at *
      obtain ⟨ret, out, s'⟩ := r
      dsimp only at hlen hout hmore hshort hnext hret hlazy ⊢
      rw [hpos] at hlen hmore hnext hout
      by_cases hfits : rounds * size + min size (off - rounds * size) ≤ stream.length
      · rw [Nat.min_eq_left (by omega)] at hlen
        have hwrite := write_skipped mem rounds (Nat.min_le_left _ _) hfits
        rw [← hout, ← hlen] at hwrite
        cases finished with
        | true =>
          -- the decoder may notice the end of the stream with the last piece
          have hend : ¬ rounds * size + out.length < stream.length :=
            fun hlt => Bool.noConfusion (hmore hlt)
          refine .inl ⟨rfl, by omega, fun h => ?_⟩
          have hroom := hlazy h (hret rfl)
          omega
        | false =>
          by_cases hdone : rounds * size + out.length = off
          · rw [if_pos hdone, hwrite, hdone]
            exact .inr ⟨⟨s', rfl, hnext.trans hdone⟩, by omega⟩
          · have hfull : rounds * size + out.length = (rounds + 1) * size := by
              rw [Nat.succ_mul]
              omega
            rw [if_neg hdone, hwrite, hfull]
            exact ih (rounds + 1) (hnext.trans hfull) (by omega) (by omega) (by omega)
      · have hend := hshort (by omega)
        rw [hend, if_pos rfl]
        exact .inl ⟨rfl, by omega, fun _ => by omega⟩

/-- The buffer when both parts of the stream have been decoded. -/
def decoded (stream : List UInt8) (size off : Nat) (mem : Memory) : Memory :=
  (skipped stream size off mem).write ((stream.drop off).take size)

/-- What `mlxfw_mfa2_file_cb_offset_xz` returns; the end of the stream in the second part goes
unnoticed. -/
theorem fileCbOffsetXz_cases {x : XzDec} (hdec : x.Decodes stream) {fuel : Nat}
    (hfuel : stream.length < fuel) (size off : Nat) (mem : Memory) :
    (fileCbOffsetXz x fuel off size mem = some (.error .einval) ∧
        (x.init = none ∨ (size ≠ 0 ∧ stream.length ≤ off ∧ (x.Lazy → stream.length < off)))) ∨
      (fileCbOffsetXz x fuel off size mem = some (.ok (decoded stream size off mem)) ∧
        (size = 0 ∨ off ≤ stream.length)) := by
  obtain ⟨pos, hinit, hdec⟩ := hdec
  unfold fileCbOffsetXz
  cases hx : x.init with
  | none => exact .inl ⟨rfl, .inl rfl⟩
  | some s =>
    have hpos := hinit s hx
    dsimp only
    by_cases hsize : size = 0
    · -- nothing is skipped
      obtain ⟨fuel, rfl⟩ := Nat.exists_eq_succ_of_ne_zero (Nat.ne_zero_of_lt hfuel)
      have hloop : skipLoop x off size (fuel + 1) s 0 mem = some (.ok (s, mem)) := by
        unfold skipLoop
        rw [if_pos (by rw [hsize, Nat.zero_min])]
      obtain ⟨hwrites, -⟩ := hdec s size
      obtain ⟨finished, hrun, -⟩ := xzDecRun_of_decodes hwrites
      have hsame : mem.write (x.run s size).2.1 = decoded stream size off mem := by
        rw [hwrites.out_eq, hsize]
        rfl
      rw [Nat.succ_eq_add_one, hloop]
      dsimp only
      rw [hrun]
      exact .inr ⟨congrArg (fun m => some (Except.ok m)) hsame, .inl hsize⟩
    · have hspec := skipLoop_spec hdec (Nat.pos_of_ne_zero hsize) mem off 0
        (hpos.trans (Nat.zero_mul size).symm) (by omega) (by omega)
        (Nat.lt_of_lt_of_le hfuel (Nat.le_add_right fuel (0 * size)))
      rw [Nat.zero_mul, skipped_zero] at hspec
      rcases hspec with ⟨hloop, hend⟩ | ⟨⟨s', hloop, hpos'⟩, hin⟩
      · rw [hloop]
        exact .inl ⟨rfl, .inr ⟨hsize, hend⟩⟩
      · obtain ⟨hwrites, -⟩ := hdec s' size
        obtain ⟨finished, hrun, -⟩ := xzDecRun_of_decodes hwrites
        have hout := hwrites.out_eq
        rw [hpos'] at hout
        rw [hloop]
        dsimp only
        rw [hrun]
        refine .inr ⟨?_, .inr hin⟩
        dsimp only
        rw [hout]
        rfl

/-! ## When the bytes are those of the archive -/

/-- The byte at a place of the buffer that the decoder has written there, first the component and
under it what the loop left. -/
def archiveByte (stream : List UInt8) (size off p : Nat) : Option UInt8 :=
  if p < size then
    if off + p < stream.length then some (stream.getD (off + p) 0)
    else if p < off then some (stream.getD (p + (off - 1 - p) / size * size) 0)
    else none
  else none

theorem decoded_eq (stream : List UInt8) (size off : Nat) (mem : Memory) (p : Nat) :
    decoded stream size off mem p = (archiveByte stream size off p).getD (mem p) := by
  have hlen : ((stream.drop off).take size).length = min size (stream.length - off) := by
    rw [length_take, length_drop]
  unfold decoded Memory.write archiveByte
  by_cases hsize : p < size
  · rw [if_pos hsize]
    by_cases hin : off + p < stream.length
    · rw [if_pos hin, getD_eq_getElem _ _ (by omega), getElem_take, getElem_drop,
        getD_eq_getElem _ _ hin]
      rfl
    · rw [if_neg hin, getD_eq_default _ _ (by omega)]
      unfold skipped
      by_cases hoff : p < off
      · rw [if_pos ⟨hsize, hoff⟩, if_pos hoff]
        rfl
      · rw [if_neg (fun h => hoff h.2), if_neg hoff]
        rfl
  · rw [if_neg hsize, getD_eq_default _ _ (by omega), skipped_of_not (fun h => hsize h.1)]
    rfl

/-- The code refuses the component because a byte of its magic that comes from the archive is
another one. -/
def WrongMagic (stream : List UInt8) (size off : Nat) : Prop :=
  ∃ p < compMagic.length, ∃ b, archiveByte stream size off p = some b ∧ b ≠ compMagic.getD p 0

/-- The component lies in the archive and its size leaves room for the magic; or the offset is
behind the archive, or the magic is wrong. -/
def Extractable (stream : List UInt8) (cbOffset compSize : Nat) : Prop :=
  (compSize + compMagic.length < 2 ^ 32 ∧
      cbOffset + compMagic.length + compSize ≤ stream.length) ∨
    (compBufSize compSize ≠ 0 ∧ stream.length < cbOffset) ∨
    WrongMagic stream (compBufSize compSize) cbOffset

theorem componentGet_ok {x : XzDec} {fuel identifier compSize : Nat} {mem mem' : Memory}
    (hxz : fileCbOffsetXz x fuel off (compBufSize compSize) mem = some (.ok mem'))
    (hmagic : (List.range compMagic.length).map mem' = compMagic) :
    componentGet x fuel true mem off compSize identifier = some (.ok
      { index := identifier
        dataSize := compSize
        data := (List.range compSize).map fun i => mem' (compMagic.length + i) }) := by
  unfold componentGet
  rw [if_pos rfl, hxz]
  dsimp only
  rw [if_neg (not_not.mpr hmagic)]

theorem map_range_eq {l : List UInt8} {n : Nat} (hn : l.length = n) {f : Nat → UInt8} :
    (List.range n).map f = l ↔ ∀ p < n, f p = l.getD p 0 := by
  constructor
  · intro h p hp
    rw [← h, getD_eq_getElem _ _ (by simpa using hp)]
    simp
  · intro h
    apply ext_getElem
    · simp [hn]
    · intro p hp hp'
      have hlt : p < n := hn ▸ hp'
      rw [getElem_map, getElem_range, h p hlt, getD_eq_getElem _ _ hp']

/-- A part of the stream, byte by byte. -/
theorem map_range_getD {start n : Nat} (hin : start + n ≤ stream.length) {f : Nat → UInt8}
    (hf : ∀ i < n, f i = stream.getD (start + i) 0) :
    (List.range n).map f = (stream.drop start).take n := by
  have hlen : ((stream.drop start).take n).length = n := by
    rw [length_take, length_drop]
    omega
  rw [map_range_eq hlen]
  intro i hi
  rw [hf i hi, getD_eq_getElem _ _ (by omega), getD_eq_getElem _ _ (by omega),
    getElem_take, getElem_drop]

theorem magic_decoded_iff (size : Nat) (mem : Memory) :
    (List.range compMagic.length).map (decoded stream size off mem) = compMagic ↔
      ∀ p < compMagic.length,
        (archiveByte stream size off p).getD (mem p) = compMagic.getD p 0 := by
  rw [map_range_eq rfl]
  simp only [decoded_eq]

theorem extracts_of_extractable {x : XzDec} (hdec : x.Decodes stream) {fuel : Nat}
    (hfuel : stream.length < fuel) (alloc : Bool) (mem : Memory) {compSize : Nat}
    (identifier : Nat) (h : Extractable stream off compSize) :
    ∃ r, componentGet x fuel alloc mem off compSize identifier = some r ∧
      Extracts stream off compSize r := by
  cases alloc with
  | false => exact ⟨_, rfl, trivial⟩
  | true =>
    rcases fileCbOffsetXz_cases hdec hfuel (compBufSize compSize) off mem with
      ⟨hxz, -⟩ | ⟨hxz, hin⟩
    · refine ⟨.error .einval, ?_, trivial⟩
      unfold componentGet
      rw [if_pos rfl, hxz]
    · by_cases hmagic : (List.range compMagic.length).map
          (decoded stream (compBufSize compSize) off mem) = compMagic
      · refine ⟨_, componentGet_ok hxz hmagic, ?_⟩
        have hplaces := (magic_decoded_iff _ _).mp hmagic
        rcases h with ⟨hroom, hlen⟩ | ⟨hsize, hbehind⟩ | ⟨p, hp, b, hbyte, hwrong⟩
        · have hsize : compBufSize compSize = compSize + compMagic.length :=
            Nat.mod_eq_of_lt hroom
          have hbyte : ∀ p < compSize + compMagic.length,
              decoded stream (compBufSize compSize) off mem p = stream.getD (off + p) 0 := by
            intro p hp
            rw [decoded_eq, hsize]
            unfold archiveByte
            rw [if_pos hp, if_pos (by omega)]
            rfl
          have hhead := map_range_getD (n := compMagic.length) (by omega)
            fun i hi => hbyte i (by omega)
          refine ⟨hhead.symm.trans hmagic, rfl, by simp, map_range_getD (by omega) fun i hi => ?_⟩
          rw [hbyte _ (by omega), Nat.add_assoc]
        · omega
        · have hplace := hplaces p hp
          rw [hbyte] at hplace
          exact absurd hplace hwrong
      · refine ⟨.error .einval, ?_, trivial⟩
        unfold componentGet
        rw [if_pos rfl, hxz]
        dsimp only
        rw [if_pos hmagic]

/-- A decoder for any stream; its state is the position. -/
def lazyDec (stream : List UInt8) : XzDec where
  State := Nat
  init := some 0
  run pos outSize :=
    let out := (stream.drop pos).take outSize
    (if out.length < outSize then .streamEnd else .ok, out, pos + out.length)

theorem lazyDec_decodes (stream : List UInt8) : (lazyDec stream).Decodes stream := by
  refine ⟨id, fun s hs => ?_, fun (pos : Nat) n => ⟨⟨rfl, ?_, ?_, ?_⟩, rfl⟩⟩
  · exact (Option.some.inj hs).symm
  · unfold lazyDec
    dsimp only
    split
    · exact .inr rfl
    · exact .inl rfl
  · intro hmore
    have hlen : ((lazyDec stream).run pos n).2.1.length = min n (stream.length - pos) := by
      unfold lazyDec
      rw [length_take, length_drop]
    have hroom : ¬ ((lazyDec stream).run pos n).2.1.length < n := by
      dsimp only [id] at hmore
      omega
    exact if_neg hroom
  · intro hshort
    exact if_pos hshort

theorem lazyDec_lazy (stream : List UInt8) : (lazyDec stream).Lazy := by
  intro pos n hend
  by_contra hroom
  have hok : ((lazyDec stream).run pos n).1 = .ok := if_neg hroom
  rw [hok] at hend
  cases hend

/-- Memory that has the magic in front and other bytes than the stream behind it. -/
def unlucky (stream : List UInt8) (off : Nat) : Memory := fun p =>
  if p < compMagic.length then compMagic.getD p 0 else stream.getD (off + p) 0 + 1

/-- With memory like that, bytes are returned that are not in the stream. -/
theorem extractable_of_extracts {compSize identifier : Nat} (hsmall : compSize < 2 ^ 32)
    {r : Except Errno Mfa2Component}
    (hget : componentGet (lazyDec stream) (stream.length + 1) true (unlucky stream off) off
      compSize identifier = some r) (h : Extracts stream off compSize r) :
    Extractable stream off compSize := by
  by_contra hno
  have hmagic : (List.range compMagic.length).map
      (decoded stream (compBufSize compSize) off (unlucky stream off)) = compMagic := by
    rw [magic_decoded_iff]
    intro p hp
    cases hbyte : archiveByte stream (compBufSize compSize) off p with
    | none => exact if_pos hp
    | some b =>
      by_contra hwrong
      exact hno (.inr (.inr ⟨p, hp, b, hbyte, hwrong⟩))
  rcases fileCbOffsetXz_cases (lazyDec_decodes stream) (Nat.lt_succ_self _)
    (compBufSize compSize) off (unlucky stream off) with ⟨-, hfail⟩ | ⟨hxz, -⟩
  · rcases hfail with hinit | ⟨hsize, -, hbehind⟩
    · cases hinit
    · exact hno (.inr (.inl ⟨hsize, hbehind (lazyDec_lazy stream)⟩))
  · rw [componentGet_ok hxz hmagic] at hget
    cases hget
    obtain ⟨hhead, -, -, hdata⟩ := h
    have hlen := congrArg List.length hdata
    have hmlen : compMagic.length = 16 := rfl
    have hhlen := congrArg List.length hhead
    rw [length_take, length_drop, hmlen] at hhlen
    rw [length_map, length_range, length_take, length_drop, hmlen] at hlen
    by_cases hroom : compSize + compMagic.length < 2 ^ 32
    · exact hno (.inl ⟨hroom, by omega⟩)
    · -- the buffer is shorter than the magic, so that its first byte of data is not in it
      have hsize : compBufSize compSize ≤ compMagic.length := by
        unfold compBufSize
        omega
      have hfirst := (map_range_eq (by rw [length_take, length_drop]; omega)).mp hdata 0
        (by omega)
      rw [decoded_eq] at hfirst
      unfold archiveByte unlucky at hfirst
      rw [if_neg (by omega), Option.getD_none, if_neg (by omega),
        getD_eq_getElem _ _ (by omega),
        getD_eq_getElem _ _ (by rw [length_take, length_drop]; omega),
        getElem_take, getElem_drop] at hfirst
      simp at hfirst

/-- What the function is to return, given the descriptor that it found: it ends, and either it
returns the component or an error. -/
def Returns (stream : List UInt8) (fw : Firmware) (found : Option Nat)
    (r : Option (Except Errno Mfa2Component)) : Prop :=
  ∃ e, r = some e ∧
    match found with
    | none => e = .error .einval
    | some comp => Extracts stream (cbOffsetOf fw comp) (compSizeOf fw comp) e

theorem compSizeOf_lt (fw : Firmware) (comp : Nat) : compSizeOf fw comp < 2 ^ 32 := by
  have hbyte : ∀ offset, byteAt fw offset < 2 ^ 8 := fun _ => UInt8.toNat_lt _
  have h0 := hbyte (comp + 12)
  have h1 := hbyte (comp + 12 + 1)
  have h2 := hbyte (comp + 12 + 2)
  have h3 := hbyte (comp + 12 + 2 + 1)
  unfold compSizeOf be32At be16At
  omega

section

variable {fuel : Nat} {fw : Firmware} {file : Mfa2File} {psid : List UInt8}
  {componentIndex : Int} {x : XzDec} {xzFuel : Nat} {alloc : Bool} {mem : Memory}
  {r : Option (Except Errno Mfa2Component)}

/-- With a descriptor inside the file the function goes on to the archive. -/
theorem fileComponentGet_runs {comp : Nat}
    (hfind : (fileComponentFind fuel fw file psid componentIndex).Runs (some comp)) :
    (fileComponentGet fuel fw file psid componentIndex x xzFuel alloc mem).Runs r ↔
      comp + 16 ≤ fw.length ∧
        componentGet x xzFuel alloc mem (cbOffsetOf fw comp) (compSizeOf fw comp)
          (be16At fw (comp + 2)) = r := by
  unfold fileComponentGet
  rw [Traced.runs_bind_of hfind]
  dsimp only
  by_cases hin : comp + 16 ≤ fw.length
  · rw [load32_of_lt (by omega), load32_of_lt (by omega), load32_of_lt (by omega),
      load16_of_lt (by omega)]
    simp only [pure_bind, Traced.runs_pure]
    exact ⟨fun h => ⟨hin, h⟩, fun h => h.2⟩
  · refine iff_of_false (fun hruns => ?_) fun h => hin h.1
    obtain ⟨_, -, hruns⟩ := Traced.runs_bind.mp hruns
    obtain ⟨_, -, hruns⟩ := Traced.runs_bind.mp hruns
    obtain ⟨_, hload, -⟩ := Traced.runs_bind.mp hruns
    unfold load32 at hload
    rw [if_neg (by omega)] at hload
    exact Traced.runs_stop hload

end

/-- With any decoder and any memory the function returns the bytes of the archive or an error, if
and only if the component that it finds can be extracted. -/
theorem component_get_iff (fuel : Nat) (fw : Firmware) (file : Mfa2File) (psid : List UInt8)
    (componentIndex : Int) (stream : List UInt8) :
    (∀ (x : XzDec) (xzFuel : Nat) (alloc : Bool) (mem : Memory),
      x.Decodes stream → stream.length < xzFuel → ∀ found r,
        (fileComponentFind fuel fw file psid componentIndex).Runs found →
        (fileComponentGet fuel fw file psid componentIndex x xzFuel alloc mem).Runs r →
        Returns stream fw found r) ↔
      ∀ comp, (fileComponentFind fuel fw file psid componentIndex).Runs (some comp) →
        comp + 16 ≤ fw.length →
        Extractable stream (cbOffsetOf fw comp) (compSizeOf fw comp) := by
  constructor
  · intro h comp hfind hin
    obtain ⟨e, he, hextracts⟩ := h (lazyDec stream) (stream.length + 1) true
      (unlucky stream (cbOffsetOf fw comp)) (lazyDec_decodes stream) (Nat.lt_succ_self _) _ _
      hfind ((fileComponentGet_runs hfind).mpr ⟨hin, rfl⟩)
    exact extractable_of_extracts (compSizeOf_lt fw comp) he hextracts
  · intro h x xzFuel alloc mem hdec hfuel found r hfind hruns
    cases found with
    | none =>
      unfold fileComponentGet at hruns
      rw [Traced.runs_bind_of hfind] at hruns
      exact ⟨_, (Traced.runs_pure.mp hruns).symm, rfl⟩
    | some comp =>
      obtain ⟨hin, hget⟩ := (fileComponentGet_runs hfind).mp hruns
      obtain ⟨e, he, hextracts⟩ :=
        extracts_of_extractable hdec hfuel alloc mem _ (h comp hfind hin)
      exact ⟨e, hget.symm.trans he, hextracts⟩

/-- A file whose component has 8 bytes by its descriptor. -/
def shortFile : Firmware := (exampleFile 0).set 111 8

/-- An archive with 4 bytes behind the magic. -/
def shortStream : List UInt8 := compMagic ++ [1, 2, 3, 4]

/-- The function returns 8 bytes, the last four of which are not from the archive. -/
theorem component_beyond_archive :
    mfa2Check shortFile ∧ (fileInit 0 shortFile true).Runs (.ok exampleOpened) ∧
      ¬ ∀ (x : XzDec) (xzFuel : Nat) (alloc : Bool) (mem : Memory),
        x.Decodes shortStream → shortStream.length < xzFuel → ∀ found r,
          (fileComponentFind 0 shortFile exampleOpened examplePsid 0).Runs found →
          (fileComponentGet 0 shortFile exampleOpened examplePsid 0 x xzFuel alloc mem).Runs r →
          Returns shortStream shortFile found r := by
  refine ⟨by decide +kernel, by decide +kernel, fun h => ?_⟩
  have hfind : (fileComponentFind 0 shortFile exampleOpened examplePsid 0).Runs (some 96) := by
    decide +kernel
  have hget : componentGet (lazyDec shortStream) 21 true (fun _ => 0) (cbOffsetOf shortFile 96)
      (compSizeOf shortFile 96) (be16At shortFile (96 + 2)) =
        some (.ok ⟨0, 8, [1, 2, 3, 4, 0, 0, 0, 0]⟩) := by decide +kernel
  obtain ⟨e, he, hextracts⟩ := h (lazyDec shortStream) 21 true (fun _ => 0)
    (lazyDec_decodes shortStream) (by decide) (some 96) _ hfind
    ((fileComponentGet_runs hfind).mpr ⟨by decide +kernel, hget⟩)
  cases he
  have hdata := hextracts.2.2.2
  revert hdata
  decide +kernel

end Mlxfw
