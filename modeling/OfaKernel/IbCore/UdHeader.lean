-- SUMMARY: UD headers (`ud_header.c`).
import OfaKernel.IbCore.Packer
import OfaKernel.Lib.CInt

/-!
# UD headers

A sequence of headers, each packed by a table of fields; flags and fields on the wire record
which there are. The structures are byte memories; a table says where their members lie.
-/

namespace UdHeader

open BigEndian Packer

/-! ## The tables -/

def ibLrhBytes : Nat := 8
def ibEthBytes : Nat := 14
def ibVlanBytes : Nat := 4
def ibGrhBytes : Nat := 40
def ibIp4Bytes : Nat := 20
def ibUdpBytes : Nat := 8
def ibBthBytes : Nat := 12
def ibDethBytes : Nat := 8

def reserved (offsetWords offsetBits sizeBits : Nat) : IbField :=
  ⟨0, 0, offsetWords, offsetBits, sizeBits⟩

def virtualLane : IbField := ⟨0, 1, 0, 0, 4⟩
def linkVersion : IbField := ⟨1, 1, 0, 4, 4⟩
def serviceLevel : IbField := ⟨2, 1, 0, 8, 4⟩
def linkNextHeader : IbField := ⟨3, 1, 0, 14, 2⟩
def destinationLid : IbField := ⟨4, 2, 0, 16, 16⟩
def packetLength : IbField := ⟨6, 2, 1, 5, 11⟩
def sourceLid : IbField := ⟨8, 2, 1, 16, 16⟩

def lrhTable : List IbField :=
  [virtualLane, linkVersion, serviceLevel, reserved 0 12 2, linkNextHeader, destinationLid,
    reserved 1 0 5, packetLength, sourceLid]

def ethType : IbField := ⟨12, 2, 3, 0, 16⟩

def ethTable : List IbField :=
  [⟨0, 4, 0, 0, 32⟩, ⟨4, 2, 1, 0, 16⟩, ⟨6, 2, 1, 16, 16⟩, ⟨8, 4, 2, 0, 32⟩, ethType]

def vlanTable : List IbField := [⟨0, 2, 0, 0, 16⟩, ⟨2, 2, 0, 16, 16⟩]

def ip4Ver : IbField := ⟨0, 1, 0, 0, 4⟩
def ip4HdrLen : IbField := ⟨1, 1, 0, 4, 4⟩
def ip4TotLen : IbField := ⟨4, 2, 0, 16, 16⟩
def ip4Protocol : IbField := ⟨11, 1, 2, 8, 8⟩

def ip4Table : List IbField :=
  [ip4Ver, ip4HdrLen, ⟨2, 1, 0, 8, 8⟩, ip4TotLen, ⟨6, 2, 1, 0, 16⟩, ⟨8, 2, 1, 16, 16⟩,
    ⟨10, 1, 2, 0, 8⟩, ip4Protocol, ⟨12, 2, 2, 16, 16⟩, ⟨16, 4, 3, 0, 32⟩, ⟨20, 4, 4, 0, 32⟩]

def udpLength : IbField := ⟨4, 2, 1, 0, 16⟩

def udpTable : List IbField :=
  [⟨0, 2, 0, 0, 16⟩, ⟨2, 2, 0, 16, 16⟩, udpLength, ⟨6, 2, 1, 16, 16⟩]

def ipVersionField : IbField := ⟨0, 1, 0, 0, 4⟩
def trafficClass : IbField := ⟨1, 1, 0, 4, 8⟩
def flowLabel : IbField := ⟨4, 4, 0, 12, 20⟩
def payloadLength : IbField := ⟨8, 2, 1, 0, 16⟩
def nextHeader : IbField := ⟨10, 1, 1, 16, 8⟩
def hopLimit : IbField := ⟨11, 1, 1, 24, 8⟩
def sourceGid : IbField := ⟨16, 16, 2, 0, 128⟩
def destinationGid : IbField := ⟨32, 16, 6, 0, 128⟩

def grhTable : List IbField :=
  [ipVersionField, trafficClass, flowLabel, payloadLength, nextHeader, hopLimit, sourceGid,
    destinationGid]

def opcode : IbField := ⟨0, 1, 0, 0, 8⟩
def solicitedEvent : IbField := ⟨1, 1, 0, 8, 1⟩
def migReq : IbField := ⟨2, 1, 0, 9, 1⟩
def padCount : IbField := ⟨3, 1, 0, 10, 2⟩
def transportHeaderVersion : IbField := ⟨4, 1, 0, 12, 4⟩
def pkey : IbField := ⟨6, 2, 0, 16, 16⟩
def destinationQpn : IbField := ⟨8, 4, 1, 8, 24⟩
def ackReq : IbField := ⟨12, 1, 2, 0, 1⟩
def psn : IbField := ⟨16, 4, 2, 8, 24⟩

def bthTable : List IbField :=
  [opcode, solicitedEvent, migReq, padCount, transportHeaderVersion, pkey, reserved 1 0 8,
    destinationQpn, ackReq, reserved 2 1 7, psn]

def qkey : IbField := ⟨0, 4, 0, 0, 32⟩
def sourceQpn : IbField := ⟨4, 4, 1, 8, 24⟩

def dethTable : List IbField := [qkey, reserved 1 0 8, sourceQpn]

/-! ## The header -/

structure IbUdHeader where
  lrhPresent : Bool
  lrh : Mem
  ethPresent : Bool
  eth : Mem
  vlanPresent : Bool
  vlan : Mem
  grhPresent : Bool
  grh : Mem
  ipv4Present : Bool
  ip4 : Mem
  udpPresent : Bool
  udp : Mem
  bth : Mem
  deth : Mem
  immediatePresent : Bool
  immediateData : Mem

/-- The value of a member, as the host reads it. -/
def get (m : Mem) (f : IbField) : Nat := valueRead f.structOffsetBytes f.structSizeBytes m

/-- A member is assigned. -/
def set (m : Mem) (f : IbField) (v : Nat) : Mem :=
  valueWrite f.structOffsetBytes f.structSizeBytes v m

/-- `memset(header, 0, sizeof *header)`. -/
def zeroHeader : IbUdHeader where
  lrhPresent := false
  lrh := fun _ => 0
  ethPresent := false
  eth := fun _ => 0
  vlanPresent := false
  vlan := fun _ => 0
  grhPresent := false
  grh := fun _ => 0
  ipv4Present := false
  ip4 := fun _ => 0
  udpPresent := false
  udp := fun _ => 0
  bth := fun _ => 0
  deth := fun _ => 0
  immediatePresent := false
  immediateData := fun _ => 0

def ibLnhIbaLocal : Nat := 2
def ibLnhIbaGlobal : Nat := 3
def ibOpcodeUdSendOnly : Nat := 0x64
def ibOpcodeUdSendOnlyWithImmediate : Nat := 0x65
def ethP8021q : Nat := 0x8100
def ipprotoUdp : Nat := 17

def einval : Int := -22

def u16 (n : Int) : Nat := (n % 2 ^ 16).toNat

/-- The packet length of the LRH in words, before it is stored in a `u16`; `int` division. -/
def lrhWords (payloadBytes : Int) (grhPresent : Bool) : Int :=
  (I32.wrap (ibLrhBytes + ibBthBytes + ibDethBytes
    + (if grhPresent then (ibGrhBytes : Int) else 0) +
    payloadBytes + 4 + 3)).tdiv 4

/-- The payload length of the GRH: `size_t` arithmetic, rounded up to words. -/
def grhPayload (udpBytes : Nat) (payloadBytes : Int) : Int :=
  let n := (udpBytes : Int) + ibBthBytes + ibDethBytes + payloadBytes + 4 + 3
  n - n % 4

/-- `ib_ud_header_init`: the header and the value returned. -/
def ibUdHeaderInit (payloadBytes : Int) (lrhPresent ethPresent vlanPresent grhPresent : Bool)
    (ipVersion : Int) (udpPresent immediatePresent : Bool) : IbUdHeader × Int :=
  let udpBytes := if udpPresent then ibUdpBytes else 0
  let grhPresent := grhPresent && decide (ipVersion = 0)
  if udpPresent ∧ ipVersion ≠ 4 ∧ ipVersion ≠ 6 then (zeroHeader, einval)
  else
    let z := zeroHeader.lrh
    ({ zeroHeader with
        lrh := if lrhPresent then
            set (set (set z linkVersion 0) linkNextHeader
              (if grhPresent then ibLnhIbaGlobal else ibLnhIbaLocal)) packetLength
              (u16 (lrhWords payloadBytes grhPresent))
          else z
        eth := if vlanPresent then set z ethType ethP8021q else z
        grh := if ipVersion = 6 ∨ grhPresent then
            set (set (set z ipVersionField 6) payloadLength
              (u16 (grhPayload udpBytes payloadBytes)))
              nextHeader (if udpPresent then ipprotoUdp else 0x1b)
          else z
        ip4 := if ipVersion = 4 then
            set (set (set (set z ip4Ver 4) ip4HdrLen 5) ip4TotLen
              (u16 (ibIp4Bytes + udpBytes + ibBthBytes + ibDethBytes + payloadBytes + 4)))
              ip4Protocol ipprotoUdp
          else z
        udp := if udpPresent ∧ ipVersion ≠ 0 then
            set z udpLength (u16 (ibUdpBytes + ibBthBytes + ibDethBytes + payloadBytes + 4))
          else z
        bth := set (set (set z opcode
            (if immediatePresent then ibOpcodeUdSendOnlyWithImmediate else ibOpcodeUdSendOnly))
            padCount ((4 - payloadBytes) % 4).toNat) transportHeaderVersion 0
        lrhPresent := lrhPresent
        ethPresent := ethPresent
        vlanPresent := vlanPresent
        grhPresent := grhPresent || decide (ipVersion = 6)
        ipv4Present := decide (ipVersion = 4)
        udpPresent := udpPresent
        immediatePresent := immediatePresent }, 0)

/-- The memory that a pointer `buf + len` leads to. -/
def seek (buf : Mem) (len : Nat) : Mem := fun x => buf (len + x)

/-- A header is packed at `buf + len`; `len` is advanced by its size. -/
def packAt (present : Bool) (table : List IbField) (structure_ : Mem) (bytes : Nat)
    (s : Mem × Nat) : Mem × Nat :=
  if present then
    (fun x => if s.2 ≤ x then ibPack table structure_ (seek s.1 s.2) (x - s.2) else s.1 x,
      s.2 + bytes)
  else s

/-- `ib_ud_header_pack`: the buffer and the length returned. -/
def ibUdHeaderPack (header : IbUdHeader) (buf : Mem) : Mem × Nat :=
  let s := packAt header.lrhPresent lrhTable header.lrh ibLrhBytes (buf, 0)
  let s := packAt header.ethPresent ethTable header.eth ibEthBytes s
  let s := packAt header.vlanPresent vlanTable header.vlan ibVlanBytes s
  let s := packAt header.grhPresent grhTable header.grh ibGrhBytes s
  let s := packAt header.ipv4Present ip4Table header.ip4 ibIp4Bytes s
  let s := packAt header.udpPresent udpTable header.udp ibUdpBytes s
  let s := packAt true bthTable header.bth ibBthBytes s
  let s := packAt true dethTable header.deth ibDethBytes s
  if header.immediatePresent then (copy s.1 s.2 header.immediateData 0 4, s.2 + 4) else s

/-- The end of `ib_ud_header_unpack`, from the BTH on. -/
def unpackTransport (buf : Mem) (header : IbUdHeader) : IbUdHeader × Int :=
  let header := { header with bth := ibUnpack bthTable buf header.bth }
  let buf := seek buf ibBthBytes
  let op := get header.bth opcode
  if op ≠ ibOpcodeUdSendOnly ∧ op ≠ ibOpcodeUdSendOnlyWithImmediate then (header, einval)
  else
    let header :=
      { header with immediatePresent := decide (op = ibOpcodeUdSendOnlyWithImmediate) }
    if get header.bth transportHeaderVersion ≠ 0 then (header, einval)
    else
      let header := { header with deth := ibUnpack dethTable buf header.deth }
      let buf := seek buf ibDethBytes
      if header.immediatePresent then
        ({ header with immediateData := copy header.immediateData 0 buf 0 4 }, 0)
      else (header, 0)

def ibUdHeaderUnpack (buf : Mem) (header : IbUdHeader) : IbUdHeader × Int :=
  let header := { header with lrh := ibUnpack lrhTable buf header.lrh }
  let buf := seek buf ibLrhBytes
  if get header.lrh linkVersion ≠ 0 then (header, einval)
  else if get header.lrh linkNextHeader = ibLnhIbaLocal then
    unpackTransport buf { header with grhPresent := false }
  else if get header.lrh linkNextHeader = ibLnhIbaGlobal then
    let header := { header with grhPresent := true, grh := ibUnpack grhTable buf header.grh }
    let buf := seek buf ibGrhBytes
    if get header.grh ipVersionField ≠ 6 then (header, einval)
    else if get header.grh nextHeader ≠ 0x1b then (header, einval)
    else unpackTransport buf header
  else (header, einval)

/-! ## What a table packs at a place -/

theorem bit_seek (buf : Mem) (len b : Nat) : bit (seek buf len) b = bit buf (8 * len + b) := by
  have hdiv : (8 * len + b) / 8 = len + b / 8 := by omega
  have hmod : (8 * len + b) % 8 = b % 8 := by omega
  unfold bit seek
  rw [hdiv, hmod]

theorem seek_seek (buf : Mem) (a b : Nat) : seek (seek buf a) b = seek buf (a + b) := by
  funext x
  unfold seek
  rw [Nat.add_assoc]

@[simp] theorem seek_zero (buf : Mem) : seek buf 0 = buf := by
  funext x
  unfold seek
  rw [Nat.zero_add]

/-- The fields of the structure are packed in the buffer from byte `len` on. -/
def PackedAt (table : List IbField) (structure_ buf : Mem) (len : Nat) : Prop :=
  ∀ f ∈ table, ∀ b, f.Covers b → bit (seek buf len) b = f.fieldBit structure_ (b - f.start)

section table

variable {table : List IbField} {structure_ buf buf' : Mem} {len bytes : Nat}

theorem packAt_packed (hd : Table table) (structure_ buf : Mem) (len n : Nat) :
    PackedAt table structure_ (packAt true table structure_ n (buf, len)).1 len := by
  have hseek : seek (packAt true table structure_ n (buf, len)).1 len =
      ibPack table structure_ (seek buf len) := by
    funext x
    have hsub : len + x - len = x := by omega
    unfold seek packAt
    rw [if_pos rfl]
    dsimp only
    rw [if_pos (Nat.le_add_right _ _), hsub]
    rfl
  intro f hf b hcov
  rw [hseek]
  exact (bit_ibPack hd structure_ (seek buf len) b).1 f hf hcov

/-- Nothing outside of the header is written. -/
theorem packAt_frame (hd : Table table) (htiles : Tiles table 0 (8 * bytes)) {x : Nat}
    (hx : x < len ∨ len + bytes ≤ x) :
    (packAt true table structure_ bytes (buf, len)).1 x = buf x := by
  unfold packAt
  rw [if_pos rfl]
  dsimp only
  by_cases hlo : x < len
  · rw [if_neg (by omega)]
  · rw [if_pos (by omega)]
    apply byte_eq_of_bits
    intro k hk
    have hnone : ∀ f ∈ table, ¬f.Covers (8 * (x - len) + k) := by
      intro f hf hcov
      have hrange := (htiles.covers_iff _).mp ⟨f, hf, hcov⟩
      omega
    have hidx : 8 * len + (8 * (x - len) + k) = 8 * x + k := by omega
    rw [(bit_ibPack hd structure_ (seek buf len) _).2 hnone, bit_seek, hidx]

/-- The packed fields stay where other bytes are written. -/
theorem PackedAt.frame (h : PackedAt table structure_ buf len)
    (htiles : Tiles table 0 (8 * bytes))
    (heq : ∀ x, len ≤ x → x < len + bytes → buf' x = buf x) :
    PackedAt table structure_ buf' len := by
  intro f hf b hcov
  have hrange := (htiles.covers_iff b).mp ⟨f, hf, hcov⟩
  have hbyte : buf' (len + b / 8) = buf (len + b / 8) := heq _ (by omega) (by omega)
  rw [← h f hf b hcov]
  unfold bit seek
  rw [hbyte]

theorem PackedAt.determined (h : PackedAt table structure_ buf len)
    (h' : PackedAt table structure_ buf' len) (htiles : Tiles table 0 (8 * bytes)) {x : Nat}
    (hlo : len ≤ x) (hhi : x < len + bytes) : buf x = buf' x := by
  have hsplit : len + (x - len) = x := by omega
  rw [← hsplit]
  show seek buf len (x - len) = seek buf' len (x - len)
  apply byte_eq_of_bits
  intro k hk
  obtain ⟨f, hf, hcov⟩ := (htiles.covers_iff (8 * (x - len) + k)).mpr ⟨by omega, by omega⟩
  rw [h f hf _ hcov, h' f hf _ hcov]

/-- The member of `f` in `t` is that of `s`: up to the width of the field, and so the same if it
fits. -/
structure FieldRecovered (f : IbField) (s t : Mem) : Prop where
  exact : f.Fits s → ∀ x, f.Holds x → t x = s x
  width : f.sizeBits ≤ 64 → get t f = get s f % 2 ^ f.sizeBits

def WordFields (table : List IbField) : Prop := ∀ f ∈ table, f.sizeBits ≤ 32 ∨ 64 < f.sizeBits

instance (table : List IbField) : Decidable (WordFields table) :=
  inferInstanceAs (Decidable (∀ f ∈ table, _))

theorem readEnd_of_small {f : IbField} (h : f.sizeBits ≤ 32 ∨ 64 < f.sizeBits)
    (hsize : f.sizeBits ≤ 64) : readEnd f = f.start + f.sizeBits := by
  unfold readEnd
  rw [if_pos (h.resolve_right (by omega))]

theorem PackedAt.recovered (h : PackedAt table structure_ buf len) (hd : Table table)
    (hwords : WordFields table) (target : Mem) {f : IbField} (hf : f ∈ table) :
    FieldRecovered f structure_ (ibUnpack table (seek buf len) target) := by
  have hwf := hd.wellFormed f hf
  constructor
  case exact =>
    intro hfits x hx
    rw [ibUnpack_of_holds hd _ target hf hx]
    exact unpackField_of_bits hwf (h f hf) hfits (readEnd_of_small (hwords f hf)) target hx
  case width =>
    intro hsize
    unfold get
    by_cases hzero : f.structSizeBytes = 0
    · simp [valueRead, hzero]
    have hbytes : read (ibUnpack table (seek buf len) target) f.structOffsetBytes
        f.structSizeBytes =
          unpackedValue (seek buf len) f % 2 ^ (8 * f.structSizeBytes) := by
      rw [← read_write target, ← unpackField_value hwf hzero hsize]
      exact read_congr fun x hlo hhi => ibUnpack_of_holds hd _ target hf ⟨hlo, hhi⟩
    have hlt := read_lt structure_ f.structOffsetBytes f.structSizeBytes
    have hvalue := unpackedValue_of_bits hwf hzero hsize (h f hf)
      (readEnd_of_small (hwords f hf) hsize)
    rw [valueRead_eq hwf hzero hsize, hbytes, hvalue, valueRead_eq hwf hzero hsize]
    exact Nat.mod_eq_of_lt (Nat.lt_of_le_of_lt (Nat.mod_le _ _) hlt)

end table

/-! ## The tables of a UD header -/

theorem table_lrhTable : Table lrhTable :=
  .of_tiles (a := 0) (z := 8 * ibLrhBytes) (by decide) (by decide) (by decide)

theorem table_grhTable : Table grhTable :=
  .of_tiles (a := 0) (z := 8 * ibGrhBytes) (by decide) (by decide) (by decide)

theorem table_bthTable : Table bthTable :=
  .of_tiles (a := 0) (z := 8 * ibBthBytes) (by decide) (by decide) (by decide)

theorem table_dethTable : Table dethTable :=
  .of_tiles (a := 0) (z := 8 * ibDethBytes) (by decide) (by decide) (by decide)

theorem tiles_lrhTable : Tiles lrhTable 0 (8 * ibLrhBytes) := by decide

theorem tiles_grhTable : Tiles grhTable 0 (8 * ibGrhBytes) := by decide

theorem tiles_bthTable : Tiles bthTable 0 (8 * ibBthBytes) := by decide

theorem tiles_dethTable : Tiles dethTable 0 (8 * ibDethBytes) := by decide

/-! ## Packing a header -/

/-- A header for InfiniBand: with an LRH, and without Ethernet, VLAN, IP and UDP headers. -/
structure IbOnly (h : IbUdHeader) : Prop where
  lrh : h.lrhPresent = true
  eth : h.ethPresent = false
  vlan : h.vlanPresent = false
  ip4 : h.ipv4Present = false
  udp : h.udpPresent = false

def bthOffset (h : IbUdHeader) : Nat := ibLrhBytes + if h.grhPresent then ibGrhBytes else 0

/-- The sizes of the headers present, added up. -/
def headerBytes (h : IbUdHeader) : Nat :=
  ibLrhBytes + (if h.grhPresent then ibGrhBytes else 0) + ibBthBytes + ibDethBytes +
    if h.immediatePresent then 4 else 0

/-- Every header present is packed at its place. -/
structure Packed (h : IbUdHeader) (buf : Mem) : Prop where
  lrh : PackedAt lrhTable h.lrh buf 0
  grh : h.grhPresent = true → PackedAt grhTable h.grh buf ibLrhBytes
  bth : PackedAt bthTable h.bth buf (bthOffset h)
  deth : PackedAt dethTable h.deth buf (bthOffset h + ibBthBytes)
  immediate : h.immediatePresent = true →
    ∀ x, x < 4 → buf (bthOffset h + ibBthBytes + ibDethBytes + x) = h.immediateData x

variable {h : IbUdHeader}

/-- The buffer with the LRH and the GRH packed. -/
def packLink (h : IbUdHeader) (buf : Mem) : Mem × Nat :=
  packAt h.grhPresent grhTable h.grh ibGrhBytes (packAt true lrhTable h.lrh ibLrhBytes (buf, 0))

theorem packLink_spec (h : IbUdHeader) (buf : Mem) :
    (packLink h buf).2 = bthOffset h ∧ PackedAt lrhTable h.lrh (packLink h buf).1 0 ∧
      (h.grhPresent = true → PackedAt grhTable h.grh (packLink h buf).1 ibLrhBytes) := by
  have hlrh := packAt_packed table_lrhTable h.lrh buf 0 ibLrhBytes
  unfold packLink bthOffset
  generalize hs : packAt true lrhTable h.lrh ibLrhBytes (buf, 0) = s at hlrh ⊢
  have hlen : s.2 = ibLrhBytes := hs ▸ rfl
  cases hgrh : h.grhPresent with
  | false => exact ⟨hlen, hlrh, fun hf => (Bool.false_ne_true hf).elim⟩
  | true =>
    obtain ⟨buf', len⟩ := s
    subst hlen
    refine ⟨rfl, hlrh.frame tiles_lrhTable fun x _ hx => ?_, fun _ => ?_⟩
    · exact packAt_frame table_grhTable tiles_grhTable (.inl (by omega))
    · exact packAt_packed table_grhTable _ _ _ _

/-- The rest of the header, behind the LRH and the GRH. -/
def packTransport (h : IbUdHeader) (s : Mem × Nat) : Mem × Nat :=
  let s := packAt true dethTable h.deth ibDethBytes (packAt true bthTable h.bth ibBthBytes s)
  if h.immediatePresent then (copy s.1 s.2 h.immediateData 0 4, s.2 + 4) else s

theorem ibUdHeaderPack_eq (hib : IbOnly h) (buf : Mem) :
    ibUdHeaderPack h buf = packTransport h (packLink h buf) := by
  unfold ibUdHeaderPack packTransport packLink
  rw [hib.lrh, hib.eth, hib.vlan, hib.ip4, hib.udp]
  rfl

theorem packTransport_spec (h : IbUdHeader) (buf : Mem) (len : Nat) :
    let r := packTransport h (buf, len)
    r.2 = len + ibBthBytes + ibDethBytes + (if h.immediatePresent then 4 else 0) ∧
      PackedAt bthTable h.bth r.1 len ∧ PackedAt dethTable h.deth r.1 (len + ibBthBytes) ∧
      (h.immediatePresent = true →
        ∀ x, x < 4 → r.1 (len + ibBthBytes + ibDethBytes + x) = h.immediateData x) ∧
      ∀ x, x < len → r.1 x = buf x := by
  have hbth := packAt_packed table_bthTable h.bth buf len ibBthBytes
  have hbthFrame : ∀ x, x < len →
      (packAt true bthTable h.bth ibBthBytes (buf, len)).1 x = buf x :=
    fun x hx => packAt_frame table_bthTable tiles_bthTable (.inl hx)
  unfold packTransport
  generalize hs : packAt true bthTable h.bth ibBthBytes (buf, len) = s at hbth hbthFrame ⊢
  obtain ⟨buf₁, len₁⟩ := s
  have hlen₁ : len₁ = len + ibBthBytes := (congrArg Prod.snd hs).symm
  subst hlen₁
  have hdeth := packAt_packed table_dethTable h.deth buf₁ (len + ibBthBytes) ibDethBytes
  have hdethFrame : ∀ x, x < len + ibBthBytes →
      (packAt true dethTable h.deth ibDethBytes (buf₁, len + ibBthBytes)).1 x = buf₁ x :=
    fun x hx => packAt_frame table_dethTable tiles_dethTable (.inl hx)
  generalize hs' : packAt true dethTable h.deth ibDethBytes (buf₁, len + ibBthBytes) = s
    at hdeth hdethFrame ⊢
  obtain ⟨buf₂, len₂⟩ := s
  have hlen₂ : len₂ = len + ibBthBytes + ibDethBytes := (congrArg Prod.snd hs').symm
  subst hlen₂
  have hbth₂ : PackedAt bthTable h.bth buf₂ len :=
    hbth.frame tiles_bthTable fun x _ hx => hdethFrame x hx
  have hframe : ∀ x, x < len → buf₂ x = buf x :=
    fun x hx => (hdethFrame x (by omega)).trans (hbthFrame x hx)
  cases himm : h.immediatePresent with
  | false => exact ⟨rfl, hbth₂, hdeth, fun hf => (Bool.false_ne_true hf).elim, hframe⟩
  | true =>
    have hcopy : ∀ x, x < len + ibBthBytes + ibDethBytes →
        copy buf₂ (len + ibBthBytes + ibDethBytes) h.immediateData 0 4 x = buf₂ x :=
      fun x hx => copy_of_not _ _ _ _ _ (by omega)
    refine ⟨rfl, hbth₂.frame tiles_bthTable fun x _ hx => hcopy x (by omega),
      hdeth.frame tiles_dethTable fun x _ hx => hcopy x hx, fun _ x hx => ?_,
      fun x hx => (hcopy x (by omega)).trans (hframe x hx)⟩
    have hsub : 0 + (len + ibBthBytes + ibDethBytes + x - (len + ibBthBytes + ibDethBytes)) = x :=
      by omega
    rw [if_pos rfl]
    dsimp only
    rw [copy, if_pos ⟨by omega, by omega⟩, hsub]

/-- Packing returns the size of the headers and packs each of them at its place. -/
theorem ibUdHeaderPack_spec (hib : IbOnly h) (buf : Mem) :
    (ibUdHeaderPack h buf).2 = headerBytes h ∧ Packed h (ibUdHeaderPack h buf).1 := by
  obtain ⟨hlen, hlrh, hgrh⟩ := packLink_spec h buf
  rw [ibUdHeaderPack_eq hib]
  generalize packLink h buf = s at hlen hlrh hgrh ⊢
  obtain ⟨buf₁, len⟩ := s
  subst hlen
  obtain ⟨hlen, hbth, hdeth, himm, hframe⟩ := packTransport_spec h buf₁ (bthOffset h)
  refine ⟨hlen, ?_, fun hg => ?_, hbth, hdeth, himm⟩
  · refine hlrh.frame tiles_lrhTable fun x _ hx => hframe x ?_
    exact Nat.lt_of_lt_of_le hx (by unfold bthOffset; omega)
  · refine (hgrh hg).frame tiles_grhTable fun x _ hx => hframe x ?_
    unfold bthOffset
    rw [if_pos hg]
    exact hx

/-- Every bit of the packed headers is set, whatever the buffer held. -/
theorem Packed.determined {buf buf' : Mem} (hp : Packed h buf) (hp' : Packed h buf') {x : Nat}
    (hx : x < headerBytes h) : buf x = buf' x := by
  have hoff : bthOffset h = ibLrhBytes + if h.grhPresent then ibGrhBytes else 0 := rfl
  unfold headerBytes at hx
  by_cases h₁ : x < ibLrhBytes
  · exact hp.lrh.determined hp'.lrh tiles_lrhTable (Nat.zero_le _) (by omega)
  by_cases h₂ : x < bthOffset h
  · have hg : h.grhPresent = true := by
      by_contra hg
      rw [hoff, if_neg hg] at h₂
      omega
    rw [hoff, if_pos hg] at h₂
    exact (hp.grh hg).determined (hp'.grh hg) tiles_grhTable (by omega) h₂
  by_cases h₃ : x < bthOffset h + ibBthBytes
  · exact hp.bth.determined hp'.bth tiles_bthTable (by omega) h₃
  by_cases h₄ : x < bthOffset h + ibBthBytes + ibDethBytes
  · exact hp.deth.determined hp'.deth tiles_dethTable (by omega) h₄
  · have himm : h.immediatePresent = true := by
      by_contra himm
      rw [if_neg himm] at hx
      omega
    rw [if_pos himm] at hx
    have hsplit : bthOffset h + ibBthBytes + ibDethBytes +
        (x - (bthOffset h + ibBthBytes + ibDethBytes)) = x := by omega
    have hlt : x - (bthOffset h + ibBthBytes + ibDethBytes) < 4 := by omega
    rw [← hsplit, hp.immediate himm _ hlt, hp'.immediate himm _ hlt]

/-- The members that unpacking looks at have the values that it expects. -/
structure Decisive (h : IbUdHeader) : Prop where
  linkVersion : get h.lrh linkVersion = 0
  linkNextHeader : get h.lrh linkNextHeader =
    if h.grhPresent then ibLnhIbaGlobal else ibLnhIbaLocal
  ipVersion : h.grhPresent = true → get h.grh ipVersionField = 6
  nextHeader : h.grhPresent = true → get h.grh nextHeader = 0x1b
  opcode : get h.bth opcode =
    if h.immediatePresent then ibOpcodeUdSendOnlyWithImmediate else ibOpcodeUdSendOnly
  transportHeaderVersion : get h.bth transportHeaderVersion = 0

/-- The members of all headers present are those of `h`. -/
structure Recovered (h out : IbUdHeader) : Prop where
  lrh : ∀ f ∈ lrhTable, FieldRecovered f h.lrh out.lrh
  grh : h.grhPresent = true → ∀ f ∈ grhTable, FieldRecovered f h.grh out.grh
  bth : ∀ f ∈ bthTable, FieldRecovered f h.bth out.bth
  deth : ∀ f ∈ dethTable, FieldRecovered f h.deth out.deth
  grhPresent : out.grhPresent = h.grhPresent
  immediatePresent : out.immediatePresent = h.immediatePresent
  immediate : h.immediatePresent = true → ∀ x, x < 4 → out.immediateData x = h.immediateData x

theorem FieldRecovered.get_of_lt {f : IbField} {s t : Mem} (hf : FieldRecovered f s t)
    (hsize : f.sizeBits ≤ 64) (hlt : get s f < 2 ^ f.sizeBits) : get t f = get s f := by
  rw [hf.width hsize, Nat.mod_eq_of_lt hlt]

theorem unpackTransport_spec (hdec : Decisive h) {buf : Mem} {off : Nat} (header : IbUdHeader)
    (hbth : PackedAt bthTable h.bth buf off)
    (hdeth : PackedAt dethTable h.deth buf (off + ibBthBytes))
    (himm : h.immediatePresent = true →
      ∀ x, x < 4 → buf (off + ibBthBytes + ibDethBytes + x) = h.immediateData x) :
    let r := unpackTransport (seek buf off) header
    r.2 = 0 ∧ r.1.lrh = header.lrh ∧ r.1.grh = header.grh ∧
      r.1.grhPresent = header.grhPresent ∧
      (∀ f ∈ bthTable, FieldRecovered f h.bth r.1.bth) ∧
      (∀ f ∈ dethTable, FieldRecovered f h.deth r.1.deth) ∧
      r.1.immediatePresent = h.immediatePresent ∧
      (h.immediatePresent = true → ∀ x, x < 4 → r.1.immediateData x = h.immediateData x) := by
  have hbth' : ∀ f ∈ bthTable,
    FieldRecovered f h.bth (ibUnpack bthTable (seek buf off) header.bth) :=
    fun f hf => hbth.recovered table_bthTable (by decide) header.bth hf
  have hdeth' : ∀ f ∈ dethTable,
      FieldRecovered f h.deth (ibUnpack dethTable (seek buf (off + ibBthBytes)) header.deth) :=
    fun f hf => hdeth.recovered table_dethTable (by decide) header.deth hf
  have hop : get (ibUnpack bthTable (seek buf off) header.bth) opcode =
      if h.immediatePresent then ibOpcodeUdSendOnlyWithImmediate else ibOpcodeUdSendOnly := by
    rw [(hbth' opcode (by decide)).get_of_lt (by decide), hdec.opcode]
    rw [hdec.opcode]
    split <;> decide
  have hthv : get (ibUnpack bthTable (seek buf off) header.bth) transportHeaderVersion = 0 := by
    rw [(hbth' transportHeaderVersion (by decide)).get_of_lt (by decide)]
    · exact hdec.transportHeaderVersion
    · rw [hdec.transportHeaderVersion]
      decide
  unfold unpackTransport
  dsimp only
  rw [hop, hthv, seek_seek, seek_seek]
  cases hpresent : h.immediatePresent with
  | false =>
    exact ⟨rfl, rfl, rfl, rfl, hbth', hdeth', rfl, fun hf => (Bool.false_ne_true hf).elim⟩
  | true =>
    refine ⟨rfl, rfl, rfl, rfl, hbth', hdeth', rfl, fun _ x hx => ?_⟩
    have hcopy : copy header.immediateData 0 (seek buf (off + ibBthBytes + ibDethBytes)) 0 4 x =
        buf (off + ibBthBytes + ibDethBytes + x) := by
      rw [copy, if_pos ⟨Nat.zero_le _, by omega⟩, Nat.sub_zero, Nat.zero_add]
      rfl
    exact hcopy.trans (himm hpresent x hx)

theorem Packed.unpack {buf : Mem} (hp : Packed h buf) (hdec : Decisive h) (target : IbUdHeader) :
    (ibUdHeaderUnpack buf target).2 = 0 ∧ Recovered h (ibUdHeaderUnpack buf target).1 := by
  have hlrh : ∀ f ∈ lrhTable, FieldRecovered f h.lrh (ibUnpack lrhTable buf target.lrh) := by
    intro f hf
    rw [← seek_zero buf]
    exact hp.lrh.recovered table_lrhTable (by decide) target.lrh hf
  have hversion : get (ibUnpack lrhTable buf target.lrh) linkVersion = 0 := by
    rw [(hlrh linkVersion (by decide)).width (by decide), hdec.linkVersion]
    rfl
  have hnext : get (ibUnpack lrhTable buf target.lrh) linkNextHeader =
      if h.grhPresent then ibLnhIbaGlobal else ibLnhIbaLocal := by
    rw [(hlrh linkNextHeader (by decide)).width (by decide), hdec.linkNextHeader]
    split <;> decide
  unfold ibUdHeaderUnpack
  dsimp only
  rw [hversion, hnext, seek_seek]
  have hbth := hp.bth
  have hdeth := hp.deth
  have himm := hp.immediate
  unfold bthOffset at hbth hdeth himm
  cases hg : h.grhPresent with
  | false =>
    rw [hg] at hbth hdeth himm
    obtain ⟨hret, hl, -, hgp, hb, hd, hip, hi⟩ := unpackTransport_spec hdec
      { target with lrh := ibUnpack lrhTable buf target.lrh, grhPresent := false } hbth hdeth himm
    refine ⟨hret, ?_, ?_, hb, hd, hgp.trans hg.symm, hip, hi⟩
    · intro f hf
      exact Eq.subst (motive := fun m => FieldRecovered f h.lrh m) hl.symm (hlrh f hf)
    · intro ht
      rw [hg] at ht
      cases ht
  | true =>
    rw [hg] at hbth hdeth himm
    have hgrh : ∀ f ∈ grhTable,
        FieldRecovered f h.grh (ibUnpack grhTable (seek buf ibLrhBytes) target.grh) :=
      fun f hf => (hp.grh hg).recovered table_grhTable (by decide) target.grh hf
    have hver : get (ibUnpack grhTable (seek buf ibLrhBytes) target.grh) ipVersionField = 6 := by
      rw [(hgrh ipVersionField (by decide)).width (by decide), hdec.ipVersion hg]
      rfl
    have hnh : get (ibUnpack grhTable (seek buf ibLrhBytes) target.grh) nextHeader = 0x1b := by
      rw [(hgrh nextHeader (by decide)).width (by decide), hdec.nextHeader hg]
      rfl
    obtain ⟨hret, hl, hgr, hgp, hb, hd, hip, hi⟩ := unpackTransport_spec hdec
      { target with
        lrh := ibUnpack lrhTable buf target.lrh, grhPresent := true
        grh := ibUnpack grhTable (seek buf ibLrhBytes) target.grh } hbth hdeth himm
    rw [hver, hnh]
    refine ⟨hret, ?_, ?_, hb, hd, hgp.trans hg.symm, hip, hi⟩
    · intro f hf
      exact Eq.subst (motive := fun m => FieldRecovered f h.lrh m) hl.symm (hlrh f hf)
    · intro _ f hf
      exact Eq.subst (motive := fun m => FieldRecovered f h.grh m) hgr.symm (hgrh f hf)

/-! ## The round trip -/

/-- `h` is the header `init` with further members filled in: what says which headers there are
and of what version they are is as it was. -/
structure FilledFrom (init h : IbUdHeader) : Prop where
  lrhPresent : h.lrhPresent = init.lrhPresent
  ethPresent : h.ethPresent = init.ethPresent
  vlanPresent : h.vlanPresent = init.vlanPresent
  grhPresent : h.grhPresent = init.grhPresent
  ipv4Present : h.ipv4Present = init.ipv4Present
  udpPresent : h.udpPresent = init.udpPresent
  immediatePresent : h.immediatePresent = init.immediatePresent
  lrh : ∀ f ∈ [linkVersion, linkNextHeader], get h.lrh f = get init.lrh f
  grh : ∀ f ∈ [ipVersionField, nextHeader], get h.grh f = get init.grh f
  bth : ∀ f ∈ [opcode, transportHeaderVersion], get h.bth f = get init.bth f

/-- Packing `h` returns the size of its headers and sets every bit of them, and unpacking the
result succeeds and recovers the header. -/
structure RoundTrip (h : IbUdHeader) : Prop where
  length : ∀ buf, (ibUdHeaderPack h buf).2 = headerBytes h
  bits : ∀ buf buf' x, x < headerBytes h →
    (ibUdHeaderPack h buf).1 x = (ibUdHeaderPack h buf').1 x
  unpack : ∀ buf target, (ibUdHeaderUnpack (ibUdHeaderPack h buf).1 target).2 = 0
  recovered : ∀ buf target, Recovered h (ibUdHeaderUnpack (ibUdHeaderPack h buf).1 target).1

theorem get_set {f : IbField} (m : Mem) {v : Nat}
    (hsize : f.structSizeBytes = 1 ∨ f.structSizeBytes = 2 ∨ f.structSizeBytes = 4 ∨
      f.structSizeBytes = 8) (hlt : v < 2 ^ (8 * f.structSizeBytes)) : get (set m f v) f = v := by
  unfold get set valueRead valueWrite
  rw [if_pos hsize, if_pos hsize, read_write, Nat.mod_eq_of_lt hlt]

theorem get_set_of_disjoint {f g : IbField} (m : Mem) {v : Nat}
    (hdisj : f.structOffsetBytes + f.structSizeBytes ≤ g.structOffsetBytes ∨
      g.structOffsetBytes + g.structSizeBytes ≤ f.structOffsetBytes) :
    get (set m f v) g = get m g := by
  unfold get set valueRead valueWrite
  split
  · split
    · exact read_congr fun x hlo hhi => write_of_not _ _ _ _ _ (by omega)
    · rfl
  · rfl

/-- What `ib_ud_header_init` sets is what unpacking expects. -/
theorem decisive_init (payloadBytes : Int) (grhPresent immediatePresent : Bool) :
    Decisive (ibUdHeaderInit payloadBytes true false false grhPresent 0 false
      immediatePresent).1 := by
  constructor
  case linkVersion =>
    show get (set (set (set _ linkVersion 0) linkNextHeader _) packetLength _) linkVersion = 0
    rw [get_set_of_disjoint _ (by decide), get_set_of_disjoint _ (by decide),
      get_set _ (by decide) (by decide)]
  case linkNextHeader =>
    show get (set (set (set _ linkVersion 0) linkNextHeader _) packetLength _) linkNextHeader = _
    rw [get_set_of_disjoint _ (by decide)]
    cases grhPresent <;> exact get_set _ (by decide) (by decide)
  case ipVersion =>
    intro hg
    cases grhPresent with
    | false => cases hg
    | true =>
      show get (set (set (set _ ipVersionField 6) payloadLength _) nextHeader _) ipVersionField = 6
      rw [get_set_of_disjoint _ (by decide), get_set_of_disjoint _ (by decide),
        get_set _ (by decide) (by decide)]
  case nextHeader =>
    intro hg
    cases grhPresent with
    | false => cases hg
    | true => exact get_set _ (by decide) (by decide)
  case opcode =>
    show get (set (set (set _ opcode _) padCount _) transportHeaderVersion 0) opcode = _
    rw [get_set_of_disjoint _ (by decide), get_set_of_disjoint _ (by decide)]
    cases immediatePresent <;> exact get_set _ (by decide) (by decide)
  case transportHeaderVersion => exact get_set _ (by decide) (by decide)

theorem FilledFrom.decisive {init : IbUdHeader} (hf : FilledFrom init h) (hd : Decisive init) :
    Decisive h where
  linkVersion := (hf.lrh _ (by decide)).trans hd.linkVersion
  linkNextHeader := by rw [hf.lrh _ (by decide), hd.linkNextHeader, hf.grhPresent]
  ipVersion hg := (hf.grh _ (by decide)).trans (hd.ipVersion (hf.grhPresent ▸ hg))
  nextHeader hg := (hf.grh _ (by decide)).trans (hd.nextHeader (hf.grhPresent ▸ hg))
  opcode := by rw [hf.bth _ (by decide), hd.opcode, hf.immediatePresent]
  transportHeaderVersion := (hf.bth _ (by decide)).trans hd.transportHeaderVersion

/-- Every field that fits its width comes back, and every field of at most 64 bits comes back up
to its width. -/
theorem ud_header_round_trip (payloadBytes : Int) (grhPresent immediatePresent : Bool)
    (hf : FilledFrom
      (ibUdHeaderInit payloadBytes true false false grhPresent 0 false immediatePresent).1 h) :
    RoundTrip h := by
  have hdec : Decisive h := hf.decisive (decisive_init payloadBytes grhPresent immediatePresent)
  have hib : IbOnly h :=
    ⟨hf.lrhPresent, hf.ethPresent, hf.vlanPresent, hf.ipv4Present, hf.udpPresent⟩
  have hpack := ibUdHeaderPack_spec hib
  exact
    { length := fun buf => (hpack buf).1
      bits := fun buf buf' x hx => (hpack buf).2.determined (hpack buf').2 hx
      unpack := fun buf target => ((hpack buf).2.unpack hdec target).1
      recovered := fun buf target => ((hpack buf).2.unpack hdec target).2 }

/-- A header with a GRH and immediate data for a payload of 256 bytes. -/
theorem ud_header_round_trip_256 :
    RoundTrip (ibUdHeaderInit 256 true false false true 0 false true).1 :=
  ud_header_round_trip 256 true true
    ⟨rfl, rfl, rfl, rfl, rfl, rfl, rfl, fun _ _ => rfl, fun _ _ => rfl, fun _ _ => rfl⟩

/-- A payload of 8157 bytes makes a packet of 2048 words, which do not fit in 11 bits. -/
theorem packet_length_lost :
    let h := (ibUdHeaderInit 8157 true false false false 0 false false).1
    let out := (ibUdHeaderUnpack (ibUdHeaderPack h fun _ => 0).1 zeroHeader).1
    get h.lrh packetLength = 2048 ∧ get out.lrh packetLength = 0 := by
  decide +kernel

end UdHeader
