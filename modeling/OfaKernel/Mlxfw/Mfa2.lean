-- SUMMARY: The MFA2 firmware file parser.
import Mathlib.Algebra.Group.Int.Defs
import Mathlib.Algebra.Group.Nat.Defs
import OfaKernel.Lib.Traced

/-!
# MFA2 files

Pointers into the file are offsets from `fw->data`, and `NULL` is `none`. A run stops where the
code would leave the file, and logs every payload that `mlxfw_mfa2_tlv_payload_get` returns.
-/

namespace Mlxfw

/-- `struct firmware`: `fw->data`, of `fw->size` bytes. -/
abbrev Firmware := List UInt8

inductive Stop where
  | null
  | outside
  /-- The iterations given to a loop without end are used up. -/
  | fuel
deriving DecidableEq, Repr

/-- Bytes of the file. -/
structure Region where
  offset : Nat
  size : Nat
deriving DecidableEq, Repr

abbrev Parse := Traced Stop Region

/-- The error pointers of `mlxfw_mfa2_file_init`. -/
inductive Errno where
  | enomem
  | einval
deriving DecidableEq, Repr

/-! ## TLVs -/

inductive TlvType where
  | multiPart
  | packageDescriptor
  | componentDescriptor
  | componentPtr
  | psid
deriving DecidableEq, Repr

def TlvType.code : TlvType → Nat
  | .multiPart => 0x01
  | .packageDescriptor => 0x02
  | .componentDescriptor => 0x04
  | .componentPtr => 0x22
  | .psid => 0x2A

def nlaAlign (len : Nat) : Nat := (len + 3) / 4 * 4

section

variable (fuel : Nat) (fw : Firmware)

def byteAt (offset : Nat) : Nat := (fw.getD offset 0).toNat

/-- `be16_to_cpu`. -/
def be16At (offset : Nat) : Nat := byteAt fw offset * 2 ^ 8 + byteAt fw (offset + 1)

/-- `be32_to_cpu`. -/
def be32At (offset : Nat) : Nat := be16At fw offset * 2 ^ 16 + be16At fw (offset + 2)

def load8 (offset : Nat) : Parse Nat :=
  if offset < fw.length then pure (byteAt fw offset) else Traced.stop .outside

def load16 (offset : Nat) : Parse Nat :=
  if offset + 1 < fw.length then pure (be16At fw offset) else Traced.stop .outside

def load32 (offset : Nat) : Parse Nat :=
  if offset + 3 < fw.length then pure (be32At fw offset) else Traced.stop .outside

def validPtr (ptr : Nat) : Bool := 0 < ptr ∧ ptr < fw.length

def tlvGet (ptr : Nat) : Option Nat :=
  if validPtr fw ptr && validPtr fw (ptr + 4) then some ptr else none

def tlvPayloadGet (tlv : Nat) (payloadType : TlvType) (payloadSize : Nat) (varsize : Bool) :
    Parse (Option Nat) := do
  let len ← load16 fw (tlv + 2)
  let tlvTop := tlv + len - 1
  if !validPtr fw tlv || !validPtr fw tlvTop then pure none
  else do
    let type ← load8 fw (tlv + 1)
    if type ≠ payloadType.code then pure none
    else if varsize && len < payloadSize then pure none
    else if !varsize && len ≠ payloadSize then pure none
    else do
      Traced.emit ⟨tlv + 4, len⟩
      pure (some (tlv + 4))

def tlvMultiGet (tlv : Nat) : Parse (Option Nat) := tlvPayloadGet fw tlv .multiPart 4 false

def tlvPackageDescriptorGet (tlv : Nat) : Parse (Option Nat) :=
  tlvPayloadGet fw tlv .packageDescriptor 28 false

def tlvPsidGet (tlv : Nat) : Parse (Option Nat) := tlvPayloadGet fw tlv .psid 0 true

def tlvComponentPtrGet (tlv : Nat) : Parse (Option Nat) :=
  tlvPayloadGet fw tlv .componentPtr 8 false

def tlvComponentDescriptorGet (tlv : Nat) : Parse (Option Nat) :=
  tlvPayloadGet fw tlv .componentDescriptor 16 false

def tlvMultiChild (multi : Nat) : Option Nat := tlvGet fw (multi + 4)

/-- `mlxfw_mfa2_tlv_next`; the lengths are `u16`. -/
def tlvNext (tlv : Nat) : Parse (Option Nat) := do
  let len ← load16 fw (tlv + 2)
  let tlvLen := nlaAlign (4 + len) % 2 ^ 16
  let type ← load8 fw (tlv + 1)
  if type = TlvType.multiPart.code then do
    match ← tlvMultiGet fw tlv with
    | none => Traced.stop .null
    | some multi => do
      let totalLen ← load16 fw (multi + 2)
      pure (tlvGet fw (tlv + nlaAlign (tlvLen + totalLen) % 2 ^ 16))
  else pure (tlvGet fw (tlv + tlvLen))

/-- `mlxfw_mfa2_tlv_foreach` for a number of iterations: the body is given each TLV, and either
returns or goes on. -/
def tlvForeach {β σ : Type} (body : Option Nat → σ → Parse (β ⊕ σ)) :
    Nat → Option Nat → σ → Parse (β ⊕ Option Nat × σ)
  | 0, tlv, s => pure (.inr (tlv, s))
  | count + 1, tlv, s => do
    match ← body tlv s with
    | .inl b => pure (.inl b)
    | .inr s =>
      match tlv with
      | none => Traced.stop .null
      | some tlv => do
        let next ← tlvNext fw tlv
        tlvForeach body count next s

/-- `mlxfw_mfa2_tlv_multi_foreach`. The index is a `u16` and the count an `int`: if
`num_extensions` is 0xffff, only the body ends the loop. -/
def tlvMultiForeach {β σ : Type} (body : Option Nat → σ → Parse (β ⊕ σ)) (multi : Nat) (s : σ) :
    Parse (β ⊕ σ) := do
  let numExtensions ← load16 fw multi
  let count := numExtensions + 1
  let endless := 2 ^ 16 ≤ count
  match ← tlvForeach fw body (if endless then fuel else count) (tlvMultiChild fw multi) s with
  | .inl b => pure (.inl b)
  | .inr (_, s) => if endless then Traced.stop .fuel else pure (.inr s)

/-- The body of a loop that only steps: it returns at `NULL`. -/
def stepBody (tlv : Option Nat) (_ : Unit) : Parse (Unit ⊕ Unit) :=
  match tlv with
  | none => pure (.inl ())
  | some _ => pure (.inr ())

def tlvAdvance (fromTlv : Option Nat) (count : Nat) : Parse (Option Nat) := do
  match ← tlvForeach fw stepBody count fromTlv () with
  | .inl () => pure none
  | .inr (tlv, ()) => pure tlv

def childFindBody (type : TlvType) (index : Nat) (tlv : Option Nat) (skip : Nat) :
    Parse (Option Nat ⊕ Nat) :=
  match tlv with
  | none => pure (.inl none)
  | some tlv => do
    let tlvType ← load8 fw (tlv + 1)
    if tlvType = type.code then
      if skip = index then pure (.inl (some tlv)) else pure (.inr ((skip + 1) % 2 ^ 16))
    else pure (.inr skip)

def tlvMultiChildFind (multi : Nat) (type : TlvType) (index : Nat) : Parse (Option Nat) := do
  match ← tlvMultiForeach fuel fw (childFindBody fw type index) multi 0 with
  | .inl tlv => pure tlv
  | .inr _ => pure none

def childCountBody (type : TlvType) (tlv : Option Nat) (count : Nat) : Parse (Unit ⊕ Nat) :=
  match tlv with
  | none => pure (.inl ())
  | some tlv => do
    let tlvType ← load8 fw (tlv + 1)
    if tlvType = type.code then pure (.inr ((count + 1) % 2 ^ 16)) else pure (.inr count)

/-- `mlxfw_mfa2_tlv_multi_child_count`, `none` for an error. -/
def tlvMultiChildCount (multi : Nat) (type : TlvType) : Parse (Option Nat) := do
  match ← tlvMultiForeach fuel fw (childCountBody fw type) multi 0 with
  | .inl () => pure none
  | .inr count => pure (some count)

/-! ## Validation -/

def mfa2Fingerprint : Firmware :=
  [0x4D, 0x4C, 0x4E, 0x58, 0x2E, 0x4D, 0x46, 0x41, 0x32, 0x2E, 0x58, 0x5A, 0x2E, 0x30, 0x30, 0x21]

def mfa2Check : Bool :=
  if fw.length < mfa2Fingerprint.length + 1 then false
  else fw.take mfa2Fingerprint.length = mfa2Fingerprint

def tlvMultiValidate (multi : Nat) : Parse Bool := do
  match ← tlvMultiForeach fuel fw stepBody multi () with
  | .inl () => pure false
  | .inr () => pure true

/-- The loop over the COMPONENT_PTRs of a device. -/
def cptrsValidate (multi : Nat) : Nat → Nat → Parse Bool
  | 0, _ => pure true
  | left + 1, cptrIdx => do
    match ← tlvMultiChildFind fuel fw multi .componentPtr cptrIdx with
    | none => pure false
    | some tlv =>
      match ← tlvComponentPtrGet fw tlv with
      | none => pure false
      | some _ => cptrsValidate multi left (cptrIdx + 1)

def fileDevValidate (devTlv : Nat) : Parse Bool := do
  match ← tlvMultiGet fw devTlv with
  | none => pure false
  | some multi =>
    match ← tlvMultiValidate fuel fw multi with
    | false => pure false
    | true =>
      match ← tlvMultiChildFind fuel fw multi .psid 0 with
      | none => pure false
      | some tlv =>
        match ← tlvPsidGet fw tlv with
        | none => pure false
        | some _ =>
          match ← tlvMultiChildCount fuel fw multi .componentPtr with
          | none => pure false
          | some cptrCount =>
            if cptrCount = 0 then pure false else cptrsValidate fuel fw multi cptrCount 0

def fileCompValidate (compTlv : Nat) : Parse Bool := do
  match ← tlvMultiGet fw compTlv with
  | none => pure false
  | some multi =>
    match ← tlvMultiValidate fuel fw multi with
    | false => pure false
    | true =>
      match tlvMultiChild fw multi with
      | none => pure false
      | some tlv =>
        match ← tlvComponentDescriptorGet fw tlv with
        | none => pure false
        | some _ => pure true

structure Mfa2File where
  firstDev : Option Nat
  devCount : Nat
  firstComponent : Option Nat
  componentCount : Nat
  cb : Nat
  cbArchiveSize : Nat
deriving DecidableEq, Repr

/-- The bodies of the loops of `mlxfw_mfa2_file_validate`. -/
def validateBody (validate : Nat → Parse Bool) (tlv : Option Nat) (_ : Unit) :
    Parse (Unit ⊕ Unit) :=
  match tlv with
  | none => pure (.inl ())
  | some tlv => do
    match ← validate tlv with
    | false => pure (.inl ())
    | true => pure (.inr ())

/-- The loops of `mlxfw_mfa2_file_validate`: every TLV has to pass a check. -/
def tlvsValidate (validate : Nat → Parse Bool) (first : Option Nat) (count : Nat) :
    Parse Bool := do
  match ← tlvForeach fw (validateBody validate) count first () with
  | .inl () => pure false
  | .inr _ => pure true

def fileValidate (file : Mfa2File) : Parse Bool := do
  match ← tlvsValidate fw (fileDevValidate fuel fw) file.firstDev file.devCount with
  | false => pure false
  | true =>
    tlvsValidate fw (fileCompValidate fuel fw) file.firstComponent file.componentCount

/-- `mlxfw_mfa2_file_init`, once the first TLV has a package descriptor. -/
def fileInitPackage (firstTlv pd : Nat) : Parse (Except Errno Mfa2File) := do
  match ← tlvNext fw firstTlv with
  | none => pure (.error .einval)
  | some firstDev => do
    let devCount ← load16 fw (pd + 2)
    let firstComponent ← tlvAdvance fw (some firstDev) devCount
    let componentCount ← load16 fw pd
    let cbOffset ← load32 fw (pd + 4)
    let cb := nlaAlign cbOffset % 2 ^ 32
    if !validPtr fw cb then pure (.error .einval)
    else do
      let cbArchiveSize ← load32 fw (pd + 8)
      if !validPtr fw (cb + cbArchiveSize - 1) then pure (.error .einval)
      else do
        let file : Mfa2File :=
          ⟨some firstDev, devCount, firstComponent, componentCount, cb, cbArchiveSize⟩
        match ← fileValidate fuel fw file with
        | false => pure (.error .einval)
        | true => pure (.ok file)

/-- `mlxfw_mfa2_file_init`; `alloc` is whether there is memory. -/
def fileInit (alloc : Bool) : Parse (Except Errno Mfa2File) := do
  if !alloc then pure (.error .enomem)
  else
    match tlvGet fw (nlaAlign mfa2Fingerprint.length) with
    | none => pure (.error .einval)
    | some firstTlv => do
      match ← tlvMultiGet fw firstTlv with
      | none => pure (.error .einval)
      | some multi =>
        match tlvMultiChild fw multi with
        | none => pure (.error .einval)
        | some multiChild => do
          match ← tlvPackageDescriptorGet fw multiChild with
          | none => pure (.error .einval)
          | some pd => fileInitPackage fuel fw firstTlv pd

def devGetBody (psid : List UInt8) (psidSize : Nat) (tlv : Option Nat) (_ : Unit) :
    Parse (Option Nat ⊕ Unit) :=
  match tlv with
  | none => pure (.inl none)
  | some devTlv => do
    match ← tlvMultiGet fw devTlv with
    | none => pure (.inl none)
    | some devMulti =>
      match ← tlvMultiChildFind fuel fw devMulti .psid 0 with
      | none => pure (.inl none)
      | some tlv => do
        let len ← load16 fw (tlv + 2)
        if len ≠ psidSize then pure (.inr ())
        else
          match ← tlvPsidGet fw tlv with
          | none => pure (.inl none)
          | some tlvPsid =>
            if fw.length < tlvPsid + psidSize then Traced.stop .outside
            else if psid.take psidSize = (fw.drop tlvPsid).take psidSize then
              pure (.inl (some devMulti))
            else pure (.inr ())

/-- `mlxfw_mfa2_tlv_dev_get`; the size of the PSID is passed as a `u16`. -/
def tlvDevGet (file : Mfa2File) (psid : List UInt8) : Parse (Option Nat) := do
  let body := devGetBody fuel fw psid (psid.length % 2 ^ 16)
  match ← tlvForeach fw body file.devCount file.firstDev () with
  | .inl devMulti => pure devMulti
  | .inr _ => pure none

/-- `mlxfw_mfa2_file_component_count`, `none` for an error. -/
def fileComponentCount (file : Mfa2File) (psid : List UInt8) : Parse (Option Nat) := do
  match ← tlvDevGet fuel fw file psid with
  | none => pure none
  | some devMulti => tlvMultiChildCount fuel fw devMulti .componentPtr

def fileComponentTlvGet (file : Mfa2File) (compIndex : Nat) : Parse (Option Nat) := do
  if file.componentCount < compIndex then pure none
  else
    match ← tlvAdvance fw file.firstComponent compIndex with
    | none => pure none
    | some compTlv =>
      match ← tlvMultiGet fw compTlv with
      | none => pure none
      | some multi =>
        match tlvMultiChild fw multi with
        | none => pure none
        | some multiChild => tlvComponentDescriptorGet fw multiChild

/-- The COMPONENT_PTR that `mlxfw_mfa2_file_component_find` looks up, in the device with the
PSID; the index is passed as a `u16`. -/
def fileComponentPtrFind (file : Mfa2File) (psid : List UInt8) (componentIndex : Int) :
    Parse (Option Nat) := do
  match ← tlvDevGet fuel fw file psid with
  | none => pure none
  | some devMulti =>
    tlvMultiChildFind fuel fw devMulti .componentPtr (componentIndex % 2 ^ 16).toNat

def fileComponentFind (file : Mfa2File) (psid : List UInt8) (componentIndex : Int) :
    Parse (Option Nat) := do
  match ← fileComponentPtrFind fuel fw file psid componentIndex with
  | none => pure none
  | some cptrTlv =>
    match ← tlvComponentPtrGet fw cptrTlv with
    | none => pure none
    | some cptr => do
      let compIdx ← load16 fw (cptr + 2)
      fileComponentTlvGet fw file compIdx

end

end Mlxfw
