-- SUMMARY: The tables that route MADs to agents.
import Mathlib.Algebra.Group.Nat.Defs
import Mathlib.Data.List.Nodup

/-!
# Agent tables

A table for each class version, with a method table for each class; classes of vendor range 2
have OUI slots between. Agents are named by their address; `NULL` is `none`.
-/

open Function List

namespace Mad

abbrev Oui := Nat × Nat × Nat

/-- `struct ib_mad_mgmt_method_table`. -/
abbrev MethodTable := Nat → Option Nat

/-- `struct ib_mad_mgmt_class_table`. -/
abbrev ClassTable := Nat → Option MethodTable

/-- `struct ib_mad_mgmt_vendor_class`. -/
structure VendorClass where
  oui : Nat → Oui
  methodTable : Nat → Option MethodTable

/-- `struct ib_mad_mgmt_vendor_class_table`. -/
abbrev VendorTable := Nat → Option VendorClass

/-- `struct ib_mad_mgmt_version_table`. -/
structure VersionTable where
  class_ : Option ClassTable
  vendor : Option VendorTable

abbrev PortVersions := Nat → VersionTable

def maxMgmtClass : Nat := 80
def maxMgmtVersion : Nat := 0x83
def maxMgmtOui : Nat := 8
def maxMgmtVendorRange2 : Nat := 32
def ibMgmtMaxMethods : Nat := 128

def subnDirectedRoute : Nat := 0x81

def subnLidRouted : Nat := 0x01

structure RegReq where
  mgmtClass : Nat
  mgmtClassVersion : Nat
  oui : Oui
  methodMask : BitVec 128
deriving DecidableEq, Repr

/-- What `find_mad_agent` reads of a MAD; `oui` is that of `struct ib_vendor_mad`. -/
structure MadHdr where
  mgmtClass : Nat
  classVersion : Nat
  method : Nat
  attrModResp : Bool
  oui : Oui
  method_lt : method < 2 ^ 8

/-- Which of the allocations of a registration succeed: a class or vendor table, a vendor class,
a method table. -/
structure Allocs where
  table : Bool
  vendorClass : Bool
  methodTable : Bool
deriving DecidableEq, Repr

inductive RegRet where
  | ok
  | einval
  | enomem
  | enodev
  | eprotonosupport
  /-- What a function called reports. -/
  | err (errno : Nat)
deriving DecidableEq, Repr

/-! ## Classes -/

def convertMgmtClass (mgmtClass : Nat) : Nat :=
  if mgmtClass = subnDirectedRoute then 0 else mgmtClass

def isVendorClass (mgmtClass : Nat) : Bool := 0x30 ≤ mgmtClass ∧ mgmtClass ≤ 0x4F

def vendorClassIndex (mgmtClass : Nat) : Nat := mgmtClass - 0x30

def isVendorOui (oui : Oui) : Bool := oui ≠ (0, 0, 0)

def ibResponseMad (hdr : MadHdr) : Bool :=
  hdr.method.testBit 7 || hdr.method = 0x07 || (hdr.mgmtClass = 0x05 && hdr.attrModResp)

def ibIsMadClassRmpp (mgmtClass : Nat) : Bool :=
  mgmtClass = 0x03 || mgmtClass = 0x06 || mgmtClass = 0x10 || mgmtClass = 0x12 ||
    isVendorClass mgmtClass

/-! ## Method tables -/

def methodInUse (method : MethodTable) (req : RegReq) : Bool :=
  (List.range ibMgmtMaxMethods).any fun i => req.methodMask.getLsbD i && (method i).isSome

def checkMethodTable (method : MethodTable) : Bool :=
  (List.range ibMgmtMaxMethods).any fun i => (method i).isSome

def checkClassTable (table : ClassTable) : Bool :=
  (List.range maxMgmtClass).any fun i => (table i).isSome

def checkVendorClass (vendorClass : VendorClass) : Bool :=
  (List.range maxMgmtOui).any fun i => (vendorClass.methodTable i).isSome

def checkVendorTable (vendor : VendorTable) : Bool :=
  (List.range maxMgmtVendorRange2).any fun i => (vendor i).isSome

/-- `find_vendor_oui`, `none` for -1. -/
def findVendorOui (vendorClass : VendorClass) (oui : Oui) : Option Nat :=
  (List.range maxMgmtOui).find? fun i => vendorClass.oui i = oui

def isVendorMethodInUse (vendorClass : VendorClass) (req : RegReq) : Bool :=
  let used := (List.range maxMgmtOui).find? fun i =>
    vendorClass.oui i = req.oui ∧ (vendorClass.methodTable i).isSome
  match used.bind vendorClass.methodTable with
  | some method => methodInUse method req
  | none => false

def removeMethodsMadAgent (method : MethodTable) (agent : Nat) : MethodTable := fun i =>
  if method i = some agent then none else method i

def addMethods (method : MethodTable) (req : RegReq) (agent : Nat) : MethodTable := fun i =>
  if req.methodMask.getLsbD i then some agent else method i

def emptyMethodTable : MethodTable := fun _ => none

/-- A method table without agents is freed. -/
def releaseIfUnused (method : MethodTable) : Option MethodTable :=
  if checkMethodTable method then some method else none

/-! ## The tables of a port -/

namespace PortVersions

variable (p : PortVersions) (version : Nat)

def setClass (table : Option ClassTable) : PortVersions :=
  update p version { p version with class_ := table }

def setVendor (vendor : Option VendorTable) : PortVersions :=
  update p version { p version with vendor := vendor }

/-- A store to an entry of the vendor table. -/
def setVendorClass (index : Nat) (vendorClass : Option VendorClass) : PortVersions :=
  p.setVendor version ((p version).vendor.map fun vendor =>
    update vendor index vendorClass)

/-- `add_nonoui_reg_req` with a method table: the methods are added unless one is in use. -/
def addClassMethods (req : RegReq) (agent mgmtClass : Nat) (table : ClassTable)
    (method : MethodTable) : RegRet × PortVersions :=
  if methodInUse method req then
    let method := releaseIfUnused (removeMethodsMadAgent method agent)
    (.einval, p.setClass req.mgmtClassVersion (some (update table mgmtClass method)))
  else
    let method := some (addMethods method req agent)
    (.ok, p.setClass req.mgmtClassVersion (some (update table mgmtClass method)))

def addNonouiRegReq (req : RegReq) (agent mgmtClass : Nat) (allocs : Allocs) :
    RegRet × PortVersions :=
  match (p req.mgmtClassVersion).class_ with
  | none =>
    if !allocs.table || !allocs.methodTable then (.enomem, p)
    else p.addClassMethods req agent mgmtClass (fun _ => none) emptyMethodTable
  | some table =>
    match table mgmtClass with
    | some method => p.addClassMethods req agent mgmtClass table method
    | none =>
      if !allocs.methodTable then (.enomem, p)
      else p.addClassMethods req agent mgmtClass table emptyMethodTable

/-- `error2` of `add_oui_reg_req`: a vendor table that it has allocated is freed. -/
def error2 (newVendor : Bool) : PortVersions :=
  if newVendor then p.setVendor version none else p

/-- `error3`: so is a vendor class. -/
def error3 (vclass : Nat) (newVendor newClass : Bool) : PortVersions :=
  (if newClass then p.setVendorClass version vclass none else p).error2 version newVendor

/-- `check_in_use`: the methods are added to slot `i` unless one is in use. -/
def addSlotMethods (req : RegReq) (agent : Nat) (newVendor newClass : Bool) (oui : Nat → Oui)
    (methodTable : Nat → Option MethodTable) (i : Nat) (method : MethodTable) :
    RegRet × PortVersions :=
  let version := req.mgmtClassVersion
  let vclass := vendorClassIndex req.mgmtClass
  if methodInUse method req then
    let method := releaseIfUnused (removeMethodsMadAgent method agent)
    let p := p.setVendorClass version vclass (some ⟨oui, update methodTable i method⟩)
    (.einval, p.error3 version vclass newVendor newClass)
  else
    let method := some (addMethods method req agent)
    (.ok, p.setVendorClass version vclass (some ⟨oui, update methodTable i method⟩))

/-- `add_oui_reg_req`, once there is a vendor class: the slot of the OUI, or a free one. -/
def addOuiSlot (req : RegReq) (agent : Nat) (newVendor newClass : Bool)
    (vendorClass : VendorClass) (allocs : Allocs) : RegRet × PortVersions :=
  let fails : RegRet × PortVersions :=
    (.enomem, p.error3 req.mgmtClassVersion (vendorClassIndex req.mgmtClass) newVendor newClass)
  let add := p.addSlotMethods req agent newVendor newClass
  match findVendorOui vendorClass req.oui with
  | some i =>
    match vendorClass.methodTable i with
    | none => fails
    | some method => add vendorClass.oui vendorClass.methodTable i method
  | none =>
    match (List.range maxMgmtOui).find? fun i => !isVendorOui (vendorClass.oui i) with
    | none => fails
    | some i =>
      let oui := update vendorClass.oui i req.oui
      match vendorClass.methodTable i with
      | some method => add oui vendorClass.methodTable i method
      | none =>
        if !allocs.methodTable then fails
        else add oui vendorClass.methodTable i emptyMethodTable

def emptyVendorClass : VendorClass := ⟨fun _ => (0, 0, 0), fun _ => none⟩

def addOuiRegReq (req : RegReq) (agent : Nat) (allocs : Allocs) : RegRet × PortVersions :=
  let version := req.mgmtClassVersion
  let vclass := vendorClassIndex req.mgmtClass
  match (p version).vendor with
  | none =>
    if !allocs.table then (.enomem, p)
    else
      let p := p.setVendor version (some fun _ => none)
      if !allocs.vendorClass then (.enomem, p.error2 version true)
      else
        let p := p.setVendorClass version vclass (some emptyVendorClass)
        p.addOuiSlot req agent true true emptyVendorClass allocs
  | some vendor =>
    match vendor vclass with
    | none =>
      if !allocs.vendorClass then (.enomem, p.error2 version false)
      else
        let p := p.setVendorClass version vclass (some emptyVendorClass)
        p.addOuiSlot req agent false true emptyVendorClass allocs
    | some vendorClass => p.addOuiSlot req agent false false vendorClass allocs

/-- The part of `remove_mad_reg_req` that looks at the class table. -/
def removeClassMethods (req : RegReq) (agent : Nat) : PortVersions :=
  let version := req.mgmtClassVersion
  let mgmtClass := convertMgmtClass req.mgmtClass
  match (p version).class_ with
  | none => p
  | some table =>
    match table mgmtClass with
    | none => p
    | some method =>
      let method := removeMethodsMadAgent method agent
      let table := update table mgmtClass (releaseIfUnused method)
      if checkMethodTable method || checkClassTable table then p.setClass version (some table)
      else p.setClass version none

/-- The part of `remove_mad_reg_req` that looks at the vendor table. -/
def removeVendorMethods (req : RegReq) (agent : Nat) : PortVersions :=
  let version := req.mgmtClassVersion
  let vclass := vendorClassIndex req.mgmtClass
  match (p version).vendor with
  | none => p
  | some vendor =>
    match vendor vclass with
    | none => p
    | some vendorClass =>
      match findVendorOui vendorClass req.oui with
      | none => p
      | some i =>
        match vendorClass.methodTable i with
        | none => p
        | some method =>
          let method := removeMethodsMadAgent method agent
          if checkMethodTable method then
            p.setVendorClass version vclass
              (some ⟨vendorClass.oui, update vendorClass.methodTable i (some method)⟩)
          else
            let vendorClass : VendorClass :=
              ⟨update vendorClass.oui i (0, 0, 0),
                update vendorClass.methodTable i none⟩
            if checkVendorClass vendorClass then
              p.setVendorClass version vclass (some vendorClass)
            else if checkVendorTable (update vendor vclass none) then
              p.setVendorClass version vclass none
            else p.setVendor version none

def removeMadRegReq (regReq : Option RegReq) (agent : Nat) : PortVersions :=
  match regReq with
  | none => p
  | some req =>
    let p := p.removeClassMethods req agent
    if isVendorClass (convertMgmtClass req.mgmtClass) then p.removeVendorMethods req agent else p

def classAgent (mgmtClass method : Nat) : Option Nat :=
  (((p version).class_).bind (· mgmtClass)).bind (· method)

end PortVersions

def VendorClass.agent (vendorClass : VendorClass) (oui : Oui) (method : Nat) : Option Nat :=
  ((findVendorOui vendorClass oui).bind vendorClass.methodTable).bind (· method)

def PortVersions.vendorAgent (p : PortVersions) (version vclass : Nat) (oui : Oui)
    (method : Nat) : Option Nat :=
  (((p version).vendor).bind (· vclass)).bind fun vendorClass => vendorClass.agent oui method

/-- `find_mad_agent`; `byTid` is the agent of a response's transaction ID. -/
def findMadAgent (p : PortVersions) (recvHandler : Nat → Bool) (byTid : Option Nat)
    (hdr : MadHdr) : Option Nat :=
  let madAgent :=
    if ibResponseMad hdr then byTid
    else if maxMgmtVersion ≤ hdr.classVersion then none
    else if !isVendorClass hdr.mgmtClass then
      if maxMgmtClass ≤ convertMgmtClass hdr.mgmtClass then none
      else p.classAgent hdr.classVersion (convertMgmtClass hdr.mgmtClass) (hdr.method &&& 0x7F)
    else p.vendorAgent hdr.classVersion (vendorClassIndex hdr.mgmtClass) hdr.oui
      (hdr.method &&& 0x7F)
  madAgent.filter recvHandler

/-! ## Stores to the tables -/

namespace PortVersions

variable {p : PortVersions} {version v c k m : Nat} {oui : Oui}

@[simp] theorem setClass_vendor (table : Option ClassTable) :
    (p.setClass version table v).vendor = (p v).vendor := by
  by_cases hv : v = version
  · subst hv
    simp [setClass]
  · simp [setClass, hv]

@[simp] theorem setVendor_class (vendor : Option VendorTable) :
    (p.setVendor version vendor v).class_ = (p v).class_ := by
  by_cases hv : v = version
  · subst hv
    simp [setVendor]
  · simp [setVendor, hv]

theorem setClass_class (table : Option ClassTable) :
    (p.setClass version table v).class_ = if v = version then table else (p v).class_ := by
  by_cases hv : v = version
  · subst hv
    simp [setClass]
  · simp [setClass, hv]

theorem setVendor_vendor (vendor : Option VendorTable) :
    (p.setVendor version vendor v).vendor = if v = version then vendor else (p v).vendor := by
  by_cases hv : v = version
  · subst hv
    simp [setVendor]
  · simp [setVendor, hv]

@[simp] theorem setVendor_setVendor (vendor vendor' : Option VendorTable) :
    (p.setVendor version vendor).setVendor version vendor' = p.setVendor version vendor' := by
  simp [setVendor]

theorem setVendor_self : p.setVendor version (p version).vendor = p := update_eq_self ..

@[simp] theorem classAgent_setVendor (vendor : Option VendorTable) :
    (p.setVendor version vendor).classAgent v c m = p.classAgent v c m := by
  simp [classAgent]

@[simp] theorem classAgent_setVendorClass (index : Nat) (vendorClass : Option VendorClass) :
    (p.setVendorClass version index vendorClass).classAgent v c m = p.classAgent v c m :=
  classAgent_setVendor _

theorem classAgent_setClass (table : Option ClassTable) :
    (p.setClass version table).classAgent v c m =
      if v = version then (table.bind (· c)).bind (· m) else p.classAgent v c m := by
  unfold classAgent
  rw [setClass_class]
  by_cases hv : v = version
  · rw [if_pos hv, if_pos hv]
  · rw [if_neg hv, if_neg hv]

theorem vendorAgent_setVendor (vendor : Option VendorTable) :
    (p.setVendor version vendor).vendorAgent v k oui m =
      if v = version then (vendor.bind (· k)).bind fun vendorClass => vendorClass.agent oui m
      else p.vendorAgent v k oui m := by
  unfold vendorAgent
  rw [setVendor_vendor]
  by_cases hv : v = version
  · rw [if_pos hv, if_pos hv]
  · rw [if_neg hv, if_neg hv]

/-- A store to an entry of a vendor table that there is. -/
theorem vendorAgent_setVendorClass {vendor : VendorTable}
    (hvendor : (p version).vendor = some vendor) (index : Nat) (vendorClass : Option VendorClass) :
    (p.setVendorClass version index vendorClass).vendorAgent v k oui m =
      if v = version ∧ k = index then vendorClass.bind fun vendorClass => vendorClass.agent oui m
      else p.vendorAgent v k oui m := by
  unfold setVendorClass
  rw [vendorAgent_setVendor, hvendor]
  by_cases hv : v = version
  · subst hv
    by_cases hk : k = index
    · subst hk
      simp
    · simp [vendorAgent, hvendor, hk]
  · simp [hv]

/-! ## Methods -/

variable {method : MethodTable}

theorem none_of_methodInUse {req : RegReq} (h : methodInUse method req = false) {i : Nat}
    (hi : req.methodMask.getLsbD i) :
    method i = none := by
  have hlt : i < ibMgmtMaxMethods := BitVec.lt_of_getLsbD hi
  have hnot := any_eq_false.mp h i (mem_range.mpr hlt)
  simpa [hi] using hnot

theorem releaseIfUnused_bind (method : MethodTable) (hm : m < ibMgmtMaxMethods) :
    (releaseIfUnused method).bind (· m) = method m := by
  unfold releaseIfUnused
  by_cases hused : checkMethodTable method
  · rw [if_pos hused]
    rfl
  · rw [if_neg hused]
    have hnot := any_eq_false.mp (Bool.eq_false_iff.mpr hused) m (mem_range.mpr hm)
    exact (by simpa using hnot : method m = none).symm

theorem methodInUse_eq_false {req : RegReq} (h : ∀ m, req.methodMask.getLsbD m → method m = none) :
    methodInUse method req = false := by
  apply any_eq_false.mpr
  intro i _
  by_cases hi : req.methodMask.getLsbD i
  · simp [h i hi]
  · simp [hi]

/-- The routes of a registration for a class outside vendor range 2. -/
def ClassRoutes (req : RegReq) (mgmtClass v c m : Nat) : Prop :=
  v = req.mgmtClassVersion ∧ c = mgmtClass ∧ req.methodMask.getLsbD m

instance (req : RegReq) (mgmtClass v c m : Nat) : Decidable (ClassRoutes req mgmtClass v c m) :=
  inferInstanceAs (Decidable (_ ∧ _))

/-- A registration either fails and changes nothing, or has the routes for its own. -/
def AddsClass (p : PortVersions) (req : RegReq) (agent mgmtClass : Nat)
    (r : RegRet × PortVersions) : Prop :=
  r.1 ≠ .ok ∧ r.2 = p ∨
    r.1 = .ok ∧ (∀ v, (r.2 v).vendor = (p v).vendor) ∧
      ∀ v c m, r.2.classAgent v c m =
        if ClassRoutes req mgmtClass v c m then some agent else p.classAgent v c m

theorem addClassMethods_adds {req : RegReq} (agent : Nat) {mgmtClass : Nat} {table : ClassTable}
    (hfree : ∀ m, req.methodMask.getLsbD m → method m = none)
    (hmethod : ∀ m, (table mgmtClass).bind (· m) = method m)
    (htable : ∀ c m, p.classAgent req.mgmtClassVersion c m = (table c).bind (· m)) :
    AddsClass p req agent mgmtClass (p.addClassMethods req agent mgmtClass table method) := by
  right
  unfold addClassMethods
  rw [methodInUse_eq_false hfree]
  refine ⟨rfl, fun v => setClass_vendor _, fun v c m => ?_⟩
  simp only [Bool.false_eq_true, if_false]
  rw [classAgent_setClass]
  unfold ClassRoutes
  by_cases hv : v = req.mgmtClassVersion
  · subst hv
    rw [htable c m]
    by_cases hc : c = mgmtClass
    · subst hc
      by_cases hm : req.methodMask.getLsbD m
      · simp [addMethods, hm]
      · simp [addMethods, hm, ← hmethod m]
    · simp [hc]
  · simp [hv]

theorem addNonouiRegReq_adds (p : PortVersions) (req : RegReq) (agent mgmtClass : Nat)
    (allocs : Allocs) (hfree : ∀ m, req.methodMask.getLsbD m →
      p.classAgent req.mgmtClassVersion mgmtClass m = none) :
    AddsClass p req agent mgmtClass (p.addNonouiRegReq req agent mgmtClass allocs) := by
  unfold addNonouiRegReq
  cases hclass : (p req.mgmtClassVersion).class_ with
  | none =>
    have htable : ∀ c m, p.classAgent req.mgmtClassVersion c m = none := by
      simp [classAgent, hclass]
    by_cases hfail : !allocs.table || !allocs.methodTable
    · simp only [if_pos hfail]
      exact .inl ⟨by simp, rfl⟩
    · simp only [if_neg hfail]
      exact addClassMethods_adds agent (fun _ _ => rfl) (fun _ => rfl) htable
  | some table =>
    have htable : ∀ c m, p.classAgent req.mgmtClassVersion c m = (table c).bind (· m) := by
      simp [classAgent, hclass]
    cases hmethod : table mgmtClass with
    | some method =>
      have hsome : ∀ m, (table mgmtClass).bind (· m) = method m := by simp [hmethod]
      simp only [hmethod]
      refine addClassMethods_adds agent (fun m hm => ?_) hsome htable
      rw [← hsome m, ← htable, hfree m hm]
    | none =>
      have hnone : ∀ m, (table mgmtClass).bind (· m) = emptyMethodTable m := by
        simp [hmethod, emptyMethodTable]
      by_cases hfail : !allocs.methodTable
      · simp only [hmethod, if_pos hfail]
        exact .inl ⟨by simp, rfl⟩
      · simp only [hmethod, if_neg hfail]
        exact addClassMethods_adds agent (fun _ _ => rfl) hnone htable

theorem removeMethods_apply (method : MethodTable) (agent m : Nat) :
    removeMethodsMadAgent method agent m = (method m).filter (· ≠ agent) := by
  unfold removeMethodsMadAgent
  cases hm : method m with
  | none => rfl
  | some b =>
    by_cases hb : b = agent
    all_goals simp [hb, Option.filter]

theorem removeClassMethods_classAgent (p : PortVersions) (req : RegReq) (agent : Nat)
    {v c m : Nat} (hc : c < maxMgmtClass) (hm : m < ibMgmtMaxMethods) :
    (p.removeClassMethods req agent).classAgent v c m =
      if v = req.mgmtClassVersion ∧ c = convertMgmtClass req.mgmtClass then
        (p.classAgent v c m).filter (· ≠ agent)
      else p.classAgent v c m := by
  have hnone : (p.classAgent req.mgmtClassVersion (convertMgmtClass req.mgmtClass) m = none) →
      p.classAgent v c m =
        if v = req.mgmtClassVersion ∧ c = convertMgmtClass req.mgmtClass then
          (p.classAgent v c m).filter (· ≠ agent)
        else p.classAgent v c m := by
    intro h
    by_cases hroute : v = req.mgmtClassVersion ∧ c = convertMgmtClass req.mgmtClass
    · rw [if_pos hroute, hroute.1, hroute.2, h]
      rfl
    · rw [if_neg hroute]
  cases hclass : (p req.mgmtClassVersion).class_ with
  | none =>
    simp only [removeClassMethods, hclass]
    exact hnone (by simp [classAgent, hclass])
  | some table =>
    cases hmethod : table (convertMgmtClass req.mgmtClass) with
    | none =>
      simp only [removeClassMethods, hclass, hmethod]
      exact hnone (by simp [classAgent, hclass, hmethod])
    | some method =>
      simp only [removeClassMethods, hclass, hmethod]
      set method' := removeMethodsMadAgent method agent with hmethod'
      set table' := update table (convertMgmtClass req.mgmtClass)
        (releaseIfUnused method') with htable'
      have hnew : (table' c).bind (· m) =
          if c = convertMgmtClass req.mgmtClass then (method m).filter (· ≠ agent)
          else (table c).bind (· m) := by
        by_cases hcls : c = convertMgmtClass req.mgmtClass
        · rw [if_pos hcls, htable', hcls, update_self, releaseIfUnused_bind _ hm, hmethod',
            removeMethods_apply]
        · rw [if_neg hcls, htable', update_of_ne hcls]
      -- a class table that is freed had no agent left
      have hfreed : ((if checkMethodTable method' || checkClassTable table' then some table'
          else none).bind (· c)).bind (· m) = (table' c).bind (· m) := by
        by_cases hused : checkMethodTable method' || checkClassTable table'
        · rw [if_pos hused]
          rfl
        · rw [if_neg hused]
          have hempty := (Bool.or_eq_false_iff.mp (Bool.eq_false_iff.mpr hused)).2
          have hentry := any_eq_false.mp hempty c (mem_range.mpr hc)
          have hentry : table' c = none := by simpa using hentry
          rw [hentry]
          rfl
      have hset : (if checkMethodTable method' || checkClassTable table' then
            p.setClass req.mgmtClassVersion (some table')
          else p.setClass req.mgmtClassVersion none) =
          p.setClass req.mgmtClassVersion
            (if checkMethodTable method' || checkClassTable table' then some table' else none) := by
        split <;> rfl
      rw [hset, classAgent_setClass, hfreed, hnew]
      by_cases hv : v = req.mgmtClassVersion
      · subst hv
        by_cases hcls : c = convertMgmtClass req.mgmtClass
        · subst hcls
          simp [classAgent, hclass, hmethod]
        · simp [classAgent, hclass, hcls]
      · simp [hv]

theorem removeClassMethods_eq (p : PortVersions) (req : RegReq) (agent : Nat) :
    p.removeClassMethods req agent = p ∨
      ∃ table, p.removeClassMethods req agent = p.setClass req.mgmtClassVersion table := by
  cases hclass : (p req.mgmtClassVersion).class_ with
  | none =>
    left
    simp only [removeClassMethods, hclass]
  | some table =>
    cases hmethod : table (convertMgmtClass req.mgmtClass) with
    | none =>
      left
      simp only [removeClassMethods, hclass, hmethod]
    | some method =>
      right
      simp only [removeClassMethods, hclass, hmethod]
      split
      all_goals exact ⟨_, rfl⟩

@[simp] theorem removeClassMethods_vendor (p : PortVersions) (req : RegReq) (agent v : Nat) :
    (p.removeClassMethods req agent v).vendor = (p v).vendor := by
  rcases p.removeClassMethods_eq req agent with heq | ⟨table, heq⟩
  · rw [heq]
  · rw [heq, setClass_vendor]

end PortVersions

namespace VendorClass

/-- A free slot has no method table, and an OUI has one slot. -/
structure Wf (vc : VendorClass) : Prop where
  free : ∀ i, i < maxMgmtOui → vc.oui i = (0, 0, 0) → vc.methodTable i = none
  unique : ∀ i j, i < maxMgmtOui → j < maxMgmtOui → vc.oui i = vc.oui j →
    vc.oui i ≠ (0, 0, 0) → i = j

variable {vc : VendorClass} {oui : Oui} {i m b : Nat}

theorem oui_of_find (h : findVendorOui vc oui = some i) : i < maxMgmtOui ∧ vc.oui i = oui := by
  have hmem := mem_range.mp (mem_of_find?_eq_some h)
  exact ⟨hmem, by simpa using List.find?_some h⟩

theorem agent_eq_some_iff (hvc : vc.Wf) :
    vc.agent oui m = some b ↔
      ∃ i < maxMgmtOui, vc.oui i = oui ∧ ∃ mt, vc.methodTable i = some mt ∧ mt m = some b := by
  unfold agent
  constructor
  · intro h
    obtain ⟨mt, hmt, hb⟩ := Option.bind_eq_some_iff.mp h
    obtain ⟨i, hi, hmt⟩ := Option.bind_eq_some_iff.mp hmt
    exact ⟨i, (oui_of_find hi).1, (oui_of_find hi).2, mt, hmt, hb⟩
  · rintro ⟨i, hi, houi, mt, hmt, hb⟩
    have hne : vc.oui i ≠ (0, 0, 0) := fun h0 => by
      rw [hvc.free i hi h0] at hmt
      cases hmt
    have hfind : findVendorOui vc oui = some i := by
      cases hfind : findVendorOui vc oui with
      | none =>
        have hnot := List.find?_eq_none.mp hfind i (mem_range.mpr hi)
        simp [houi] at hnot
      | some j =>
        obtain ⟨hj, hoj⟩ := oui_of_find hfind
        rw [hvc.unique i j hi hj (houi.trans hoj.symm) hne]
    simp [hfind, hmt, hb]

theorem setMethods_agent (hvc : vc.Wf) (hi : findVendorOui vc oui = some i) (mt : MethodTable)
    (hne : oui ≠ (0, 0, 0)) :
    (⟨vc.oui, update vc.methodTable i (some mt)⟩ : VendorClass).Wf ∧
      ∀ oui' m b,
        (⟨vc.oui, update vc.methodTable i (some mt)⟩ : VendorClass).agent oui' m =
            some b ↔
          if oui' = oui then mt m = some b else vc.agent oui' m = some b := by
  obtain ⟨hlt, hoi⟩ := oui_of_find hi
  have hwf : (⟨vc.oui, update vc.methodTable i (some mt)⟩ : VendorClass).Wf := by
    refine ⟨fun j hj h0 => ?_, hvc.unique⟩
    have hji : j ≠ i := fun he => hne (by rw [← hoi, ← he]; exact h0)
    show update vc.methodTable i (some mt) j = none
    rw [update_of_ne hji]
    exact hvc.free j hj h0
  refine ⟨hwf, fun oui' m b => ?_⟩
  rw [agent_eq_some_iff hwf]
  by_cases hoo : oui' = oui
  · subst hoo
    rw [if_pos rfl]
    constructor
    · rintro ⟨j, hj, hoj, mt', hmt', hb⟩
      have hji : j = i := hvc.unique j i hj hlt (hoj.trans hoi.symm) (hoj ▸ hne)
      subst hji
      have hsame := (update_self (f := vc.methodTable) j (some mt)).symm.trans hmt'
      rw [Option.some.inj hsame]
      exact hb
    · exact fun hb => ⟨i, hlt, hoi, mt, update_self .., hb⟩
  · rw [if_neg hoo, agent_eq_some_iff hvc]
    have hother : ∀ j, vc.oui j = oui' → update vc.methodTable i (some mt) j =
        vc.methodTable j := by
      intro j hoj
      have hji : j ≠ i := fun he => hoo (by rw [← hoj, he, hoi])
      exact update_of_ne hji ..
    constructor
    · rintro ⟨j, hj, hoj, mt', hmt', hb⟩
      exact ⟨j, hj, hoj, mt', (hother j hoj).symm.trans hmt', hb⟩
    · rintro ⟨j, hj, hoj, mt', hmt', hb⟩
      exact ⟨j, hj, hoj, mt', (hother j hoj).trans hmt', hb⟩

/-- A free slot is given to an OUI that has none. -/
theorem takeSlot_agent (hvc : vc.Wf) (hnone : findVendorOui vc oui = none) (hi : i < maxMgmtOui)
    (hfree : vc.oui i = (0, 0, 0)) (mt : MethodTable) (hne : oui ≠ (0, 0, 0)) :
    (⟨update vc.oui i oui, update vc.methodTable i (some mt)⟩ :
        VendorClass).Wf ∧
      ∀ oui' m b,
        (⟨update vc.oui i oui, update vc.methodTable i (some mt)⟩ :
            VendorClass).agent oui' m = some b ↔
          if oui' = oui then mt m = some b else vc.agent oui' m = some b := by
  have habsent : ∀ j, j < maxMgmtOui → vc.oui j ≠ oui := by
    intro j hj
    simpa using List.find?_eq_none.mp hnone j (mem_range.mpr hj)
  have houi : ∀ j, j ≠ i → update vc.oui i oui j = vc.oui j := fun j hji =>
    update_of_ne hji ..
  have hmts : ∀ j, j ≠ i → update vc.methodTable i (some mt) j = vc.methodTable j :=
    fun j hji => update_of_ne hji ..
  have hself : update vc.oui i oui i = oui := update_self ..
  have hmself : update vc.methodTable i (some mt) i = some mt := update_self ..
  have hwf : (⟨update vc.oui i oui, update vc.methodTable i (some mt)⟩ :
      VendorClass).Wf := by
    constructor
    · intro j hj h0
      have hji : j ≠ i := fun he => hne (by rw [he] at h0; exact hself.symm.trans h0)
      exact (hmts j hji).trans (hvc.free j hj ((houi j hji).symm.trans h0))
    · intro j k hj hk hjk h0
      by_cases hji : j = i
      · by_cases hki : k = i
        · rw [hji, hki]
        · exfalso
          rw [hji] at hjk
          exact habsent k hk ((houi k hki).symm.trans (hjk.symm.trans hself))
      · by_cases hki : k = i
        · exfalso
          rw [hki] at hjk
          exact habsent j hj ((houi j hji).symm.trans (hjk.trans hself))
        · have hold : vc.oui j = vc.oui k := (houi j hji).symm.trans (hjk.trans (houi k hki))
          exact hvc.unique j k hj hk hold fun hz => h0 ((houi j hji).trans hz)
  refine ⟨hwf, fun oui' m b => ?_⟩
  rw [agent_eq_some_iff hwf]
  by_cases hoo : oui' = oui
  · subst hoo
    rw [if_pos rfl]
    constructor
    · rintro ⟨j, hj, hoj, mt', hmt', hb⟩
      have hji : j = i := by
        by_contra hji
        exact habsent j hj ((houi j hji).symm.trans hoj)
      subst hji
      rw [Option.some.inj (hmself.symm.trans hmt')]
      exact hb
    · exact fun hb => ⟨i, hi, hself, mt, hmself, hb⟩
  · rw [if_neg hoo, agent_eq_some_iff hvc]
    constructor
    · rintro ⟨j, hj, hoj, mt', hmt', hb⟩
      have hji : j ≠ i := fun he => hoo (by rw [he] at hoj; exact hoj.symm.trans hself)
      exact ⟨j, hj, (houi j hji).symm.trans hoj, mt', (hmts j hji).symm.trans hmt', hb⟩
    · rintro ⟨j, hj, hoj, mt', hmt', hb⟩
      have hji : j ≠ i := fun he => by
        rw [he, hvc.free i hi hfree] at hmt'
        cases hmt'
      exact ⟨j, hj, (houi j hji).trans hoj, mt', (hmts j hji).trans hmt', hb⟩

theorem freeSlot_agent (hvc : vc.Wf) (hi : findVendorOui vc oui = some i)
    (hne : oui ≠ (0, 0, 0)) :
    (⟨update vc.oui i (0, 0, 0), update vc.methodTable i none⟩ :
        VendorClass).Wf ∧
      ∀ oui' m b,
        (⟨update vc.oui i (0, 0, 0), update vc.methodTable i none⟩ :
            VendorClass).agent oui' m = some b ↔
          oui' ≠ oui ∧ vc.agent oui' m = some b := by
  obtain ⟨hlt, hoi⟩ := oui_of_find hi
  have houi : ∀ j, j ≠ i → update vc.oui i (0, 0, 0) j = vc.oui j := fun j hji =>
    update_of_ne hji ..
  have hmts : ∀ j, j ≠ i → update vc.methodTable i none j = vc.methodTable j :=
    fun j hji => update_of_ne hji ..
  have hself : update vc.oui i (0, 0, 0) i = (0, 0, 0) := update_self ..
  have hmself : update vc.methodTable i none i = none := update_self ..
  have hwf : (⟨update vc.oui i (0, 0, 0), update vc.methodTable i none⟩ :
      VendorClass).Wf := by
    constructor
    · intro j hj h0
      by_cases hji : j = i
      · rw [hji]
        exact hmself
      · exact (hmts j hji).trans (hvc.free j hj ((houi j hji).symm.trans h0))
    · intro j k hj hk hjk h0
      have hji : j ≠ i := fun he => h0 (by rw [he]; exact hself)
      have hki : k ≠ i := fun he => h0 (by rw [hjk, he]; exact hself)
      have hold : vc.oui j = vc.oui k := (houi j hji).symm.trans (hjk.trans (houi k hki))
      exact hvc.unique j k hj hk hold fun hz => h0 ((houi j hji).trans hz)
  refine ⟨hwf, fun oui' m b => ?_⟩
  rw [agent_eq_some_iff hwf, agent_eq_some_iff hvc]
  constructor
  · rintro ⟨j, hj, hoj, mt', hmt', hb⟩
    have hji : j ≠ i := fun he => by
      rw [he] at hmt'
      cases hmself.symm.trans hmt'
    have hold : vc.oui j = oui' := (houi j hji).symm.trans hoj
    refine ⟨fun hoo => hji ?_, j, hj, hold, mt', (hmts j hji).symm.trans hmt', hb⟩
    rw [hoo] at hold
    exact hvc.unique j i hj hlt (hold.trans hoi.symm) (hold ▸ hne)
  · rintro ⟨hoo, j, hj, hoj, mt', hmt', hb⟩
    have hji : j ≠ i := fun he => hoo (by rw [← hoj, he, hoi])
    exact ⟨j, hj, (houi j hji).trans hoj, mt', (hmts j hji).trans hmt', hb⟩

end VendorClass

/-! ## Vendor tables -/

namespace PortVersions

variable {p q : PortVersions} {req : RegReq} {agent : Nat}

/-- The vendor class at an index, if there is one. -/
def vendorClassAt (p : PortVersions) (version index : Nat) : Option VendorClass :=
  ((p version).vendor).bind (· index)

/-- Every vendor class has its slots in order. -/
def Wf (p : PortVersions) : Prop :=
  ∀ version index vc, p.vendorClassAt version index = some vc → vc.Wf

variable {vendor : VendorTable}

theorem vendorClassAt_setVendorClass {version : Nat} (hvendor : (p version).vendor = some vendor)
    (index : Nat) (vc : Option VendorClass) (v k : Nat) :
    (p.setVendorClass version index vc).vendorClassAt v k =
      if v = version ∧ k = index then vc else p.vendorClassAt v k := by
  unfold vendorClassAt setVendorClass
  rw [setVendor_vendor, hvendor]
  by_cases hv : v = version
  · subst hv
    by_cases hk : k = index
    · subst hk
      simp
    · simp [hvendor, hk]
  · simp [hv]

theorem Wf.setVendorClass (h : p.Wf) {version : Nat} (hvendor : (p version).vendor = some vendor)
    (index : Nat) {vc : Option VendorClass} (hvc : ∀ vc', vc = some vc' → vc'.Wf) :
    (p.setVendorClass version index vc).Wf := by
  intro v k vc' hvc'
  rw [vendorClassAt_setVendorClass hvendor] at hvc'
  by_cases hvk : v = version ∧ k = index
  · rw [if_pos hvk] at hvc'
    exact hvc vc' hvc'
  · rw [if_neg hvk] at hvc'
    exact h v k vc' hvc'

theorem wf_emptyVendorClass : emptyVendorClass.Wf :=
  ⟨fun _ _ _ => rfl, fun _ _ _ _ _ h => absurd rfl h⟩

theorem emptyVendorClass_agent (oui : Oui) (m : Nat) : emptyVendorClass.agent oui m = none := by
  unfold VendorClass.agent emptyVendorClass
  cases findVendorOui _ oui <;> rfl

def VendorRoutes (req : RegReq) (v k : Nat) (oui : Oui) (m : Nat) : Prop :=
  v = req.mgmtClassVersion ∧ k = vendorClassIndex req.mgmtClass ∧ oui = req.oui ∧
    req.methodMask.getLsbD m

instance (req : RegReq) (v k : Nat) (oui : Oui) (m : Nat) :
    Decidable (VendorRoutes req v k oui m) :=
  inferInstanceAs (Decidable (_ ∧ _))

/-- A registration has added its methods to a vendor class. -/
def AddsSlot (req : RegReq) (agent : Nat) (vc vc' : VendorClass) : Prop :=
  vc'.Wf ∧ ∀ oui m b, vc'.agent oui m = some b ↔
    if oui = req.oui ∧ req.methodMask.getLsbD m then agent = b else vc.agent oui m = some b

/-- With a vendor class, either nothing is left of a failed registration, or its methods are in
a slot. -/
theorem addOuiSlot_adds (q : PortVersions) (agent : Nat) {vc : VendorClass} (hvc : vc.Wf)
    (hne : req.oui ≠ (0, 0, 0))
    (hfree : ∀ m, req.methodMask.getLsbD m → vc.agent req.oui m = none)
    (newVendor newClass : Bool) (allocs : Allocs) :
    ((q.addOuiSlot req agent newVendor newClass vc allocs).1 ≠ .ok ∧
      (q.addOuiSlot req agent newVendor newClass vc allocs).2 =
        q.error3 req.mgmtClassVersion (vendorClassIndex req.mgmtClass) newVendor newClass) ∨
    ((q.addOuiSlot req agent newVendor newClass vc allocs).1 = .ok ∧
      ∃ vc', AddsSlot req agent vc vc' ∧
        (q.addOuiSlot req agent newVendor newClass vc allocs).2 =
          q.setVendorClass req.mgmtClassVersion (vendorClassIndex req.mgmtClass) (some vc')) := by
  cases hfind : findVendorOui vc req.oui with
  | some i =>
    cases hmt : vc.methodTable i with
    | none =>
      left
      simp only [addOuiSlot, hfind, hmt]
      exact ⟨by simp, trivial⟩
    | some method =>
      have hmethod : ∀ m, vc.agent req.oui m = method m := by
        simp [VendorClass.agent, hfind, hmt]
      have hunused : methodInUse method req = false :=
        methodInUse_eq_false fun m hm => (hmethod m).symm.trans (hfree m hm)
      obtain ⟨hwf, hagent⟩ :=
        VendorClass.setMethods_agent hvc hfind (addMethods method req agent) hne
      right
      simp only [addOuiSlot, hfind, hmt, addSlotMethods, hunused]
      refine ⟨rfl, _, ⟨hwf, fun oui m b => ?_⟩, rfl⟩
      rw [hagent]
      by_cases ho : oui = req.oui
      · subst ho
        by_cases hm : req.methodMask.getLsbD m
        · simp [addMethods, hm]
        · simp [addMethods, hm, hmethod]
      · simp [ho]
  | none =>
    cases hslot : (List.range maxMgmtOui).find? fun i => !isVendorOui (vc.oui i) with
    | none =>
      left
      simp only [addOuiSlot, hfind, hslot]
      exact ⟨by simp, trivial⟩
    | some i =>
      have hlt : i < maxMgmtOui := mem_range.mp (mem_of_find?_eq_some hslot)
      have hzero : vc.oui i = (0, 0, 0) := by simpa [isVendorOui] using List.find?_some hslot
      by_cases hfail : !allocs.methodTable
      · left
        simp only [addOuiSlot, hfind, hslot, hvc.free i hlt hzero, if_pos hfail]
        exact ⟨by simp, trivial⟩
      · have hunused : methodInUse emptyMethodTable req = false :=
          methodInUse_eq_false fun _ _ => rfl
        have habsent : ∀ m, vc.agent req.oui m = none := by simp [VendorClass.agent, hfind]
        obtain ⟨hwf, hagent⟩ := VendorClass.takeSlot_agent hvc hfind hlt hzero
          (addMethods emptyMethodTable req agent) hne
        right
        simp only [addOuiSlot, hfind, hslot, hvc.free i hlt hzero, if_neg hfail, addSlotMethods,
          hunused]
        refine ⟨rfl, _, ⟨hwf, fun oui m b => ?_⟩, rfl⟩
        rw [hagent]
        by_cases ho : oui = req.oui
        · subst ho
          by_cases hm : req.methodMask.getLsbD m
          · simp [addMethods, hm]
          · simp [addMethods, hm, habsent, emptyMethodTable]
        · simp [ho]

/-- A registration either fails and changes nothing, or has the routes for its own. -/
def AddsVendor (p : PortVersions) (req : RegReq) (agent : Nat) (r : RegRet × PortVersions) :
    Prop :=
  r.1 ≠ .ok ∧ r.2 = p ∨
    r.1 = .ok ∧ r.2.Wf ∧ (∀ v c m, r.2.classAgent v c m = p.classAgent v c m) ∧
      ∀ v k oui m b, r.2.vendorAgent v k oui m = some b ↔
        if VendorRoutes req v k oui m then agent = b else p.vendorAgent v k oui m = some b

theorem vendorAgent_eq (v k : Nat) (oui : Oui) (m : Nat) :
    p.vendorAgent v k oui m = (p.vendorClassAt v k).bind fun vc => vc.agent oui m := rfl

theorem addsVendor_setVendorClass (hp : p.Wf)
    (hvendor : (q req.mgmtClassVersion).vendor = some vendor) {vc vc' : VendorClass}
    (hadds : AddsSlot req agent vc vc') (hold : ∀ oui m,
      p.vendorAgent req.mgmtClassVersion (vendorClassIndex req.mgmtClass) oui m = vc.agent oui m)
    (hsame : ∀ v k, ¬(v = req.mgmtClassVersion ∧ k = vendorClassIndex req.mgmtClass) →
      q.vendorClassAt v k = p.vendorClassAt v k)
    (hclass : ∀ v c m, q.classAgent v c m = p.classAgent v c m) :
    AddsVendor p req agent (.ok, q.setVendorClass req.mgmtClassVersion
      (vendorClassIndex req.mgmtClass) (some vc')) := by
  right
  refine ⟨rfl, ?_, fun v c m => ?_, fun v k oui m b => ?_⟩
  · intro v k vc'' hvc''
    rw [vendorClassAt_setVendorClass hvendor] at hvc''
    by_cases hvk : v = req.mgmtClassVersion ∧ k = vendorClassIndex req.mgmtClass
    · rw [if_pos hvk] at hvc''
      exact Option.some.inj hvc'' ▸ hadds.1
    · rw [if_neg hvk, hsame v k hvk] at hvc''
      exact hp v k vc'' hvc''
  · rw [classAgent_setVendorClass]
    exact hclass v c m
  · rw [vendorAgent_eq, vendorClassAt_setVendorClass hvendor]
    by_cases hvk : v = req.mgmtClassVersion ∧ k = vendorClassIndex req.mgmtClass
    · obtain ⟨rfl, rfl⟩ := id hvk
      simp [VendorRoutes, hold, hadds.2]
    · have hno : ¬VendorRoutes req v k oui m := fun h => hvk ⟨h.1, h.2.1⟩
      rw [if_neg hvk, hsame v k hvk, if_neg hno]
      rfl

/-- What a failed call has allocated is freed again. -/
theorem setVendor_undo {version : Nat} (vendor : Option VendorTable) :
    (p.setVendor version vendor).setVendor version (p version).vendor = p := by
  rw [setVendor_setVendor, setVendor_self]

theorem setVendorClass_undo {version index : Nat} (hvendor : (p version).vendor = some vendor)
    (hnone : vendor index = none) (vc : Option VendorClass) :
    (p.setVendorClass version index vc).setVendorClass version index none = p := by
  have hback : update (update vendor index vc) index none = vendor := by
    rw [update_idem, ← hnone, update_eq_self]
  unfold setVendorClass
  rw [setVendor_vendor, if_pos rfl, hvendor, setVendor_setVendor, Option.map_some, Option.map_some,
    hback, ← hvendor, setVendor_self]

theorem addOuiRegReq_adds (hp : p.Wf) (hne : req.oui ≠ (0, 0, 0)) (allocs : Allocs)
    (hfree : ∀ m, req.methodMask.getLsbD m →
      p.vendorAgent req.mgmtClassVersion (vendorClassIndex req.mgmtClass) req.oui m = none) :
    AddsVendor p req agent (p.addOuiRegReq req agent allocs) := by
  have hempty : ∀ m, req.methodMask.getLsbD m → emptyVendorClass.agent req.oui m = none :=
    fun m _ => emptyVendorClass_agent req.oui m
  cases hvendor : (p req.mgmtClassVersion).vendor with
  | none =>
    have hundo : ∀ vendor, (p.setVendor req.mgmtClassVersion vendor).setVendor
        req.mgmtClassVersion none = p := fun vendor => by
      rw [← hvendor]
      exact setVendor_undo vendor
    by_cases htable : !allocs.table
    · simp only [addOuiRegReq, hvendor, if_pos htable]
      exact .inl ⟨by simp, rfl⟩
    by_cases hclass : !allocs.vendorClass
    · simp only [addOuiRegReq, hvendor, if_neg htable, if_pos hclass]
      exact .inl ⟨by simp, hundo _⟩
    simp only [addOuiRegReq, hvendor, if_neg htable, if_neg hclass]
    set p₁ := p.setVendor req.mgmtClassVersion (some fun _ => none) with hp₁
    have hvendor₁ : (p₁ req.mgmtClassVersion).vendor = some fun _ => none := by
      rw [hp₁, setVendor_vendor, if_pos rfl]
    set q := p₁.setVendorClass req.mgmtClassVersion (vendorClassIndex req.mgmtClass)
      (some emptyVendorClass) with hq
    have hvendor₂ : (q req.mgmtClassVersion).vendor =
        some (update (fun _ => none) (vendorClassIndex req.mgmtClass)
          (some emptyVendorClass)) := by
      rw [hq, setVendorClass, setVendor_vendor, if_pos rfl, hvendor₁]
      rfl
    rcases addOuiSlot_adds q agent wf_emptyVendorClass hne hempty true true
      allocs with ⟨hret, heq⟩ | ⟨hret, vc', hadds, heq⟩
    · left
      refine ⟨hret, heq.trans ?_⟩
      rw [hq, hp₁]
      unfold error3 error2 setVendorClass
      simp only [if_true, setVendor_setVendor]
      rw [← hvendor, setVendor_self]
    · have hr : q.addOuiSlot req agent true true emptyVendorClass allocs = (.ok, q.setVendorClass
          req.mgmtClassVersion (vendorClassIndex req.mgmtClass) (some vc')) := Prod.ext hret heq
      rw [hr]
      apply addsVendor_setVendorClass hp hvendor₂ hadds
      · intro oui m
        rw [emptyVendorClass_agent]
        simp [vendorAgent, hvendor]
      · intro v k hvk
        rw [hq, vendorClassAt_setVendorClass hvendor₁, if_neg hvk]
        unfold vendorClassAt
        rw [hp₁, setVendor_vendor]
        by_cases hv : v = req.mgmtClassVersion
        · subst hv
          simp [hvendor]
        · rw [if_neg hv]
      · intro v c m
        rw [hq, classAgent_setVendorClass, hp₁, classAgent_setVendor]
  | some vendor =>
    cases hvc : vendor (vendorClassIndex req.mgmtClass) with
    | none =>
      by_cases hclass : !allocs.vendorClass
      · simp only [addOuiRegReq, hvendor, hvc, if_pos hclass]
        exact .inl ⟨by simp, rfl⟩
      simp only [addOuiRegReq, hvendor, hvc, if_neg hclass]
      set q := p.setVendorClass req.mgmtClassVersion (vendorClassIndex req.mgmtClass)
        (some emptyVendorClass) with hq
      have hvendor₂ : (q req.mgmtClassVersion).vendor =
          some (update vendor (vendorClassIndex req.mgmtClass)
            (some emptyVendorClass)) := by
        rw [hq, setVendorClass, setVendor_vendor, if_pos rfl, hvendor]
        rfl
      rcases addOuiSlot_adds q agent wf_emptyVendorClass hne hempty false true
        allocs with ⟨hret, heq⟩ | ⟨hret, vc', hadds, heq⟩
      · left
        refine ⟨hret, heq.trans ?_⟩
        exact setVendorClass_undo hvendor hvc _
      · have hr : q.addOuiSlot req agent false true emptyVendorClass allocs =
            (.ok, q.setVendorClass req.mgmtClassVersion (vendorClassIndex req.mgmtClass)
              (some vc')) := Prod.ext hret heq
        rw [hr]
        apply addsVendor_setVendorClass hp hvendor₂ hadds
        · intro oui m
          rw [emptyVendorClass_agent]
          simp [vendorAgent, hvendor, hvc]
        · intro v k hvk
          rw [hq, vendorClassAt_setVendorClass hvendor, if_neg hvk]
        · intro v c m
          rw [hq, classAgent_setVendorClass]
    | some vc =>
      have hold : ∀ oui m, p.vendorAgent req.mgmtClassVersion (vendorClassIndex req.mgmtClass)
          oui m = vc.agent oui m := by
        simp [vendorAgent, hvendor, hvc]
      have hwf : vc.Wf := hp req.mgmtClassVersion (vendorClassIndex req.mgmtClass) vc
        (by simp [vendorClassAt, hvendor, hvc])
      simp only [addOuiRegReq, hvendor, hvc]
      rcases addOuiSlot_adds p agent hwf hne
        (fun m hm => (hold req.oui m).symm.trans (hfree m hm)) false false allocs with
        ⟨hret, heq⟩ | ⟨hret, vc', hadds, heq⟩
      · exact .inl ⟨hret, heq⟩
      · have hr : p.addOuiSlot req agent false false vc allocs =
            (.ok, p.setVendorClass req.mgmtClassVersion (vendorClassIndex req.mgmtClass)
              (some vc')) := Prod.ext hret heq
        rw [hr]
        exact addsVendor_setVendorClass hp hvendor hadds hold (fun _ _ _ => rfl)
          fun _ _ _ => rfl

/-- The agent is taken out of the slot of its OUI. -/
def RemovesSlot (req : RegReq) (agent : Nat) (vc vc' : VendorClass) : Prop :=
  vc'.Wf ∧ ∀ oui m b, m < ibMgmtMaxMethods →
    (vc'.agent oui m = some b ↔ vc.agent oui m = some b ∧ ¬(oui = req.oui ∧ b = agent))

/-- The agent is taken out of the vendor tables, and all other agents stay. -/
def RemovesVendor (p : PortVersions) (req : RegReq) (agent : Nat) (p' : PortVersions) : Prop :=
  p'.Wf ∧ (∀ v c m, p'.classAgent v c m = p.classAgent v c m) ∧
    ∀ v k oui m b, k < maxMgmtVendorRange2 → m < ibMgmtMaxMethods →
      (p'.vendorAgent v k oui m = some b ↔ p.vendorAgent v k oui m = some b ∧
        ¬(v = req.mgmtClassVersion ∧ k = vendorClassIndex req.mgmtClass ∧ oui = req.oui ∧
          b = agent))

theorem removesVendor_self (hp : p.Wf) (hnone : ∀ m,
    p.vendorAgent req.mgmtClassVersion (vendorClassIndex req.mgmtClass) req.oui m = none) :
    RemovesVendor p req agent p := by
  refine ⟨hp, fun _ _ _ => rfl, fun v k oui m b _ _ => (and_iff_left_of_imp ?_).symm⟩
  rintro hb ⟨rfl, rfl, rfl, -⟩
  rw [hnone m] at hb
  cases hb

theorem removesSlot_methods (agent : Nat) {vc : VendorClass} (hvc : vc.Wf)
    (hne : req.oui ≠ (0, 0, 0)) {i : Nat} (hi : findVendorOui vc req.oui = some i)
    {method : MethodTable} (hmt : vc.methodTable i = some method) :
    RemovesSlot req agent vc
      ⟨vc.oui, update vc.methodTable i (some (removeMethodsMadAgent method agent))⟩ := by
  obtain ⟨hwf, hagent⟩ :=
    VendorClass.setMethods_agent hvc hi (removeMethodsMadAgent method agent) hne
  have hmethod : ∀ m, vc.agent req.oui m = method m := by simp [VendorClass.agent, hi, hmt]
  refine ⟨hwf, fun oui m b _ => ?_⟩
  rw [hagent]
  by_cases ho : oui = req.oui
  · subst ho
    rw [if_pos rfl, removeMethods_apply, hmethod]
    simp
  · simp [ho]

theorem removesSlot_free (agent : Nat) {vc : VendorClass} (hvc : vc.Wf)
    (hne : req.oui ≠ (0, 0, 0)) {i : Nat} (hi : findVendorOui vc req.oui = some i)
    {method : MethodTable} (hmt : vc.methodTable i = some method)
    (hunused : checkMethodTable (removeMethodsMadAgent method agent) = false) :
    RemovesSlot req agent vc
      ⟨update vc.oui i (0, 0, 0), update vc.methodTable i none⟩ := by
  obtain ⟨hwf, hagent⟩ := VendorClass.freeSlot_agent hvc hi hne
  have hmethod : ∀ m, vc.agent req.oui m = method m := by simp [VendorClass.agent, hi, hmt]
  refine ⟨hwf, fun oui m b hm => ?_⟩
  rw [hagent]
  by_cases ho : oui = req.oui
  · subst ho
    -- whoever was left in the slot is the agent that goes
    have hleft := any_eq_false.mp hunused m (mem_range.mpr hm)
    rw [removeMethods_apply] at hleft
    rw [hmethod]
    constructor
    · exact fun h => absurd rfl h.1
    · rintro ⟨hb, hne⟩
      simp [hb, Option.filter] at hleft
      exact absurd ⟨rfl, hleft⟩ hne
  · simp [ho]

/-- A vendor class without the agent takes the place of the old one, or is freed. -/
theorem removesVendor_setVendorClass (hp : p.Wf)
    (hvendor : (p req.mgmtClassVersion).vendor = some vendor) {vc vc' : VendorClass}
    (hvc : vendor (vendorClassIndex req.mgmtClass) = some vc)
    (hremoves : RemovesSlot req agent vc vc') {new : Option VendorClass}
    (hwf : ∀ vc'', new = some vc'' → vc''.Wf)
    (hnew : ∀ oui m, (new.bind fun vc => vc.agent oui m) = vc'.agent oui m) :
    RemovesVendor p req agent
      (p.setVendorClass req.mgmtClassVersion (vendorClassIndex req.mgmtClass) new) := by
  refine ⟨hp.setVendorClass hvendor _ hwf, fun _ _ _ => classAgent_setVendorClass _ _,
    fun v k oui m b _ hm => ?_⟩
  rw [vendorAgent_setVendorClass hvendor]
  by_cases hvk : v = req.mgmtClassVersion ∧ k = vendorClassIndex req.mgmtClass
  · obtain ⟨rfl, rfl⟩ := id hvk
    have hold : p.vendorAgent req.mgmtClassVersion (vendorClassIndex req.mgmtClass) oui m =
        vc.agent oui m := by
      simp [vendorAgent, hvendor, hvc]
    rw [if_pos hvk, hnew, hremoves.2 oui m b hm, hold]
    simp
  · rw [if_neg hvk]
    refine (and_iff_left_of_imp fun _ h => hvk ⟨h.1, h.2.1⟩).symm

theorem agent_of_unused {vc : VendorClass} (h : checkVendorClass vc = false) (oui : Oui) (m : Nat) :
    vc.agent oui m = none := by
  unfold VendorClass.agent
  cases hfind : findVendorOui vc oui with
  | none => rfl
  | some i =>
    have hentry := any_eq_false.mp h i (mem_range.mpr (VendorClass.oui_of_find hfind).1)
    have hentry : vc.methodTable i = none := by simpa using hentry
    rw [Option.bind_some, hentry]
    rfl

/-- A vendor table whose last vendor class goes is freed. -/
theorem RemovesVendor.setVendor_none (hvendor : (p req.mgmtClassVersion).vendor = some vendor)
    (hp : p.Wf) (h : RemovesVendor p req agent
      (p.setVendorClass req.mgmtClassVersion (vendorClassIndex req.mgmtClass) none))
    (hunused : checkVendorTable
      (update vendor (vendorClassIndex req.mgmtClass) none) = false) :
    RemovesVendor p req agent (p.setVendor req.mgmtClassVersion none) := by
  refine ⟨fun v k vc hvc => ?_, fun _ _ _ => classAgent_setVendor _, fun v k oui m b hk hm => ?_⟩
  · unfold vendorClassAt at hvc
    rw [setVendor_vendor] at hvc
    by_cases hv : v = req.mgmtClassVersion
    · rw [if_pos hv] at hvc
      cases hvc
    · rw [if_neg hv] at hvc
      exact hp v k vc hvc
  · have hsame : (p.setVendor req.mgmtClassVersion none).vendorAgent v k oui m =
        (p.setVendorClass req.mgmtClassVersion (vendorClassIndex req.mgmtClass) none).vendorAgent
          v k oui m := by
      rw [setVendorClass, vendorAgent_setVendor, vendorAgent_setVendor]
      by_cases hv : v = req.mgmtClassVersion
      · have hentry := any_eq_false.mp hunused k (mem_range.mpr hk)
        have hentry : update vendor (vendorClassIndex req.mgmtClass) none k = none := by
          simpa using hentry
        rw [if_pos hv, if_pos hv, hvendor, Option.map_some, Option.bind_some, hentry]
        rfl
      · rw [if_neg hv, if_neg hv]
    rw [hsame]
    exact h.2.2 v k oui m b hk hm

theorem removeVendorMethods_removes (agent : Nat) (hp : p.Wf) (hne : req.oui ≠ (0, 0, 0)) :
    RemovesVendor p req agent (p.removeVendorMethods req agent) := by
  cases hvendor : (p req.mgmtClassVersion).vendor with
  | none =>
    simp only [removeVendorMethods, hvendor]
    exact removesVendor_self hp (by simp [vendorAgent, hvendor])
  | some vendor =>
    cases hvc : vendor (vendorClassIndex req.mgmtClass) with
    | none =>
      simp only [removeVendorMethods, hvendor, hvc]
      exact removesVendor_self hp (by simp [vendorAgent, hvendor, hvc])
    | some vc =>
      have hwf : vc.Wf := hp req.mgmtClassVersion (vendorClassIndex req.mgmtClass) vc
        (by simp [vendorClassAt, hvendor, hvc])
      have hold : ∀ oui m, p.vendorAgent req.mgmtClassVersion (vendorClassIndex req.mgmtClass)
          oui m = vc.agent oui m := by
        simp [vendorAgent, hvendor, hvc]
      cases hfind : findVendorOui vc req.oui with
      | none =>
        simp only [removeVendorMethods, hvendor, hvc, hfind]
        exact removesVendor_self hp fun m => by simp [hold, VendorClass.agent, hfind]
      | some i =>
        cases hmt : vc.methodTable i with
        | none =>
          simp only [removeVendorMethods, hvendor, hvc, hfind, hmt]
          exact removesVendor_self hp fun m => by simp [hold, VendorClass.agent, hfind, hmt]
        | some method =>
          simp only [removeVendorMethods, hvendor, hvc, hfind, hmt]
          by_cases hused : checkMethodTable (removeMethodsMadAgent method agent)
          · have hremoves := removesSlot_methods agent hwf hne hfind hmt
            rw [if_pos hused]
            exact removesVendor_setVendorClass hp hvendor hvc hremoves
              (fun _ h => Option.some.inj h ▸ hremoves.1) fun _ _ => rfl
          · rw [if_neg hused]
            have hremoves := removesSlot_free agent hwf hne hfind hmt
              (Bool.eq_false_iff.mpr hused)
            set vc' : VendorClass := ⟨update vc.oui i (0, 0, 0),
              update vc.methodTable i none⟩ with hvc'
            by_cases hclass : checkVendorClass vc'
            · rw [if_pos hclass]
              exact removesVendor_setVendorClass hp hvendor hvc hremoves
                (fun _ h => Option.some.inj h ▸ hremoves.1) fun _ _ => rfl
            · have hgone : ∀ oui m, (none.bind fun vc : VendorClass => vc.agent oui m) =
                  vc'.agent oui m := fun oui m =>
                (agent_of_unused (Bool.eq_false_iff.mpr hclass) oui m).symm
              have hfreed := removesVendor_setVendorClass hp hvendor hvc hremoves
                (fun _ h => by cases h) hgone
              rw [if_neg hclass]
              by_cases htable : checkVendorTable
                (update vendor (vendorClassIndex req.mgmtClass) none)
              · rw [if_pos htable]
                exact hfreed
              · rw [if_neg htable]
                exact hfreed.setVendor_none hvendor hp (Bool.eq_false_iff.mpr htable)

end PortVersions

end Mad
