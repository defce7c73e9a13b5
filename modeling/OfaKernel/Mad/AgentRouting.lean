-- SUMMARY: Registration and unregistration of MAD agents on a port.
import OfaKernel.Lib.RouteTable
import OfaKernel.Lib.Run
import OfaKernel.Mad.AgentTables

/-!
# Routing of MADs to agents

A port with its agents. Registration and unregistration hold `reg_lock`, so they take effect one
after another. An unsolicited MAD goes to the agent whose registration it matches.
-/

namespace Mad

/-! ## Registration -/

/-- `enum ib_qp_type`, as `get_spl_qp_index` tells them apart. -/
inductive QpType where
  | smi
  | gsi
  | other
deriving DecidableEq, Repr

def ibMgmtRmppVersion : Nat := 1

/-- What `ib_register_mad_agent` is given, and what the calls in it report. -/
structure RegArgs where
  qpType : QpType
  regReq : Option RegReq
  rmppVersion : Nat
  sendHandler : Bool
  recvHandler : Bool
  /-- `IB_MAD_USER_RMPP` is in `registration_flags`. -/
  userRmpp : Bool
  capIbSmi : Bool
  capIbCm : Bool
  /-- `ib_get_mad_port` finds the port. -/
  port : Bool
  qp : Bool
  /-- The agent can be allocated. -/
  allocAgent : Bool
  /-- The copy of the registration request can. -/
  allocReq : Bool
  /-- What `ib_mad_agent_security_setup` returns. -/
  security : Nat
  /-- An error of `idr_alloc_cyclic`. -/
  idr : Option Nat
  allocs : Allocs

/-- The registration request is valid. -/
def RegArgs.checkRegReq (args : RegArgs) (req : RegReq) : Bool :=
  req.mgmtClassVersion < maxMgmtVersion &&
  args.recvHandler &&
  (if maxMgmtClass ≤ req.mgmtClass then req.mgmtClass = subnDirectedRoute
    else if req.mgmtClass = 0 then false
    else if isVendorClass req.mgmtClass then isVendorOui req.oui
    else true) &&
  (ibIsMadClassRmpp req.mgmtClass || args.rmppVersion = 0) &&
  (if args.qpType = .smi then req.mgmtClass = subnLidRouted || req.mgmtClass = subnDirectedRoute
    else !(req.mgmtClass = subnLidRouted || req.mgmtClass = subnDirectedRoute))

/-- `ib_register_mad_agent`, until it takes `reg_lock`. -/
def RegArgs.check (args : RegArgs) : RegRet :=
  if args.qpType = .smi ∧ !args.capIbSmi ∨ args.qpType = .gsi ∧ !args.capIbCm then
    .eprotonosupport
  else if args.qpType = .other then .einval
  else if args.rmppVersion ≠ 0 ∧ args.rmppVersion ≠ ibMgmtRmppVersion then .einval
  else if !(match args.regReq with
      | some req => args.checkRegReq req
      | none => args.sendHandler && !args.userRmpp) then .einval
  else if !args.port then .enodev
  else if !args.qp then .eprotonosupport
  else if !args.allocAgent then .enomem
  else if args.regReq.isSome && !args.allocReq then .enomem
  else if args.security ≠ 0 then .err args.security
  else match args.idr with
    | some errno => .err errno
    | none => .ok

/-- The check that a registration does not overlap with an existing one. -/
def PortVersions.inUse (p : PortVersions) (req : RegReq) : Bool :=
  let mgmtClass := convertMgmtClass req.mgmtClass
  if !isVendorClass mgmtClass then
    match (p req.mgmtClassVersion).class_.bind (· mgmtClass) with
    | some method => methodInUse method req
    | none => false
  else
    match p.vendorClassAt req.mgmtClassVersion (vendorClassIndex mgmtClass) with
    | some vendorClass => isVendorMethodInUse vendorClass req
    | none => false

/-- `ib_register_mad_agent` under `reg_lock`, with a registration request. -/
def PortVersions.addRegReq (p : PortVersions) (req : RegReq) (agent : Nat) (allocs : Allocs) :
    RegRet × PortVersions :=
  let mgmtClass := convertMgmtClass req.mgmtClass
  if p.inUse req then (.einval, p)
  else if !isVendorClass mgmtClass then p.addNonouiRegReq req agent mgmtClass allocs
  else p.addOuiRegReq req agent allocs

/-- A port and its agents, each with its `reg_req`. -/
structure PortAgents where
  versions : PortVersions
  recvHandler : Nat → Bool
  agents : List (Nat × Option RegReq)

namespace PortAgents

variable (s : PortAgents)

/-- `ib_register_mad_agent` of the agent that is to be at `agent`. -/
def ibRegisterMadAgent (agent : Nat) (args : RegArgs) : RegRet × PortAgents :=
  let registered (versions : PortVersions) : PortAgents :=
    { versions := versions
      recvHandler := Function.update s.recvHandler agent args.recvHandler
      agents := (agent, args.regReq) :: s.agents }
  match args.check with
  | .ok =>
    match args.regReq with
    | none => (.ok, registered s.versions)
    | some req =>
      match s.versions.addRegReq req agent args.allocs with
      | (.ok, versions) => (.ok, registered versions)
      | (ret, versions) => (ret, { s with versions })
  | ret => (ret, s)

/-- `unregister_mad_agent`, with the `reg_req` of the agent. -/
def unregisterMadAgent (agent : Nat) : PortAgents :=
  { s with
    versions := s.versions.removeMadRegReq ((s.agents.lookup agent).join) agent
    agents := s.agents.filter (·.1 ≠ agent) }

/-- `find_mad_agent` on the port. -/
def find (byTid : Option Nat) (hdr : MadHdr) : Option Nat :=
  findMadAgent s.versions s.recvHandler byTid hdr

end PortAgents

/-- What the clients of a port do. -/
inductive AgentOp where
  | register (agent : Nat) (args : RegArgs)
  | unregister (agent : Nat)

namespace PortAgents

def step (s : PortAgents) : AgentOp → PortAgents
  | .register agent args => (s.ibRegisterMadAgent agent args).2
  | .unregister agent => s.unregisterMadAgent agent

/-- A new agent is not at the address of another, and only an agent is unregistered. -/
def Valid (s : PortAgents) : AgentOp → Prop
  | .register agent _ => agent ∉ s.agents.map Prod.fst
  | .unregister agent => agent ∈ s.agents.map Prod.fst

instance (s : PortAgents) : ∀ op, Decidable (s.Valid op)
  | .register _ _ => inferInstanceAs (Decidable (_ ∉ _))
  | .unregister _ => inferInstanceAs (Decidable (_ ∈ _))

/-- A port that has just been opened. -/
def start : PortAgents := ⟨fun _ => ⟨none, none⟩, fun _ => false, []⟩

end PortAgents

/-! ## What a registration covers -/

/-- What `ib_register_mad_agent` has checked of a registration request. -/
structure RegReq.Checked (req : RegReq) : Prop where
  version : req.mgmtClassVersion < maxMgmtVersion
  mgmtClass : convertMgmtClass req.mgmtClass < maxMgmtClass
  oui : isVendorClass req.mgmtClass → req.oui ≠ (0, 0, 0)

/-- The request is one for the class, class version, method and, in vendor range 2, OUI of the
MAD; directed routes take the place of class 0. -/
def RegReq.Matches (req : RegReq) (hdr : MadHdr) : Prop :=
  req.mgmtClassVersion = hdr.classVersion ∧
    convertMgmtClass req.mgmtClass = convertMgmtClass hdr.mgmtClass ∧
    (isVendorClass hdr.mgmtClass → req.oui = hdr.oui) ∧ req.methodMask.getLsbD hdr.method

/-- A place in the class tables: version, class and method. -/
abbrev ClassKey := Nat × Nat × Nat

/-- A place in the vendor tables: version, vendor class, OUI and method. -/
abbrev VendorKey := Nat × Nat × Oui × Nat

def RegReq.coversClass (req : RegReq) (key : ClassKey) : Prop :=
  isVendorClass req.mgmtClass = false ∧
    PortVersions.ClassRoutes req (convertMgmtClass req.mgmtClass) key.1 key.2.1 key.2.2

def RegReq.coversVendor (req : RegReq) (key : VendorKey) : Prop :=
  isVendorClass req.mgmtClass = true ∧
    PortVersions.VendorRoutes req key.1 key.2.1 key.2.2.1 key.2.2.2

def ClassKey.InTable (key : ClassKey) : Prop := key.2.1 < maxMgmtClass ∧ key.2.2 < ibMgmtMaxMethods

def VendorKey.InTable (key : VendorKey) : Prop :=
  key.2.1 < maxMgmtVendorRange2 ∧ key.2.2.2 < ibMgmtMaxMethods

theorem isVendorClass_convert (mgmtClass : Nat) :
    isVendorClass (convertMgmtClass mgmtClass) = isVendorClass mgmtClass := by
  unfold convertMgmtClass
  by_cases h : mgmtClass = subnDirectedRoute
  · rw [if_pos h, h]
    decide
  · rw [if_neg h]

theorem convert_of_vendor {mgmtClass : Nat} (h : isVendorClass mgmtClass) :
    convertMgmtClass mgmtClass = mgmtClass := by
  refine if_neg fun heq => ?_
  rw [heq] at h
  exact absurd h (by decide)

theorem RegArgs.checkRegReq_checked {args : RegArgs} {req : RegReq} (h : args.checkRegReq req) :
    req.Checked ∧ args.recvHandler := by
  simp only [checkRegReq, Bool.and_eq_true, decide_eq_true_eq] at h
  obtain ⟨⟨⟨⟨hversion, hrecv⟩, hclass⟩, -⟩, -⟩ := h
  refine ⟨⟨hversion, ?_, fun hvendor => ?_⟩, hrecv⟩
  · unfold convertMgmtClass
    by_cases hd : req.mgmtClass = subnDirectedRoute
    · rw [if_pos hd]
      decide
    · rw [if_neg hd]
      by_contra hlarge
      rw [if_pos (Nat.le_of_not_lt hlarge)] at hclass
      exact hd (by simpa using hclass)
  · have hrange : 0x30 ≤ req.mgmtClass ∧ req.mgmtClass ≤ 0x4F := by
      simpa [isVendorClass] using hvendor
    have hsmall : ¬maxMgmtClass ≤ req.mgmtClass := by
      unfold maxMgmtClass
      omega
    have hne : req.mgmtClass ≠ 0 := by omega
    rw [if_neg hsmall, if_neg hne, if_pos hvendor] at hclass
    simpa [isVendorOui] using hclass

theorem RegArgs.check_ok {args : RegArgs} (h : args.check = .ok) {req : RegReq}
    (hreq : args.regReq = some req) : args.checkRegReq req := by
  by_contra hnot
  unfold check at h
  rw [hreq] at h
  simp only [hnot] at h
  split at h
  · cases h
  split at h
  · cases h
  split at h
  · cases h
  simp at h

namespace PortVersions

variable {p : PortVersions} {req : RegReq} {agent : Nat}

theorem inUse_class (h : p.inUse req = false) (hclass : isVendorClass req.mgmtClass = false)
    {m : Nat} (hm : req.methodMask.getLsbD m) :
    p.classAgent req.mgmtClassVersion (convertMgmtClass req.mgmtClass) m = none := by
  simp only [inUse, isVendorClass_convert, hclass] at h
  unfold classAgent
  cases hmethod : (p req.mgmtClassVersion).class_.bind (· (convertMgmtClass req.mgmtClass)) with
  | none => rfl
  | some method =>
    simp only [hmethod] at h
    exact none_of_methodInUse h hm

theorem isVendorMethodInUse_agent {vc : VendorClass} (h : isVendorMethodInUse vc req = false)
    {m : Nat} (hm : req.methodMask.getLsbD m) : vc.agent req.oui m = none := by
  unfold VendorClass.agent
  cases hfind : findVendorOui vc req.oui with
  | none => rfl
  | some i =>
    cases hmethod : vc.methodTable i with
    | none => simp [hmethod]
    | some method =>
      -- the first slot with the OUI has a method table, so it is the one that is looked at
      have hused : ((List.range maxMgmtOui).find? fun i =>
          vc.oui i = req.oui ∧ (vc.methodTable i).isSome) = some i := by
        obtain ⟨hoi, l₁, l₂, hrange, hbefore⟩ := List.find?_eq_some_iff_append.mp hfind
        refine List.find?_eq_some_iff_append.mpr ⟨?_, l₁, l₂, hrange, fun j hj => ?_⟩
        · simpa [hmethod] using hoi
        · have hno : ¬vc.oui j = req.oui := by simpa using hbefore j hj
          simp [hno]
      simp only [isVendorMethodInUse, hused, Option.bind_some, hmethod] at h
      simp [hmethod, none_of_methodInUse h hm]

theorem inUse_vendor (h : p.inUse req = false) (hclass : isVendorClass req.mgmtClass)
    {m : Nat} (hm : req.methodMask.getLsbD m) :
    p.vendorAgent req.mgmtClassVersion (vendorClassIndex req.mgmtClass) req.oui m = none := by
  simp only [inUse, convert_of_vendor hclass, hclass] at h
  rw [vendorAgent_eq]
  cases hvc : p.vendorClassAt req.mgmtClassVersion (vendorClassIndex req.mgmtClass) with
  | none => rfl
  | some vc =>
    simp only [hvc] at h
    exact isVendorMethodInUse_agent h hm

end PortVersions

/-! ## The tables hold what is registered -/

namespace PortVersions

variable {p : PortVersions} {req : RegReq} {agent : Nat}

def atClass (p : PortVersions) (key : ClassKey) : Option Nat :=
  p.classAgent key.1 key.2.1 key.2.2

def atVendor (p : PortVersions) (key : VendorKey) : Option Nat :=
  p.vendorAgent key.1 key.2.1 key.2.2.1 key.2.2.2

/-- The tables hold the agents of a list of registrations, and nothing else. -/
structure Hold (p : PortVersions) (agents : List (Nat × Option RegReq)) : Prop where
  wf : p.Wf
  class_ : RouteTable.Tabulates ClassKey.InTable RegReq.coversClass agents p.atClass
  vendor : RouteTable.Tabulates VendorKey.InTable RegReq.coversVendor agents p.atVendor

variable {agents : List (Nat × Option RegReq)}

theorem hold_nil : Hold (fun _ => ⟨none, none⟩) [] :=
  ⟨fun _ _ _ h => (Option.some_ne_none _ h.symm).elim, RouteTable.tabulates_nil fun _ => rfl,
    RouteTable.tabulates_nil fun _ => rfl⟩

/-- An agent without a registration request. -/
theorem Hold.skip (h : p.Hold agents) : p.Hold ((agent, none) :: agents) :=
  ⟨h.wf, h.class_.skip (fun _ hr => by cases hr) fun _ _ => rfl,
    h.vendor.skip (fun _ hr => by cases hr) fun _ _ => rfl⟩

theorem Hold.addClass (h : p.Hold agents) (hclass : isVendorClass req.mgmtClass = false)
    (hunused : p.inUse req = false) {r : RegRet × PortVersions}
    (hadds : AddsClass p req agent (convertMgmtClass req.mgmtClass) r) (hok : r.1 = .ok) :
    r.2.Hold ((agent, some req) :: agents) := by
  rcases hadds with ⟨hfail, -⟩ | ⟨-, hvendor, hagents⟩
  · exact absurd hok hfail
  have hat : ∀ v k, r.2.vendorClassAt v k = p.vendorClassAt v k := fun v k => by
    unfold vendorClassAt
    rw [hvendor]
  refine ⟨fun v k vc hvc => h.wf v k vc (hat v k ▸ hvc), h.class_.add ?_ ?_, h.vendor.skip ?_ ?_⟩
  · rintro ⟨v, c, m⟩ ⟨-, rfl, rfl, hm⟩
    exact inUse_class hunused hclass hm
  · rintro ⟨v, c, m⟩ a -
    show r.2.classAgent v c m = some a ↔ _
    rw [hagents]
    by_cases hroute : ClassRoutes req (convertMgmtClass req.mgmtClass) v c m
    · simp [RegReq.coversClass, hclass, hroute]
    · simp [RegReq.coversClass, hroute, atClass]
  · rintro _ ⟨⟩ key - ⟨hcov, -⟩
    rw [hclass] at hcov
    cases hcov
  · intro key _
    show r.2.vendorAgent _ _ _ _ = p.vendorAgent _ _ _ _
    rw [vendorAgent_eq, hat]
    rfl

theorem Hold.addVendor (h : p.Hold agents) (hclass : isVendorClass req.mgmtClass)
    (hunused : p.inUse req = false) {r : RegRet × PortVersions}
    (hadds : AddsVendor p req agent r) (hok : r.1 = .ok) :
    r.2.Hold ((agent, some req) :: agents) := by
  rcases hadds with ⟨hfail, -⟩ | ⟨-, hwf, hsame, hagents⟩
  · exact absurd hok hfail
  refine ⟨hwf, h.class_.skip ?_ fun key _ => hsame _ _ _, h.vendor.add ?_ ?_⟩
  · rintro _ ⟨⟩ key - ⟨hcov, -⟩
    rw [hclass] at hcov
    cases hcov
  · rintro ⟨v, k, oui, m⟩ ⟨-, rfl, rfl, rfl, hm⟩
    exact inUse_vendor hunused hclass hm
  · rintro ⟨v, k, oui, m⟩ a -
    show r.2.vendorAgent v k oui m = some a ↔ _
    rw [hagents]
    by_cases hroute : VendorRoutes req v k oui m
    · simp [RegReq.coversVendor, hclass, hroute]
    · simp [RegReq.coversVendor, hroute, atVendor]

/-- A registration fails and changes nothing, or is entered in the tables. -/
theorem Hold.addRegReq (h : p.Hold agents) (hreq : req.Checked) (agent : Nat) (allocs : Allocs) :
    (p.addRegReq req agent allocs).1 ≠ .ok ∧ (p.addRegReq req agent allocs).2 = p ∨
      (p.addRegReq req agent allocs).1 = .ok ∧
        (p.addRegReq req agent allocs).2.Hold ((agent, some req) :: agents) := by
  by_cases hunused : p.inUse req
  · simp [PortVersions.addRegReq, hunused]
  have hunused : p.inUse req = false := Bool.eq_false_iff.mpr hunused
  cases hclass : isVendorClass req.mgmtClass with
  | false =>
    have heq : p.addRegReq req agent allocs =
        p.addNonouiRegReq req agent (convertMgmtClass req.mgmtClass) allocs := by
      simp [PortVersions.addRegReq, hunused, isVendorClass_convert, hclass]
    have hadds := addNonouiRegReq_adds p req agent (convertMgmtClass req.mgmtClass) allocs
      fun m hm => inUse_class hunused hclass hm
    rw [heq]
    rcases id hadds with hfail | ⟨hok, -⟩
    · exact .inl hfail
    · exact .inr ⟨hok, h.addClass hclass hunused hadds hok⟩
  | true =>
    have heq : p.addRegReq req agent allocs = p.addOuiRegReq req agent allocs := by
      simp [PortVersions.addRegReq, hunused, isVendorClass_convert, hclass]
    have hadds : AddsVendor p req agent (p.addOuiRegReq req agent allocs) :=
      addOuiRegReq_adds h.wf (hreq.oui hclass) allocs fun m hm => inUse_vendor hunused hclass hm
    rw [heq]
    rcases id hadds with hfail | ⟨hok, -⟩
    · exact .inl hfail
    · exact .inr ⟨hok, h.addVendor hclass hunused hadds hok⟩

theorem removeClassMethods_vendorAgent (v k : Nat) (oui : Oui) (m : Nat) :
    (p.removeClassMethods req agent).vendorAgent v k oui m = p.vendorAgent v k oui m := by
  unfold vendorAgent
  rw [removeClassMethods_vendor]

theorem Wf.removeClassMethods (h : p.Wf) (req : RegReq) (agent : Nat) :
    (p.removeClassMethods req agent).Wf := by
  intro v k vc hvc
  unfold vendorClassAt at hvc
  rw [removeClassMethods_vendor] at hvc
  exact h v k vc hvc

theorem removeClassMethods_eq_some {key : ClassKey} (hkey : key.InTable) (a : Nat) :
    (p.removeClassMethods req agent).atClass key = some a ↔ p.atClass key = some a ∧
      ¬((key.1 = req.mgmtClassVersion ∧ key.2.1 = convertMgmtClass req.mgmtClass) ∧
        a = agent) := by
  show (p.removeClassMethods req agent).classAgent _ _ _ = _ ↔ _
  rw [removeClassMethods_classAgent p req agent hkey.1 hkey.2]
  by_cases hroute : key.1 = req.mgmtClassVersion ∧ key.2.1 = convertMgmtClass req.mgmtClass
  all_goals simp [hroute, atClass]

/-- An unregistration takes the agent out of the tables. -/
theorem Hold.removeMadRegReq (h : p.Hold agents) (hnodup : (agents.map Prod.fst).Nodup)
    {regReq : Option RegReq} (hmem : (agent, regReq) ∈ agents)
    (hreq : ∀ req, regReq = some req → req.Checked) :
    (p.removeMadRegReq regReq agent).Hold (agents.filter (·.1 ≠ agent)) := by
  cases regReq with
  | none =>
    refine ⟨h.wf, ?_, ?_⟩
    · exact h.class_.remove hnodup hmem (fun _ => False) (fun _ hr => by cases hr)
        fun _ _ _ => by simp [PortVersions.removeMadRegReq]
    · exact h.vendor.remove hnodup hmem (fun _ => False) (fun _ hr => by cases hr)
        fun _ _ _ => by simp [PortVersions.removeMadRegReq]
  | some req =>
    have hclassGone : ∀ r', some req = some r' → ∀ key : ClassKey, key.InTable →
        r'.coversClass key →
        key.1 = req.mgmtClassVersion ∧ key.2.1 = convertMgmtClass req.mgmtClass := by
      rintro _ ⟨⟩ key - ⟨-, hv, hc, -⟩
      exact ⟨hv, hc⟩
    have hclassTable := h.class_.remove hnodup hmem _ hclassGone
      fun key a hkey => removeClassMethods_eq_some hkey a
    cases hvendor : isVendorClass req.mgmtClass with
    | false =>
      have heq : p.removeMadRegReq (some req) agent = p.removeClassMethods req agent := by
        simp [PortVersions.removeMadRegReq, isVendorClass_convert, hvendor]
      rw [heq]
      refine ⟨h.wf.removeClassMethods req agent, hclassTable, ?_⟩
      refine h.vendor.remove hnodup hmem (fun _ => False) ?_ fun key a _ => ?_
      · rintro _ ⟨⟩ key - ⟨hcov, -⟩
        rw [hvendor] at hcov
        cases hcov
      · show (p.removeClassMethods req agent).vendorAgent _ _ _ _ = _ ↔ _
        rw [removeClassMethods_vendorAgent]
        simp [atVendor]
    | true =>
      have heq : p.removeMadRegReq (some req) agent =
          (p.removeClassMethods req agent).removeVendorMethods req agent := by
        simp [PortVersions.removeMadRegReq, isVendorClass_convert, hvendor]
      obtain ⟨hwf, hsame, hagents⟩ := removeVendorMethods_removes agent
        (h.wf.removeClassMethods req agent) ((hreq req rfl).oui hvendor)
      rw [heq]
      refine ⟨hwf, fun key a hkey => ?_, ?_⟩
      · show PortVersions.classAgent _ _ _ _ = _ ↔ _
        rw [hsame]
        exact hclassTable key a hkey
      · refine h.vendor.remove hnodup hmem (fun key =>
          key.1 = req.mgmtClassVersion ∧ key.2.1 = vendorClassIndex req.mgmtClass ∧
            key.2.2.1 = req.oui) ?_ fun key a hkey => ?_
        · rintro _ ⟨⟩ key - ⟨-, hv, hk, hoi, -⟩
          exact ⟨hv, hk, hoi⟩
        · show PortVersions.vendorAgent _ _ _ _ _ = _ ↔ _
          rw [hagents _ _ _ _ _ hkey.1 hkey.2, removeClassMethods_vendorAgent]
          simp [atVendor]

end PortVersions

/-! ## Unsolicited MADs -/

theorem method_of_request {hdr : MadHdr} (h : ibResponseMad hdr = false) :
    hdr.method &&& 0x7F = hdr.method ∧ hdr.method < ibMgmtMaxMethods := by
  have hbit : hdr.method.testBit 7 = false := by
    have h' := h
    simp only [ibResponseMad, Bool.or_eq_false_iff] at h'
    exact h'.1.1
  have hlt : hdr.method < 2 ^ 7 := by
    refine Nat.lt_pow_two_of_testBit _ fun i hi => ?_
    rcases Nat.eq_or_lt_of_le hi with rfl | hi
    · exact hbit
    · exact Nat.testBit_lt_two_pow
        (Nat.lt_of_lt_of_le hdr.method_lt (Nat.pow_le_pow_right (by decide) hi))
  refine ⟨?_, hlt⟩
  rw [show 0x7F = 2 ^ 7 - 1 from rfl, Nat.and_two_pow_sub_one_eq_mod, Nat.mod_eq_of_lt hlt]

namespace RegReq

variable {req : RegReq} {hdr : MadHdr}

theorem vendor_of_matches (h : req.Matches hdr) :
    isVendorClass req.mgmtClass = isVendorClass hdr.mgmtClass := by
  rw [← isVendorClass_convert, h.2.1, isVendorClass_convert]

/-- Outside vendor range 2 a MAD is looked up where its registration is entered. -/
theorem matches_iff_coversClass (hvendor : isVendorClass hdr.mgmtClass = false) :
    req.Matches hdr ↔
      req.coversClass (hdr.classVersion, convertMgmtClass hdr.mgmtClass, hdr.method) := by
  constructor
  · intro h
    exact ⟨(vendor_of_matches h).trans hvendor, h.1.symm, h.2.1.symm, h.2.2.2⟩
  · rintro ⟨-, hversion, hclass, hmethod⟩
    refine ⟨hversion.symm, hclass.symm, fun hv => ?_, hmethod⟩
    rw [hvendor] at hv
    cases hv

theorem vendorClassIndex_inj {c d : Nat} (hc : isVendorClass c) (hd : isVendorClass d)
    (h : vendorClassIndex c = vendorClassIndex d) : c = d := by
  simp only [isVendorClass, decide_eq_true_eq] at hc hd
  unfold vendorClassIndex at h
  omega

theorem matches_iff_coversVendor (hvendor : isVendorClass hdr.mgmtClass) :
    req.Matches hdr ↔ req.coversVendor
      (hdr.classVersion, vendorClassIndex hdr.mgmtClass, hdr.oui, hdr.method) := by
  constructor
  · intro h
    have hreq := (vendor_of_matches h).trans hvendor
    have hclass : req.mgmtClass = hdr.mgmtClass := by
      have hconv := h.2.1
      rwa [convert_of_vendor hreq, convert_of_vendor hvendor] at hconv
    exact ⟨hreq, h.1.symm, by rw [hclass], (h.2.2.1 hvendor).symm, h.2.2.2⟩
  · rintro ⟨hreq, hversion, hindex, hoi, hmethod⟩
    refine ⟨hversion.symm, ?_, fun _ => hoi.symm, hmethod⟩
    rw [vendorClassIndex_inj hreq hvendor hindex.symm]

end RegReq

namespace PortAgents

variable {s : PortAgents} {agent : Nat}

/-- The agent is registered for the MAD. -/
def Registered (s : PortAgents) (agent : Nat) (hdr : MadHdr) : Prop :=
  ∃ req, (agent, some req) ∈ s.agents ∧ req.Matches hdr

structure Inv (s : PortAgents) : Prop where
  hold : s.versions.Hold s.agents
  nodup : (s.agents.map Prod.fst).Nodup
  checked : ∀ a req, (a, some req) ∈ s.agents → req.Checked ∧ s.recvHandler a

theorem inv_start : start.Inv := ⟨PortVersions.hold_nil, List.nodup_nil, by simp [start]⟩

/-- A new agent joins those registered before. -/
theorem Inv.insert (h : s.Inv) (hnew : agent ∉ s.agents.map Prod.fst) (args : RegArgs)
    (versions : PortVersions) (hhold : versions.Hold ((agent, args.regReq) :: s.agents))
    (hargs : ∀ req, args.regReq = some req → req.Checked ∧ args.recvHandler) :
    Inv ⟨versions, Function.update s.recvHandler agent args.recvHandler,
      (agent, args.regReq) :: s.agents⟩ := by
  refine ⟨hhold, List.nodup_cons.mpr ⟨hnew, h.nodup⟩, fun a req hmem => ?_⟩
  rcases List.mem_cons.mp hmem with heq | hold
  · obtain ⟨rfl, hreq⟩ := Prod.mk.inj heq
    obtain ⟨hchecked, hrecv⟩ := hargs req hreq.symm
    exact ⟨hchecked, by simpa using hrecv⟩
  · have hne : a ≠ agent := fun heq =>
      hnew (heq ▸ List.mem_map.mpr ⟨(a, some req), hold, rfl⟩)
    obtain ⟨hchecked, hrecv⟩ := h.checked a req hold
    exact ⟨hchecked, by simpa [hne] using hrecv⟩

/-- A registration fails and changes nothing, or the agent has joined the others. -/
theorem Inv.register (h : s.Inv) (hnew : agent ∉ s.agents.map Prod.fst) (args : RegArgs) :
    (s.ibRegisterMadAgent agent args).1 ≠ .ok ∧ (s.ibRegisterMadAgent agent args).2 = s ∨
      (s.ibRegisterMadAgent agent args).1 = .ok ∧ (s.ibRegisterMadAgent agent args).2.Inv := by
  by_cases hcheck : args.check = .ok
  · cases hreq : args.regReq with
    | none =>
      right
      simp only [ibRegisterMadAgent, hcheck, hreq]
      have hinsert := h.insert hnew args s.versions (hreq ▸ h.hold.skip)
        fun req hsome => by rw [hreq] at hsome; cases hsome
      rw [hreq] at hinsert
      exact ⟨trivial, hinsert⟩
    | some req =>
      have hreqs := RegArgs.checkRegReq_checked (RegArgs.check_ok hcheck hreq)
      simp only [ibRegisterMadAgent, hcheck, hreq]
      have hadd := h.hold.addRegReq hreqs.1 agent args.allocs
      generalize s.versions.addRegReq req agent args.allocs = r at hadd
      obtain ⟨ret, versions⟩ := r
      rcases hadd with ⟨hret, rfl⟩ | ⟨rfl, hhold⟩
      · left
        cases ret with
        | ok => exact absurd rfl hret
        | einval => exact ⟨hret, rfl⟩
        | enomem => exact ⟨hret, rfl⟩
        | enodev => exact ⟨hret, rfl⟩
        | eprotonosupport => exact ⟨hret, rfl⟩
        | err errno => exact ⟨hret, rfl⟩
      · right
        have hinsert := h.insert hnew args versions (hreq ▸ hhold)
          fun req' hsome => Option.some.inj (hreq.symm.trans hsome) ▸ hreqs
        rw [hreq] at hinsert
        exact ⟨rfl, hinsert⟩
  · left
    unfold ibRegisterMadAgent
    cases hret : args.check with
    | ok => exact absurd hret hcheck
    | einval => exact ⟨by simp, rfl⟩
    | enomem => exact ⟨by simp, rfl⟩
    | enodev => exact ⟨by simp, rfl⟩
    | eprotonosupport => exact ⟨by simp, rfl⟩
    | err errno => exact ⟨by simp, rfl⟩

theorem Inv.unregister (h : s.Inv) (hmem : agent ∈ s.agents.map Prod.fst) :
    (s.unregisterMadAgent agent).Inv := by
  obtain ⟨⟨_, regReq⟩, hentry, rfl⟩ := List.mem_map.mp hmem
  refine ⟨?_, h.nodup.sublist (List.filter_sublist.map _), fun a req hreq =>
    h.checked a req (List.mem_filter.mp hreq).1⟩
  show PortVersions.Hold (s.versions.removeMadRegReq _ _) _
  rw [RouteTable.lookup_eq_some h.nodup hentry, Option.join_some]
  exact h.hold.removeMadRegReq h.nodup hentry fun req hreq => (h.checked _ req (hreq ▸ hentry)).1

/-- An unsolicited MAD goes to the agent that is registered for it. -/
theorem Inv.find_iff (h : s.Inv) {hdr : MadHdr} (hreq : ibResponseMad hdr = false)
    (byTid : Option Nat) : s.find byTid hdr = some agent ↔ s.Registered agent hdr := by
  obtain ⟨hmask, hmethod⟩ := method_of_request hreq
  unfold find findMadAgent
  rw [hreq, hmask]
  by_cases hversion : maxMgmtVersion ≤ hdr.classVersion
  · rw [if_pos hversion]
    constructor
    · rintro ⟨⟩
    · rintro ⟨req, hmem, hmatch⟩
      have hchecked := (h.checked agent req hmem).1.version
      rw [hmatch.1] at hchecked
      exact absurd hversion (Nat.not_le_of_lt hchecked)
  rw [if_neg hversion]
  cases hvendor : isVendorClass hdr.mgmtClass with
  | false =>
    by_cases hclass : maxMgmtClass ≤ convertMgmtClass hdr.mgmtClass
    · rw [if_pos hclass]
      constructor
      · rintro ⟨⟩
      · rintro ⟨req, hmem, hmatch⟩
        have hchecked := (h.checked agent req hmem).1.mgmtClass
        rw [hmatch.2.1] at hchecked
        exact absurd hclass (Nat.not_le_of_lt hchecked)
    rw [if_neg hclass, Option.filter_eq_some_iff]
    have htable := h.hold.class_
      (hdr.classVersion, convertMgmtClass hdr.mgmtClass, hdr.method) agent
      ⟨Nat.lt_of_not_le hclass, hmethod⟩
    constructor
    · rintro ⟨hfound, -⟩
      obtain ⟨req, hmem, hcov⟩ := htable.mp hfound
      exact ⟨req, hmem, (RegReq.matches_iff_coversClass hvendor).mpr hcov⟩
    · rintro ⟨req, hmem, hmatch⟩
      exact ⟨htable.mpr ⟨req, hmem, (RegReq.matches_iff_coversClass hvendor).mp hmatch⟩,
        (h.checked agent req hmem).2⟩
  | true =>
    rw [Option.filter_eq_some_iff]
    have hrange : vendorClassIndex hdr.mgmtClass < maxMgmtVendorRange2 := by
      simp only [isVendorClass, decide_eq_true_eq] at hvendor
      unfold vendorClassIndex maxMgmtVendorRange2
      omega
    have htable := h.hold.vendor
      (hdr.classVersion, vendorClassIndex hdr.mgmtClass, hdr.oui, hdr.method) agent
      ⟨hrange, hmethod⟩
    constructor
    · rintro ⟨hfound, -⟩
      obtain ⟨req, hmem, hcov⟩ := htable.mp hfound
      exact ⟨req, hmem, (RegReq.matches_iff_coversVendor hvendor).mpr hcov⟩
    · rintro ⟨req, hmem, hmatch⟩
      exact ⟨htable.mpr ⟨req, hmem, (RegReq.matches_iff_coversVendor hvendor).mp hmatch⟩,
        (h.checked agent req hmem).2⟩

/-- A registration that fails changes no routing, and when an agent goes, nothing changes for the
others. -/
def Isolated (s : PortAgents) : AgentOp → Prop
  | .register agent args => (s.ibRegisterMadAgent agent args).1 ≠ .ok →
      ∀ byTid hdr, (s.ibRegisterMadAgent agent args).2.find byTid hdr = s.find byTid hdr
  | .unregister agent => ∀ byTid hdr, ibResponseMad hdr = false → ∀ other ≠ agent,
      ((s.unregisterMadAgent agent).find byTid hdr = some other ↔ s.find byTid hdr = some other)

theorem Inv.step (h : s.Inv) {op : AgentOp} (hop : s.Valid op) : (s.step op).Inv := by
  cases op with
  | register agent args =>
    rcases h.register hop args with ⟨-, heq⟩ | ⟨-, hinv⟩
    · show Inv (s.ibRegisterMadAgent agent args).2
      rw [heq]
      exact h
    · exact hinv
  | unregister agent => exact h.unregister hop

theorem Inv.isolated (h : s.Inv) {op : AgentOp} (hop : s.Valid op) : s.Isolated op := by
  cases op with
  | register agent args =>
    intro hfail byTid hdr
    rcases h.register hop args with ⟨-, heq⟩ | ⟨hok, -⟩
    · rw [heq]
    · exact absurd hok hfail
  | unregister agent =>
    intro byTid hdr hreq other hne
    rw [(h.unregister hop).find_iff hreq, h.find_iff hreq]
    constructor
    · rintro ⟨req, hmem, hmatch⟩
      exact ⟨req, (List.mem_filter.mp hmem).1, hmatch⟩
    · rintro ⟨req, hmem, hmatch⟩
      exact ⟨req, List.mem_filter.mpr ⟨hmem, by simpa using hne⟩, hmatch⟩

/-- In every state of every run an unsolicited MAD is routed to an agent exactly if the agent is
registered for it, and the steps of the run are isolated. -/
theorem routed_every_run {ops : List AgentOp} (hops : Run.Steps step Valid start ops) :
    (∀ s ∈ Run.states step start ops, ∀ hdr, ibResponseMad hdr = false → ∀ byTid agent,
      s.find byTid hdr = some agent ↔ s.Registered agent hdr) ∧
    Run.Steps step Isolated start ops := by
  have hstep : ∀ s op, Inv s → s.Valid op → (s.step op).Inv := fun _ _ h hop => h.step hop
  constructor
  · intro s hs hdr hreq byTid agent
    exact (hops.invariant hstep inv_start s hs).find_iff hreq byTid
  · exact hops.each hstep (fun _ _ h hop => h.isolated hop) inv_start

/-- An agent for directed routes on QP0, and two for vendor class 0x32 with one OUI. -/
def exampleRun : List AgentOp :=
  let args : RegArgs :=
    { qpType := .smi
      regReq := some ⟨0x81, 1, (0, 0, 0), 6⟩
      rmppVersion := 0
      sendHandler := true
      recvHandler := true
      userRmpp := false
      capIbSmi := true
      capIbCm := true
      port := true
      qp := true
      allocAgent := true
      allocReq := true
      security := 0
      idr := none
      allocs := ⟨true, true, true⟩ }
  [.register 7 args,
    .register 8 { args with qpType := .gsi, regReq := some ⟨0x32, 1, (0, 2, 0xC9), 2⟩ },
    .register 9 { args with qpType := .gsi, regReq := some ⟨0x32, 1, (0, 2, 0xC9), 4⟩ },
    .register 10 { args with qpType := .gsi, regReq := some ⟨0x32, 1, (0, 2, 0xC9), 6⟩ },
    .unregister 8]

theorem routed_example :
    (∀ s ∈ Run.states step start exampleRun, ∀ hdr, ibResponseMad hdr = false →
      ∀ byTid agent, s.find byTid hdr = some agent ↔ s.Registered agent hdr) ∧
    Run.Steps step Isolated start exampleRun :=
  routed_every_run (by decide +kernel)

/-- A MAD of class 0 is routed to the agent for class 0x81, the only one that is registered. -/
theorem class_zero_is_routed :
    let s := Run.final step start (exampleRun.take 1)
    let hdr : MadHdr := ⟨0, 1, 1, false, (0, 0, 0), by decide⟩
    Run.Steps step Valid start (exampleRun.take 1) ∧ ibResponseMad hdr = false ∧
      s.find none hdr = some 7 ∧
      ¬∃ req, (7, some req) ∈ s.agents ∧ req.mgmtClass = hdr.mgmtClass := by
  refine ⟨by decide +kernel, by decide, by decide +kernel, ?_⟩
  rintro ⟨req, hmem, hclass⟩
  have heq := Prod.mk.inj (List.mem_singleton.mp hmem)
  rw [Option.some.inj heq.2] at hclass
  exact absurd hclass (by decide)

end PortAgents

end Mad
