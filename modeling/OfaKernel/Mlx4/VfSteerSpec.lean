-- SUMMARY: The check of a virtual function's flow-steering rule.
import OfaKernel.Lib.BigEndian
import OfaKernel.Lib.CInt

/-!
# Steering rules of a virtual function

The in-box is a memory: a control segment of 16 bytes, then the headers of the rule. A rule
without an Ethernet header gets one, for which the headers are moved up. The host is
little-endian. `steer_confined_iff` says for which in-boxes the rule that goes to the device is
confined to the function.
-/

namespace Mlx4

open BigEndian

inductive NetTransRuleId where
  | eth
  | ib
  | ipv6
  | ipv4
  | tcp
  | udp
  | vxlan
deriving DecidableEq, Repr

def swIdHw : NetTransRuleId → Nat
  | .eth => 0xe001
  | .ib => 0xe005
  | .ipv6 => 0xe003
  | .ipv4 => 0xe002
  | .tcp => 0xe004
  | .udp => 0xe006
  | .vxlan => 0xe008

/-- `map_hw_to_sw_id`; `none` stands for `-EINVAL`. -/
def mapHwToSwId (headerId : Nat) : Option NetTransRuleId :=
  [.eth, .ib, .ipv6, .ipv4, .tcp, .udp, .vxlan].find? fun id => swIdHw id = headerId

/-- `enum mlx4_net_trans_promisc_mode`. -/
inductive PromiscMode where
  | regular
  | allDefault
  | mcDefault
  | mirrorRxPort
  | mirrorSxPort
  | ucSniffer
  | mcSniffer
deriving DecidableEq, Repr

/-- `mlx4_map_sw_to_hw_steering_mode`, that is `__promisc_mode[mode]`. -/
def mapSwToHwSteeringMode : PromiscMode → Nat
  | .regular => 0
  | .allDefault => 1
  | .mcDefault => 3
  | .mirrorRxPort => 4
  | .mirrorSxPort => 5
  | .ucSniffer => 6
  | .mcSniffer => 7

/-- `mlx4_map_hw_to_sw_steering_mode`. The loop also looks at the byte behind the table; a match
there gives 8, which is no mode either. -/
def mapHwToSwSteeringMode (flowType : Nat) : Option PromiscMode :=
  [.regular, .allDefault, .mcDefault, .mirrorRxPort, .mirrorSxPort, .ucSniffer, .mcSniffer].find?
    fun mode => mapSwToHwSteeringMode mode = flowType

/-- What the check reads of `struct mlx4_vport_state`. -/
structure SteerPolicy where
  vgtPolicy : Bool
  vlanSet : List Nat

structure MacRes where
  mac : Nat
  port : Nat

/-- What the check reads of the device: its own function, the operational state of
the virtual ports, and the MACs registered to each function. -/
structure SteerDev where
  function : Nat
  vfOper : Nat → Nat → SteerPolicy
  resMac : Nat → List MacRes

/-- An attach command: the in-box, `vhcr->in_modifier` and `chain_rule`. -/
structure AttachCmd where
  inbox : Mem
  inModifier : Nat
  chainRule : Bool

/-! ## Fields

`mlx4_net_trans_rule_hw_ctrl` has `prio` at 0, `type` at 2 and `port` at 7. The first
header starts at 16, and so the fields of `mlx4_net_trans_rule_hw_eth` are at: -/

def ruleHeader : Nat := 16
def headerIdAt : Nat := 18
def dstMacAt : Nat := 26
def dstMacMskAt : Nat := 34
def vlanTagMskAt : Nat := 60
def vlanTagAt : Nat := 62

/-- `sizeof(struct mlx4_net_trans_rule_hw_eth)`. -/
def ethSize : Nat := 48

/-- `sizeof` of `mlx4_net_trans_rule_hw_ipv4` and of `mlx4_net_trans_rule_hw_tcp_udp`. -/
def ipv4Size : Nat := 24
def tcpUdpSize : Nat := 24

def domainNic : Nat := 0x5000

/-- `mac_msk` as a number: the bytes of a full mask. -/
def macMsk : Nat := 2 ^ 48 - 1

/-- A 16-bit number stored without `cpu_to_be16`. -/
def swab16 (v : Nat) : Nat := v % 2 ^ 8 * 2 ^ 8 + v / 2 ^ 8

def isMulticastEtherAddr (m : Mem) (addr : Nat) : Prop := (m addr).getLsbD 0 = true

def isBroadcastEtherAddr (m : Mem) (addr : Nat) : Prop := read m addr 6 = 2 ^ 48 - 1

instance (m : Mem) (addr : Nat) : Decidable (isMulticastEtherAddr m addr) :=
  inferInstanceAs (Decidable (_ = _))

instance (m : Mem) (addr : Nat) : Decidable (isBroadcastEtherAddr m addr) :=
  inferInstanceAs (Decidable (_ = _))

/-- The first six bytes of `cpu_to_be64(mac << 16)`. -/
def beMac (mac : Nat) : Nat := (mac <<< 16 % 2 ^ 64) >>> 16

/-- The destination of the first header is a group address under a full mask. -/
def PolicyExempt (m : Mem) : Prop :=
  read m dstMacMskAt 6 = macMsk ∧
    (isMulticastEtherAddr m dstMacAt ∨ isBroadcastEtherAddr m dstMacAt)

instance (m : Mem) : Decidable (PolicyExempt m) := inferInstanceAs (Decidable (_ ∧ _))

/-- `validate_vlan_policy`: the in-box and `chain_rule` after it. -/
def validateVlanPolicy (st : SteerPolicy) (m : Mem) (chainRule : Bool) : Except Int (Mem × Bool) :=
  if st.vgtPolicy = false then .ok (m, chainRule)
  else if PolicyExempt m then .ok (m, chainRule)
  else if read m vlanTagAt 2 ∈ st.vlanSet then
    if read m vlanTagMskAt 2 = 0 then .ok (write m vlanTagMskAt 2 0xfff, true) else .ok
      (m, chainRule)
  else if read m vlanTagMskAt 2 = 0 ∧ read m 0 2 = domainNic then
    .ok (write (write m vlanTagAt 2 (swab16 4095)) vlanTagMskAt 2 0xfff, chainRule)
  else .error (-1)

def validateEthHeaderMac (m : Mem) (rlist : List MacRes) : Bool :=
  isMulticastEtherAddr m dstMacAt ∨ isBroadcastEtherAddr m dstMacAt ∨
    rlist.any fun res => beMac res.mac = read m dstMacAt 6

/-- How many bytes `add_eth_header` moves up. -/
def movedSize : NetTransRuleId → Option Nat
  | .ipv4 => some (ipv4Size + tcpUdpSize)
  | .tcp => some tcpUdpSize
  | .udp => some tcpUdpSize
  | _ => none

/-- The address `add_eth_header` takes: the first one of the port, or 0. -/
def portMac (rlist : List MacRes) (port : Nat) : Nat :=
  ((rlist.find? fun res => port = res.port).map fun res => beMac res.mac).getD 0

def writeEthHeader (m : Mem) (mac : Nat) : Mem :=
  let m := clear m ruleHeader ethSize
  let m := write m ruleHeader 1 (ethSize >>> 2)
  let m := write m headerIdAt 2 (swIdHw .eth)
  let m := write m dstMacAt 6 mac
  write m dstMacMskAt 6 macMsk

def addEthHeader (st : SteerPolicy) (m : Mem) (rlist : List MacRes) (headerId : NetTransRuleId)
    (chainRule : Bool) : Except Int (Mem × Bool) :=
  let port := (m 7).toNat
  match validateVlanPolicy st m chainRule with
  | .error err => .error err
  | .ok (m, chainRule) =>
    match movedSize headerId with
    | none => .error (-22)
    | some n =>
      let m := copy m (ruleHeader + ethSize) m ruleHeader n
      if portMac rlist port = 0 then .error (-22)
      else .ok (writeEthHeader m (portMac rlist port), chainRule)

/-- The policy of the port the in-box names. -/
def SteerDev.policy (dev : SteerDev) (slave : Nat) (m : Mem) : SteerPolicy :=
  dev.vfOper slave (m 7).toNat

/-- The part of `validate_flow_steering_vf_spec` behind the steering mode. -/
def validateRegular (dev : SteerDev) (slave : Nat) (cmd : AttachCmd) : Except Int AttachCmd :=
  let st := dev.policy slave cmd.inbox
  match mapHwToSwId (read cmd.inbox headerIdAt 2) with
  | some .eth =>
    match validateVlanPolicy st cmd.inbox cmd.chainRule with
    | .error _ => .error (-22)
    | .ok (m, chainRule) =>
      if validateEthHeaderMac m (dev.resMac slave) then
        .ok { cmd with inbox := m, chainRule := chainRule }
      else .error (-22)
  | some .ib => .ok cmd
  | some headerId =>
    if headerId = .ipv4 ∨ headerId = .tcp ∨ headerId = .udp then
      match addEthHeader st cmd.inbox (dev.resMac slave) headerId cmd.chainRule with
      | .error _ => .error (-22)
      | .ok (m, chainRule) =>
        .ok
          { inbox := m
            inModifier := U32.wrap (cmd.inModifier + ethSize >>> 2)
            chainRule := chainRule }
    else .error (-22)
  | none => .error (-22)

def validateFlowSteeringVfSpec (dev : SteerDev) (slave : Nat) (cmd : AttachCmd) :
    Except Int AttachCmd :=
  match mapHwToSwSteeringMode (cmd.inbox 2).toNat with
  | some .allDefault =>
    .ok { cmd with inbox := write cmd.inbox 2 1 (mapSwToHwSteeringMode .mcDefault) }
  | some .regular => validateRegular dev slave cmd
  | some .mcDefault => .ok cmd
  | _ => if slave ≠ dev.function then .error (-1) else .ok cmd

/-! ## Confinement -/

/-- Every tag that matches `tag` under `msk` names a VLAN of the set. -/
def VlanConfined (vlanSet : List Nat) (tag msk : Nat) : Prop :=
  ∀ tci < 2 ^ 16, tci &&& msk = tag &&& msk → tci % 2 ^ 12 ∈ vlanSet

/-- The rule of `out`, which was made from `cmd`, is confined to the function. -/
structure Confined (dev : SteerDev) (slave : Nat) (cmd out : AttachCmd) : Prop where
  eth : read out.inbox headerIdAt 2 = swIdHw .eth
  mac : isMulticastEtherAddr out.inbox dstMacAt ∨ isBroadcastEtherAddr out.inbox dstMacAt ∨
    ∃ res ∈ dev.resMac slave, read out.inbox dstMacAt 6 = res.mac % 2 ^ 48
  msk : read out.inbox dstMacMskAt 6 = 2 ^ 48 - 1
  vlan : (dev.policy slave cmd.inbox).vgtPolicy = true →
    ¬isMulticastEtherAddr out.inbox dstMacAt →
      VlanConfined (dev.policy slave cmd.inbox).vlanSet (read out.inbox vlanTagAt 2)
        (read out.inbox vlanTagMskAt 2)
  /-- Behind an inserted header comes what the command had behind its control segment. -/
  inserted : read cmd.inbox headerIdAt 2 ≠ swIdHw .eth →
    (∀ j < 4 * cmd.inModifier - ruleHeader,
        out.inbox (ruleHeader + ethSize + j) = cmd.inbox (ruleHeader + j)) ∧
      out.inModifier = cmd.inModifier + 12

/-- A rule with an Ethernet header: the address mask is full, and the VLANs let through are of the
set. A tag outside the set is replaced by 4095 in the host's byte order. -/
structure EthKept (st : SteerPolicy) (m : Mem) : Prop where
  msk : read m dstMacMskAt 6 = 2 ^ 48 - 1
  vlan : st.vgtPolicy = true → ¬isMulticastEtherAddr m dstMacAt →
    if read m vlanTagAt 2 ∈ st.vlanSet then
      VlanConfined st.vlanSet (read m vlanTagAt 2)
        (if read m vlanTagMskAt 2 = 0 then 0xfff else read m vlanTagMskAt 2)
    else 3855 ∈ st.vlanSet

/-- A rule that gets an Ethernet header: under a policy the set has all VLANs, what is
not moved is as it was, and the policy does not write into the moved headers. -/
structure InsertKept (st : SteerPolicy) (rlist : List MacRes) (cmd : AttachCmd)
    (headerId : NetTransRuleId) : Prop where
  vlan : st.vgtPolicy = true → ¬(portMac rlist (cmd.inbox 7).toNat).testBit 40 →
    ∀ vid < 2 ^ 12, vid ∈ st.vlanSet
  tail : ∀ n, movedSize headerId = some n → ∀ j, n ≤ j → j < 4 * cmd.inModifier - ruleHeader →
    cmd.inbox (ruleHeader + ethSize + j) = cmd.inbox (ruleHeader + j)
  unwritten : headerId = .ipv4 → st.vgtPolicy = true → ¬PolicyExempt cmd.inbox →
    read cmd.inbox vlanTagMskAt 2 = 0 → 4 * cmd.inModifier - ruleHeader ≤ 44
  grown : cmd.inModifier + 12 < 2 ^ 32

/-- The condition for a rule whose first header is `headerId`. -/
def RuleKept (dev : SteerDev) (slave : Nat) (cmd : AttachCmd) : NetTransRuleId → Prop
  | .eth => EthKept (dev.policy slave cmd.inbox) cmd.inbox
  | headerId => InsertKept (dev.policy slave cmd.inbox) (dev.resMac slave) cmd headerId

/-! ## Addresses and tags -/

section Fields

variable {m m' : Mem} {st : SteerPolicy}

theorem swIdHw_of_map {h : Nat} {id : NetTransRuleId} (hid : mapHwToSwId h = some id) :
    swIdHw id = h := by
  simpa using List.find?_some hid

theorem read_write_of_disjoint {a n v b k : Nat} (h : b + k ≤ a ∨ a + n ≤ b) :
    read (write m a n v) b k = read m b k :=
  read_congr fun x h₁ h₂ => write_of_not m a n v x (by omega)

theorem isMulticast_iff (addr : Nat) :
    isMulticastEtherAddr m addr ↔ (read m addr 6).testBit 40 = true := by
  have hdiv : (8 * (addr + 6) - 1 - 40) / 8 = addr := by omega
  have hmod : 7 - (8 * (addr + 6) - 1 - 40) % 8 = 0 := by omega
  rw [testBit_read m addr 6 (by decide), bit, hdiv, hmod]
  rfl

theorem isMulticast_of_broadcast {addr : Nat} (h : isBroadcastEtherAddr m addr) :
    isMulticastEtherAddr m addr := by
  rw [isMulticast_iff, h]
  decide

theorem PolicyExempt.isMulticast (h : PolicyExempt m) : isMulticastEtherAddr m dstMacAt :=
  h.2.elim id isMulticast_of_broadcast

theorem beMac_eq (mac : Nat) : beMac mac = mac % 2 ^ 48 := by
  unfold beMac
  rw [Nat.shiftLeft_eq, Nat.shiftRight_eq_div_pow, show 2 ^ 64 = 2 ^ 48 * 2 ^ 16 by decide,
    Nat.mul_mod_mul_right, Nat.mul_div_cancel _ (by decide)]

theorem vlanConfined_vid {vlanSet : List Nat} {tag : Nat} :
    VlanConfined vlanSet tag 0xfff ↔ tag % 2 ^ 12 ∈ vlanSet := by
  have hand : ∀ x, x &&& 0xfff = x % 2 ^ 12 := fun x => Nat.and_two_pow_sub_one_eq_mod x 12
  unfold VlanConfined
  simp only [hand]
  constructor
  · intro h
    have hlt : tag % 2 ^ 12 < 2 ^ 12 := Nat.mod_lt _ (by decide)
    simpa using h (tag % 2 ^ 12) (by omega) (Nat.mod_mod _ _)
  · rintro h tci - htci
    rwa [htci]

theorem vlanConfined_any {vlanSet : List Nat} {tag : Nat} :
    VlanConfined vlanSet tag 0 ↔ ∀ vid < 2 ^ 12, vid ∈ vlanSet := by
  unfold VlanConfined
  simp only [Nat.and_zero, true_imp_iff]
  constructor
  · intro h vid hvid
    have hmem := h vid (by omega)
    rwa [Nat.mod_eq_of_lt hvid] at hmem
  · exact fun h tci _ => h _ (Nat.mod_lt _ (by decide))

/-- The policy lets the rule through as it is, or writes the mask and, for a tag
outside the set, the tag. -/
theorem validateVlanPolicy_cases {c c' : Bool} (h : validateVlanPolicy st m c = .ok (m', c')) :
    m' = m ∧ (st.vgtPolicy = false ∨ PolicyExempt m ∨
        read m vlanTagAt 2 ∈ st.vlanSet ∧ read m vlanTagMskAt 2 ≠ 0) ∨
      (st.vgtPolicy = true ∧ ¬PolicyExempt m ∧ read m vlanTagMskAt 2 = 0) ∧
        (read m vlanTagAt 2 ∈ st.vlanSet ∧ m' = write m vlanTagMskAt 2 0xfff ∨
          read m vlanTagAt 2 ∉ st.vlanSet ∧
            m' = write (write m vlanTagAt 2 (swab16 4095)) vlanTagMskAt 2 0xfff) := by
  unfold validateVlanPolicy at h
  split at h
  · next hpolicy => cases h; exact .inl ⟨rfl, .inl hpolicy⟩
  next hpolicy =>
  split at h
  · next hexempt => cases h; exact .inl ⟨rfl, .inr (.inl hexempt)⟩
  next hexempt =>
  have hp : st.vgtPolicy = true := by simpa using hpolicy
  split at h
  · next htag =>
    split at h
    · next hmsk => cases h; exact .inr ⟨⟨hp, hexempt, hmsk⟩, .inl ⟨htag, rfl⟩⟩
    · next hmsk => cases h; exact .inl ⟨rfl, .inr (.inr ⟨htag, hmsk⟩)⟩
  · next htag =>
    split at h
    · next hmsk => cases h; exact .inr ⟨⟨hp, hexempt, hmsk.1⟩, .inr ⟨htag, rfl⟩⟩
    · cases h

variable {c c' : Bool} (h : validateVlanPolicy st m c = .ok (m', c'))

include h

/-- Only the VLAN fields are written. -/
theorem policy_frame {x : Nat} (hx : x < vlanTagMskAt ∨ vlanTagMskAt + 4 ≤ x) : m' x = m x := by
  unfold vlanTagMskAt at hx
  obtain ⟨rfl, -⟩ | ⟨-, ⟨-, rfl⟩ | ⟨-, rfl⟩⟩ := validateVlanPolicy_cases h
  · rfl
  · exact write_of_not _ _ _ _ _ (by unfold vlanTagMskAt; omega)
  · rw [write_of_not _ _ _ _ _ (by unfold vlanTagMskAt; omega),
      write_of_not _ _ _ _ _ (by unfold vlanTagAt; omega)]

theorem policy_read {a n : Nat} (ha : a + n ≤ vlanTagMskAt) : read m' a n = read m a n :=
  read_congr fun _ _ hx => policy_frame h (.inl (by omega))

theorem policy_vlan (hpolicy : st.vgtPolicy = true) (hexempt : ¬PolicyExempt m) :
    VlanConfined st.vlanSet (read m' vlanTagAt 2) (read m' vlanTagMskAt 2) ↔
      if read m vlanTagAt 2 ∈ st.vlanSet then
        VlanConfined st.vlanSet (read m vlanTagAt 2)
          (if read m vlanTagMskAt 2 = 0 then 0xfff else read m vlanTagMskAt 2)
      else 3855 ∈ st.vlanSet := by
  have hdisj : ∀ mem v, read (write mem vlanTagMskAt 2 v) vlanTagAt 2 = read mem vlanTagAt 2 :=
    fun mem v => read_write_of_disjoint (.inr (by decide))
  obtain ⟨rfl, hc⟩ | ⟨⟨-, -, hmsk⟩, ⟨htag, rfl⟩ | ⟨htag, rfl⟩⟩ := validateVlanPolicy_cases h
  · obtain ⟨htag, hmsk⟩ := (hc.resolve_left (by simp [hpolicy])).resolve_left hexempt
    rw [if_pos htag, if_neg hmsk]
  · rw [if_pos htag, if_pos hmsk, hdisj, read_write]
    exact Iff.rfl
  · rw [if_neg htag, hdisj, read_write, read_write]
    exact vlanConfined_vid

theorem policy_unwritten
    (hn : st.vgtPolicy = true → ¬PolicyExempt m → read m vlanTagMskAt 2 ≠ 0) : m' = m := by
  obtain ⟨rfl, -⟩ | ⟨⟨hp, hexempt, hmsk⟩, -⟩ := validateVlanPolicy_cases h
  · rfl
  · exact absurd hmsk (hn hp hexempt)

theorem policy_written (hpolicy : st.vgtPolicy = true) (hexempt : ¬PolicyExempt m)
    (hmsk : read m vlanTagMskAt 2 = 0) : m' vlanTagMskAt ≠ m vlanTagMskAt := by
  have hzero : m vlanTagMskAt = 0 := by
    simp only [BigEndian.read] at hmsk
    apply BitVec.eq_of_toNat_eq
    change (m (vlanTagMskAt + 0)).toNat = 0
    omega
  rw [hzero]
  obtain ⟨-, hc⟩ | ⟨-, ⟨-, rfl⟩ | ⟨-, rfl⟩⟩ := validateVlanPolicy_cases h
  · obtain ⟨-, hne⟩ := (hc.resolve_left (by simp [hpolicy])).resolve_left hexempt
    exact absurd hmsk hne
  all_goals
    change (0xf : BitVec 8) ≠ 0
    decide

end Fields

/-! ## The two ways to accept a rule -/

section Rules

variable {dev : SteerDev} {slave : Nat} {cmd out : AttachCmd}

theorem ethRule_confined_iff {m : Mem} {c : Bool}
    (hid : read cmd.inbox headerIdAt 2 = swIdHw .eth)
    (hpol : validateVlanPolicy (dev.policy slave cmd.inbox) cmd.inbox cmd.chainRule = .ok (m, c))
    (hmac : validateEthHeaderMac m (dev.resMac slave) = true) :
    Confined dev slave cmd { cmd with inbox := m, chainRule := c } ↔
      EthKept (dev.policy slave cmd.inbox) cmd.inbox := by
  have hmcast : isMulticastEtherAddr m dstMacAt ↔ isMulticastEtherAddr cmd.inbox dstMacAt := by
    rw [isMulticast_iff, isMulticast_iff, policy_read hpol (by decide)]
  have hmsk : read m dstMacMskAt 6 = read cmd.inbox dstMacMskAt 6 := policy_read hpol (by decide)
  have hvlan := fun hp (hm : ¬isMulticastEtherAddr cmd.inbox dstMacAt) =>
    policy_vlan hpol hp (mt PolicyExempt.isMulticast hm)
  constructor
  · intro h
    exact ⟨hmsk ▸ h.msk, fun hp hm => (hvlan hp hm).mp (h.vlan hp (hmcast.not.mpr hm))⟩
  · intro h
    refine ⟨?_, ?_, hmsk ▸ h.msk, fun hp hm => ?_, fun hne => absurd hid hne⟩
    · rw [← hid]
      exact policy_read hpol (by decide)
    · simp only [validateEthHeaderMac, decide_eq_true_eq, List.any_eq_true, beMac_eq] at hmac
      refine hmac.imp_right (Or.imp_right ?_)
      rintro ⟨res, hres, heq⟩
      exact ⟨res, hres, heq.symm⟩
    · exact (hvlan hp (hmcast.not.mp hm)).mpr (h.vlan hp (hmcast.not.mp hm))

/-- What stands in the in-box after an Ethernet header was written. -/
theorem writeEthHeader_fields (m : Mem) (mac : Nat) :
    read (writeEthHeader m mac) headerIdAt 2 = swIdHw .eth ∧
      read (writeEthHeader m mac) dstMacAt 6 = mac % 2 ^ 48 ∧
      read (writeEthHeader m mac) dstMacMskAt 6 = macMsk ∧
      read (writeEthHeader m mac) vlanTagMskAt 2 = 0 ∧
      read (writeEthHeader m mac) vlanTagAt 2 = 0 := by
  have hzero : ∀ a, dstMacMskAt + 6 ≤ a → a + 2 ≤ ruleHeader + ethSize →
      read (writeEthHeader m mac) a 2 = 0 := by
    intro a h₁ h₂
    unfold dstMacMskAt at h₁
    unfold writeEthHeader ruleHeader headerIdAt dstMacAt dstMacMskAt
    rw [read_write_of_disjoint (.inr (by omega)), read_write_of_disjoint (.inr (by omega)),
      read_write_of_disjoint (.inr (by omega)), read_write_of_disjoint (.inr (by omega))]
    refine read_eq_zero _ _ _ fun x h₃ h₄ => if_pos ⟨by omega, ?_⟩
    unfold ruleHeader at h₂
    omega
  refine ⟨?_, ?_, ?_, hzero _ (by decide) (by decide), hzero _ (by decide) (by decide)⟩
  · unfold writeEthHeader
    rw [read_write_of_disjoint (.inl (by decide)), read_write_of_disjoint (.inl (by decide)),
      read_write]
    rfl
  · unfold writeEthHeader
    rw [read_write_of_disjoint (.inl (by decide)), read_write]
  · unfold writeEthHeader
    rw [read_write]
    rfl

theorem writeEthHeader_behind {m : Mem} {mac x : Nat} (hx : ruleHeader + ethSize ≤ x) :
    writeEthHeader m mac x = m x := by
  unfold ruleHeader ethSize at hx
  unfold writeEthHeader ruleHeader headerIdAt dstMacAt dstMacMskAt ethSize
  rw [write_of_not _ _ _ _ _ (by omega), write_of_not _ _ _ _ _ (by omega),
    write_of_not _ _ _ _ _ (by omega), write_of_not _ _ _ _ _ (by omega)]
  exact copy_of_not _ _ _ _ _ (by omega)

theorem addEthHeader_ok {st : SteerPolicy} {m m' : Mem} {rlist : List MacRes}
    {headerId : NetTransRuleId} {c c' : Bool}
    (h : addEthHeader st m rlist headerId c = .ok (m', c')) :
    ∃ m₁ n, validateVlanPolicy st m c = .ok (m₁, c') ∧ movedSize headerId = some n ∧
      portMac rlist (m 7).toNat ≠ 0 ∧
      m' = writeEthHeader (copy m₁ (ruleHeader + ethSize) m₁ ruleHeader n)
        (portMac rlist (m 7).toNat) := by
  unfold addEthHeader at h
  dsimp only at h
  split at h
  · cases h
  · next m₁ c₁ hpol =>
    split at h
    · cases h
    · next n hn =>
      split at h
      · cases h
      · next hmac =>
        cases h
        exact ⟨m₁, n, hpol, hn, hmac, rfl⟩

theorem portMac_spec {rlist : List MacRes} {port : Nat} (h : portMac rlist port ≠ 0) :
    portMac rlist port < 2 ^ 48 ∧ ∃ res ∈ rlist, portMac rlist port = res.mac % 2 ^ 48 := by
  unfold portMac at h ⊢
  cases hfind : rlist.find? fun res => port = res.port with
  | none => simp [hfind] at h
  | some res =>
    rw [Option.map_some, Option.getD_some, beMac_eq]
    exact ⟨Nat.mod_lt _ (by decide), res, List.mem_of_find?_eq_some hfind, rfl⟩

/-- Where the headers of the command have gone. -/
theorem moved_iff {st : SteerPolicy} {m m₁ : Mem} {c c' : Bool} {headerId : NetTransRuleId}
    {n : Nat}
    (hpol : validateVlanPolicy st m c = .ok (m₁, c')) (hn : movedSize headerId = some n)
    (mac len : Nat) :
    (∀ j < len, writeEthHeader (copy m₁ (ruleHeader + ethSize) m₁ ruleHeader n) mac
        (ruleHeader + ethSize + j) = m (ruleHeader + j)) ↔
      (∀ j, n ≤ j → j < len → m (ruleHeader + ethSize + j) = m (ruleHeader + j)) ∧
        (headerId = .ipv4 → st.vgtPolicy = true → ¬PolicyExempt m → read m vlanTagMskAt 2 = 0 →
          len ≤ 44) := by
  have hat : ∀ j, writeEthHeader (copy m₁ (ruleHeader + ethSize) m₁ ruleHeader n) mac
      (ruleHeader + ethSize + j) =
        if j < n then m₁ (ruleHeader + j) else m₁ (ruleHeader + ethSize + j) := by
    intro j
    rw [writeEthHeader_behind (by omega), copy, Nat.add_sub_cancel_left]
    exact if_congr (by omega) rfl rfl
  have hbehind : ∀ j, m₁ (ruleHeader + ethSize + j) = m (ruleHeader + ethSize + j) :=
    fun j => policy_frame hpol (.inr (by unfold vlanTagMskAt ruleHeader ethSize; omega))
  simp only [hat, hbehind]
  constructor
  · intro h
    refine ⟨fun j h₁ h₂ => ?_, fun hid hp hexempt hmsk => ?_⟩
    · have hj := h j h₂
      rwa [if_neg (by omega)] at hj
    · by_contra hlen
      subst hid
      obtain rfl : 48 = n := Option.some.inj hn
      exact policy_written hpol hp hexempt hmsk (h 44 (by omega))
  · rintro ⟨htail, hunwritten⟩ j hj
    split
    · next hlt =>
      by_cases hfield : j < 44
      · exact policy_frame hpol (.inl (by unfold vlanTagMskAt ruleHeader; omega))
      · -- only an IPv4 header is moved with so many bytes
        have hid : headerId = .ipv4 := by
          revert hn
          cases headerId <;> simp [movedSize, tcpUdpSize] <;> omega
        rw [policy_unwritten hpol fun hp hexempt hmsk => ?_]
        have hlen := hunwritten hid hp hexempt hmsk
        omega
    · next hge => exact htail j (by omega) hj

theorem insertRule_confined_iff {m : Mem} {c : Bool} {headerId : NetTransRuleId}
    (hid : swIdHw headerId = read cmd.inbox headerIdAt 2) (hne : headerId ≠ .eth)
    (hadd : addEthHeader (dev.policy slave cmd.inbox) cmd.inbox (dev.resMac slave) headerId
      cmd.chainRule = .ok (m, c)) :
    Confined dev slave cmd
        { inbox := m, inModifier := U32.wrap (cmd.inModifier + ethSize >>> 2), chainRule := c } ↔
      InsertKept (dev.policy slave cmd.inbox) (dev.resMac slave) cmd headerId := by
  obtain ⟨m₁, n, hpol, hn, hmac, rfl⟩ := addEthHeader_ok hadd
  obtain ⟨hlt, hreg⟩ := portMac_spec hmac
  obtain ⟨h₁, h₂, h₃, h₄, h₅⟩ := writeEthHeader_fields
    (copy m₁ (ruleHeader + ethSize) m₁ ruleHeader n)
    (portMac (dev.resMac slave) (cmd.inbox 7).toNat)
  have hmove := moved_iff hpol hn (portMac (dev.resMac slave) (cmd.inbox 7).toNat)
    (4 * cmd.inModifier - ruleHeader)
  have hnot : read cmd.inbox headerIdAt 2 ≠ swIdHw .eth := by
    rw [← hid]
    revert hne
    cases headerId <;> decide
  have hgrown : U32.wrap (cmd.inModifier + ethSize >>> 2) = cmd.inModifier + 12 ↔
      cmd.inModifier + 12 < 2 ^ 32 := by
    rw [show ethSize >>> 2 = 12 by decide]
    constructor
    · exact fun h => h ▸ U32.wrap_lt _
    · exact U32.wrap_of_lt
  rw [Nat.mod_eq_of_lt hlt] at h₂
  constructor
  · intro h
    obtain ⟨hcopy, hsize⟩ := h.inserted hnot
    refine ⟨fun hp hm => ?_, ?_, ?_, hgrown.mp hsize⟩
    · have hv := h.vlan hp (by rw [isMulticast_iff, h₂]; exact hm)
      rwa [h₄, h₅, vlanConfined_any] at hv
    · rintro n' hn'
      obtain rfl : n = n' := by simpa [hn] using hn'
      exact (hmove.mp hcopy).1
    · exact (hmove.mp hcopy).2
  · intro h
    refine ⟨h₁, .inr (.inr ?_), h₃, fun hp hm => ?_, fun _ => ⟨?_, hgrown.mpr h.grown⟩⟩
    · obtain ⟨res, hres, heq⟩ := hreg
      exact ⟨res, hres, h₂.trans heq⟩
    · rw [isMulticast_iff, h₂] at hm
      rw [h₄, h₅, vlanConfined_any]
      exact h.vlan hp hm
    · exact hmove.mpr ⟨h.tail n hn, h.unwritten⟩

end Rules

/-- `validate_flow_steering_vf_spec` confines an accepted regular rule exactly when the
rule keeps to what the check overlooks. -/
theorem steer_confined_iff {dev : SteerDev} {slave : Nat} {cmd out : AttachCmd}
    {headerId : NetTransRuleId}
    (hmode : mapHwToSwSteeringMode (cmd.inbox 2).toNat = some .regular)
    (hid : mapHwToSwId (read cmd.inbox headerIdAt 2) = some headerId)
    (hrule : headerId ∈ [.eth, .ipv4, .tcp, .udp])
    (hok : validateFlowSteeringVfSpec dev slave cmd = .ok out) :
    Confined dev slave cmd out ↔ RuleKept dev slave cmd headerId := by
  have hhw := swIdHw_of_map hid
  simp only [validateFlowSteeringVfSpec, hmode, validateRegular, hid] at hok
  cases headerId with
  | eth =>
    dsimp only at hok
    split at hok
    · cases hok
    · next m c hpol =>
      split at hok
      · next hmac =>
        cases hok
        exact ethRule_confined_iff hhw.symm hpol hmac
      · cases hok
  | ib => simp at hrule
  | ipv6 => simp at hrule
  | vxlan => simp at hrule
  | ipv4 | tcp | udp =>
    simp only [reduceCtorEq, or_true, true_or, if_true] at hok
    split at hok
    · cases hok
    · next m c hadd =>
      cases hok
      exact insertRule_confined_iff hhw (by decide) hadd

/-- Function 1 has one MAC on port 1, and the policy `st` there. -/
def oneMacDev (st : SteerPolicy) : SteerDev where
  function := 0
  vfOper _ _ := st
  resMac _ := [{ mac := 0x001122334455, port := 1 }]

/-- A regular rule on port 1 for a QP, with these bytes behind the control segment. -/
def ruleCmd (inModifier : Nat) (bytes : List Nat) : AttachCmd where
  inbox i :=
    BitVec.ofNat 8 (([0x10, 0, 0, 0, 0, 0, 0, 1, 0, 0, 0, 0x41, 0, 0, 0, 0] ++ bytes).getD i 0)
  inModifier := inModifier
  chainRule := false

/-- An Ethernet header for the MAC of the function, under the mask of six bytes `msk`. -/
def ethRule (msk : Nat) : AttachCmd :=
  ruleCmd 16 ([12, 0, 0xe0, 0x01, 0, 0, 0, 0, 0, 0, 0x00, 0x11, 0x22, 0x33, 0x44, 0x55, 0, 0] ++
    List.replicate 6 msk)

/-- An IPv4 header for 10.0.0.1; behind the six words of the rule, where the tag of an
Ethernet header would be, stands 10. -/
def ipv4Rule : AttachCmd :=
  ruleCmd 10 ([6, 0, 0xe0, 0x02, 0, 0, 0, 0, 10, 0, 0, 1, 0xff, 0xff, 0xff, 0xff] ++
    List.replicate 30 0 ++ [0, 10])

theorem steer_confined_iff_full_mask :
    ∃ out, validateFlowSteeringVfSpec (oneMacDev ⟨false, []⟩) 1 (ethRule 0xff) = .ok out ∧
      (Confined (oneMacDev ⟨false, []⟩) 1 (ethRule 0xff) out ↔
        RuleKept (oneMacDev ⟨false, []⟩) 1 (ethRule 0xff) .eth) :=
  ⟨_, rfl, steer_confined_iff (by decide) (by decide) (by decide) rfl⟩

/-- A rule under an empty mask takes the traffic of all addresses. A function that may use VLAN 10
only gets an IPv4 rule for all VLANs. -/
theorem accepted_unconfined :
    (∃ out, validateFlowSteeringVfSpec (oneMacDev ⟨false, []⟩) 1 (ethRule 0) = .ok out ∧
        ¬Confined (oneMacDev ⟨false, []⟩) 1 (ethRule 0) out) ∧
      ∃ out, validateFlowSteeringVfSpec (oneMacDev ⟨true, [10]⟩) 1 ipv4Rule = .ok out ∧
        ¬Confined (oneMacDev ⟨true, [10]⟩) 1 ipv4Rule out := by
  refine ⟨⟨_, rfl, fun h => ?_⟩, ⟨_, rfl, fun h => ?_⟩⟩
  · exact absurd h.msk (by decide)
  · have hmem := h.vlan rfl (by decide) 11 (by decide) (by decide)
    exact absurd hmem (by decide)

end Mlx4
