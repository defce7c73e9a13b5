-- SUMMARY: The way of a directed-route SMP through a fabric.
import OfaKernel.Mad.Smi

/-!
# Directed routes

Nodes are joined by links between their ports. Along a route the hop pointer is the number of the
hop; it is advanced where the packet is sent, except at the two ends.
-/

namespace Smi

/-- Nodes and the links between their ports. A link joins two ports that exist. -/
structure Fabric (ν : Type) where
  node : ν → Node
  link : ν × Nat → Option (ν × Nat)
  link_symm : ∀ a b, link a = some b → link b = some a
  link_port : ∀ a b, link a = some b → a.2 ≤ (node a.1).physPortCnt

/-- How the way of a packet ends: a node hands it up, with the port of its arrival, or it is
dropped. -/
inductive Delivery (ν : Type) where
  | handed (at_ : ν) (portNum : Nat) (smp : Smp)
  | lost

/-- A node posts a packet, and it is followed over as many links as there is fuel. The nodes that
post it are recorded, each with its port. -/
def Fabric.sendFrom {ν : Type} (F : Fabric ν) :
    Nat → ν → Nat → Smp → Option (List (ν × Nat) × Delivery ν)
  | 0, _, _, _ => some ([], .lost)
  | fuel + 1, n, portNum, smp => do
      match ← (F.node n).handleOutgoingDrSmp portNum smp with
      | .invalid | .process _ => some ([], .lost)
      | .post smp =>
        match F.link (n, portNum) with
        | none => some ([(n, portNum)], .lost)
        | some (m, arrival) =>
          match ← (F.node m).handleIbSmi arrival smp with
          | .discard => some ([(n, portNum)], .lost)
          | .handle smp => some ([(n, portNum)], .handed m arrival smp)
          | .forward next smp => do
              let (hops, delivery) ← F.sendFrom fuel m next smp
              some ((n, portNum) :: hops, delivery)

/-! ## Routes -/

/-- Hop `i` leaves node `i - 1` by the port `initialPath i` and arrives at node `i` by the port
`arrival i`. The nodes between the ends are switches. -/
structure Route {ν : Type} (F : Fabric ν) where
  hopCnt : Nat
  hopCnt_pos : 1 ≤ hopCnt
  hopCnt_le : hopCnt ≤ 63
  initialPath : Path
  nodes : Nat → ν
  arrival : Nat → Nat
  wired : ∀ i < hopCnt,
    F.link (nodes i, initialPath (i + 1)) = some (nodes (i + 1), arrival (i + 1))
  switches : ∀ i, 0 < i → i < hopCnt → (F.node (nodes i)).isSwitch

namespace Route

variable {ν : Type} {F : Fabric ν} (R : Route F)

/-- The request as the first node sends it. -/
def request (returnPath : Path) : Smp :=
  { direction := false, hopPtr := 0, hopCnt := R.hopCnt, drSlidPermissive := true,
    drDlidPermissive := true, initialPath := R.initialPath, returnPath := returnPath }

/-- The nodes that send the request, each with its port. -/
def hops : List (ν × Nat) := (List.range R.hopCnt).map fun i => (R.nodes i, R.initialPath (i + 1))

/-- The nodes that send the response, each with its port. -/
def hopsBack : List (ν × Nat) :=
  (List.range R.hopCnt).map fun i => (R.nodes (R.hopCnt - i), R.arrival (R.hopCnt - i))

/-- A packet of the route, at the hop `i`. -/
structure AtHop (direction : Bool) (i : Nat) (smp : Smp) : Prop where
  direction_eq : smp.direction = direction
  hopPtr : smp.hopPtr = i
  hopCnt : smp.hopCnt = R.hopCnt
  slid : smp.drSlidPermissive = true
  dlid : smp.drDlidPermissive = true
  initialPath : smp.initialPath = R.initialPath

/-- The return path has the ports of arrival up to the hop `n`. -/
def Recorded (n : Nat) (smp : Smp) : Prop := ∀ i, 1 ≤ i → i ≤ n → smp.returnPath i = R.arrival i

variable {R} {i : Nat} {smp : Smp}

theorem out_le (hi : i < R.hopCnt) : R.initialPath (i + 1) ≤ (F.node (R.nodes i)).physPortCnt :=
  F.link_port _ _ (R.wired i hi)

theorem arrival_le (hi : i < R.hopCnt) :
    R.arrival (i + 1) ≤ (F.node (R.nodes (i + 1))).physPortCnt :=
  F.link_port _ _ (F.link_symm _ _ (R.wired i hi))

theorem request_atHop (returnPath : Path) : R.AtHop false 0 (R.request returnPath) :=
  ⟨rfl, rfl, rfl, rfl, rfl, rfl⟩

theorem AtHop.respond (h : R.AtHop false i smp) : R.AtHop true i { smp with direction := true } :=
  ⟨rfl, h.hopPtr, h.hopCnt, h.slid, h.dlid, h.initialPath⟩

theorem AtHop.incHopPtr {b : Bool} (h : R.AtHop b i smp) (hi : i ≤ R.hopCnt) :
    R.AtHop b (i + 1) smp.incHopPtr := by
  have hle := R.hopCnt_le
  have hlt : (i + 1) % 256 = i + 1 := by omega
  exact ⟨h.direction_eq, by simp [Smp.incHopPtr, h.hopPtr, hlt], h.hopCnt, h.slid, h.dlid,
    h.initialPath⟩

theorem AtHop.decHopPtr {b : Bool} (h : R.AtHop b (i + 1) smp) : R.AtHop b i smp.decHopPtr :=
  ⟨h.direction_eq, by simp [Smp.decHopPtr, h.hopPtr], h.hopCnt, h.slid, h.dlid, h.initialPath⟩

theorem not_too_long (R : Route F) : ¬64 ≤ R.hopCnt := by
  have hle := R.hopCnt_le
  omega

theorem AtHop.send_request (h : R.AtHop false i smp) (hi : i < R.hopCnt) :
    (F.node (R.nodes i)).handleOutgoingDrSmp (R.initialPath (i + 1)) smp =
      some (.post smp.incHopPtr) := by
  have hle := R.hopCnt_le
  have hnext := h.incHopPtr (Nat.le_of_lt hi)
  have hread : readPath smp.initialPath smp.incHopPtr.hopPtr = some (R.initialPath (i + 1)) := by
    rw [h.initialPath, hnext.hopPtr, readPath, if_pos (by omega)]
  have hat : smp.incHopPtr.handleAt smp.initialPath (R.initialPath (i + 1)) =
      some (.handle, smp.incHopPtr) := by
    simp [Smp.handleAt, hread, handleIf]
  have hsend : smp.handleDrSmpSend (F.node (R.nodes i)).isSwitch (R.initialPath (i + 1)) =
      some (.handle, smp.incHopPtr) := by
    rcases Nat.eq_zero_or_pos i with hzero | hpos
    · -- the first node need not be a switch
      simp only [Smp.handleDrSmpSend, h.direction_eq, h.hopPtr, h.hopCnt, if_neg R.not_too_long,
        hat]
      simp [hzero, Nat.ne_of_gt R.hopCnt_pos]
    · have hsw := R.switches i hpos hi
      simp only [Smp.handleDrSmpSend, h.direction_eq, h.hopPtr, h.hopCnt, if_neg R.not_too_long,
        hat]
      simp [hsw, hi, Nat.ne_of_gt hpos]
  have hlocal : smp.incHopPtr.checkLocalSmp (F.node (R.nodes i)).processMad = .discard := by
    simp [Smp.checkLocalSmp, handleIf, hnext.hopPtr, hnext.hopCnt, Nat.ne_of_lt hi]
  have hreturning :
      smp.incHopPtr.checkLocalReturningSmp (F.node (R.nodes i)).processMad = .discard := by
    simp [Smp.checkLocalReturningSmp, handleIf, hnext.direction_eq]
  simp [Node.handleOutgoingDrSmp, h.direction_eq, h.slid, hsend, hlocal, hreturning]

theorem AtHop.setReturn (h : R.AtHop false i smp) (hi : i ≤ R.hopCnt) :
    ∃ smp', smp.setReturn (R.arrival i) = some smp' ∧ R.AtHop false i smp' ∧
      smp'.returnPath = Function.update smp.returnPath i (R.arrival i) := by
  have hle := R.hopCnt_le
  have hlt : i < 64 := by omega
  refine ⟨{ smp with returnPath := Function.update smp.returnPath i (R.arrival i) }, ?_, ?_, rfl⟩
  · simp [Smp.setReturn, writePath, h.hopPtr, hlt]
  · exact ⟨h.direction_eq, h.hopPtr, h.hopCnt, h.slid, h.dlid, h.initialPath⟩

theorem Recorded.update {smp' : Smp} (h : R.Recorded i smp)
    (hp : smp'.returnPath = Function.update smp.returnPath (i + 1) (R.arrival (i + 1))) :
    R.Recorded (i + 1) smp' := by
  intro j hj hle
  rw [hp, Function.update_apply]
  split
  next heq => rw [heq]
  next hne => exact h j hj (by omega)

/-- A switch between the ends records the port of arrival and forwards the request. -/
theorem AtHop.forward_request (h : R.AtHop false (i + 1) smp) (hi : i + 1 < R.hopCnt)
    (hrec : R.Recorded i smp) :
    ∃ smp', (F.node (R.nodes (i + 1))).handleIbSmi (R.arrival (i + 1)) smp =
      some (.forward (R.initialPath (i + 2)) smp') ∧
      R.AtHop false (i + 1) smp' ∧ R.Recorded (i + 1) smp' := by
  have hle := R.hopCnt_le
  have hsw := R.switches (i + 1) (by omega) hi
  obtain ⟨smp', hset, hat, hpath⟩ := h.setReturn (Nat.le_of_lt hi)
  have hread : readPath smp'.initialPath (i + 1 + 1) = some (R.initialPath (i + 2)) := by
    rw [hat.initialPath, readPath, if_pos (by omega)]
  have hport := out_le hi
  have hrecv : smp.handleDrSmpRecv (F.node (R.nodes (i + 1))).isSwitch (R.arrival (i + 1))
      (F.node (R.nodes (i + 1))).physPortCnt = some (.handle, smp') := by
    simp only [Smp.handleDrSmpRecv, h.direction_eq, h.hopPtr, h.hopCnt, if_neg R.not_too_long]
    simp [hsw, hi, hset, hat.hopPtr, hread, handleIf, hport]
  have hforward : smp'.checkForwardDrSmp = .forward := by
    simp [Smp.checkForwardDrSmp, hat.direction_eq, hat.hopPtr, hat.hopCnt, hi]
  have hfwd : smp'.getFwdPort = some (R.initialPath (i + 2)) := by
    simp [Smp.getFwdPort, hat.direction_eq, hat.hopPtr, hread]
  refine ⟨smp', ?_, hat, hrec.update hpath⟩
  rw [Node.handleIbSmi, hrecv]
  simp [hforward, hsw, hfwd]

/-- The last node records the port of arrival and, with a `process_mad`, is handed the request. -/
theorem AtHop.handle_request (h : R.AtHop false (i + 1) smp) (hi : i + 1 = R.hopCnt)
    (hprocess : (F.node (R.nodes R.hopCnt)).processMad) (hrec : R.Recorded i smp) :
    ∃ smp', (F.node (R.nodes (i + 1))).handleIbSmi (R.arrival (i + 1)) smp = some (.handle smp') ∧
      R.AtHop false (i + 2) smp' ∧ R.Recorded (i + 1) smp' := by
  obtain ⟨smp', hset, hat, hpath⟩ := h.setReturn (Nat.le_of_eq hi)
  have hnext := hat.incHopPtr (Nat.le_of_eq hi)
  have hlast : (F.node (R.nodes (i + 1))).processMad = true := hi ▸ hprocess
  have hrecv : smp.handleDrSmpRecv (F.node (R.nodes (i + 1))).isSwitch (R.arrival (i + 1))
      (F.node (R.nodes (i + 1))).physPortCnt = some (.handle, smp') := by
    simp only [Smp.handleDrSmpRecv, h.direction_eq, h.hopPtr, h.hopCnt, if_neg R.not_too_long]
    simp [← hi, hset, hat.dlid, handleIf]
  have hforward : smp'.checkForwardDrSmp = .send := by
    simp [Smp.checkForwardDrSmp, hat.direction_eq, hat.hopPtr, hat.hopCnt, ← hi, hat.dlid]
  have hsend : smp'.handleDrSmpSend (F.node (R.nodes (i + 1))).isSwitch (R.arrival (i + 1)) =
      some (.handle, smp'.incHopPtr) := by
    simp only [Smp.handleDrSmpSend, hat.direction_eq, hat.hopPtr, hat.hopCnt,
      if_neg R.not_too_long, hat.dlid]
    simp [← hi, handleIf]
  have hlocal : smp'.incHopPtr.checkLocalSmp (F.node (R.nodes (i + 1))).processMad = .handle := by
    simp [Smp.checkLocalSmp, handleIf, hlast, hnext.direction_eq, hnext.hopPtr, hnext.hopCnt, ← hi]
  refine ⟨smp'.incHopPtr, ?_, hnext, hrec.update hpath⟩
  rw [Node.handleIbSmi, hrecv]
  simp [hforward, hsend, hlocal]

/-- From any of its nodes on, the request follows the rest of the route to the last node. -/
theorem AtHop.request_delivered (k : Nat) (h : R.AtHop false i smp) (hk : i + k + 1 = R.hopCnt)
    (hprocess : (F.node (R.nodes R.hopCnt)).processMad) (hrec : R.Recorded i smp) (fuel : Nat)
    (hfuel : k < fuel) :
    ∃ smp', F.sendFrom fuel (R.nodes i) (R.initialPath (i + 1)) smp =
        some ((List.range' i (k + 1)).map fun j => (R.nodes j, R.initialPath (j + 1)),
          .handed (R.nodes R.hopCnt) (R.arrival R.hopCnt) smp') ∧
      R.AtHop false (R.hopCnt + 1) smp' ∧ R.Recorded R.hopCnt smp' := by
  obtain ⟨fuel, rfl⟩ : ∃ n, fuel = n + 1 := ⟨fuel - 1, by omega⟩
  have hi : i < R.hopCnt := by omega
  have hsend := h.send_request hi
  have hnext := h.incHopPtr (Nat.le_of_lt hi)
  have hrecNext : R.Recorded i smp.incHopPtr := hrec
  have hlink := R.wired i hi
  induction k generalizing i smp fuel with
  | zero =>
    have hlast : i + 1 = R.hopCnt := by omega
    obtain ⟨smp', hhandle, hat, hall⟩ := hnext.handle_request hlast hprocess hrecNext
    refine ⟨smp', ?_, hlast ▸ hat, hlast ▸ hall⟩
    simp [Fabric.sendFrom, hsend, hlink, hhandle, ← hlast]
  | succ k ih =>
    have hmid : i + 1 < R.hopCnt := by omega
    obtain ⟨smp₁, hforward, hat, hall⟩ := hnext.forward_request hmid hrecNext
    obtain ⟨fuel, rfl⟩ : ∃ n, fuel = n + 1 := ⟨fuel - 1, by omega⟩
    obtain ⟨smp', hrest, hat', hall'⟩ := ih hat (by omega) hall fuel (by omega) hmid
      (hat.send_request hmid) (hat.incHopPtr (Nat.le_of_lt hmid)) hall (R.wired (i + 1) hmid)
    refine ⟨smp', ?_, hat', hall'⟩
    rw [Fabric.sendFrom]
    simp [hsend, hlink, hforward, hrest, List.range'_succ]

/-- Sending the response moves the pointer back to the hop whose port of arrival it takes. -/
theorem AtHop.send_response (h : R.AtHop true (i + 2) smp) (hi : i < R.hopCnt)
    (hrec : R.Recorded R.hopCnt smp) :
    (F.node (R.nodes (i + 1))).handleOutgoingDrSmp (R.arrival (i + 1)) smp =
      some (.post smp.decHopPtr) := by
  have hle := R.hopCnt_le
  have hback : R.AtHop true (i + 1) smp.decHopPtr := h.decHopPtr
  have hread : readPath smp.returnPath smp.decHopPtr.hopPtr = some (R.arrival (i + 1)) := by
    rw [hback.hopPtr, readPath, if_pos (by omega), hrec (i + 1) (by omega) (by omega)]
  have hat : smp.decHopPtr.handleAt smp.returnPath (R.arrival (i + 1)) =
      some (.handle, smp.decHopPtr) := by
    simp [Smp.handleAt, hread, handleIf]
  have hsend : smp.handleDrSmpSend (F.node (R.nodes (i + 1))).isSwitch (R.arrival (i + 1)) =
      some (.handle, smp.decHopPtr) := by
    rcases Nat.lt_or_ge (i + 1) R.hopCnt with hlt | hge
    · have hsw := R.switches (i + 1) (by omega) hlt
      simp only [Smp.handleDrSmpSend, h.direction_eq, h.hopPtr, h.hopCnt, if_neg R.not_too_long,
        hat]
      simp [hsw, show i + 2 ≤ R.hopCnt by omega]
    · -- the last node need not be a switch
      have heq : i + 1 = R.hopCnt := by omega
      simp only [Smp.handleDrSmpSend, h.direction_eq, h.hopPtr, h.hopCnt, if_neg R.not_too_long,
        hat]
      simp [← heq]
  have hlocal : smp.decHopPtr.checkLocalSmp (F.node (R.nodes (i + 1))).processMad = .discard := by
    simp [Smp.checkLocalSmp, handleIf, hback.direction_eq]
  have hreturning :
      smp.decHopPtr.checkLocalReturningSmp (F.node (R.nodes (i + 1))).processMad = .discard := by
    simp [Smp.checkLocalReturningSmp, handleIf, hback.hopPtr]
  simp [Node.handleOutgoingDrSmp, h.direction_eq, h.dlid, hsend, hlocal, hreturning]

/-- A switch between the ends forwards the response by the port on which the request came. -/
theorem AtHop.forward_response (h : R.AtHop true (i + 2) smp) (hi : i + 1 < R.hopCnt)
    (hrec : R.Recorded R.hopCnt smp) (portNum : Nat) :
    (F.node (R.nodes (i + 1))).handleIbSmi portNum smp =
      some (.forward (R.arrival (i + 1)) smp) := by
  have hle := R.hopCnt_le
  have hsw := R.switches (i + 1) (by omega) hi
  have hport := R.arrival_le (i := i) (by omega)
  have hread : readPath smp.returnPath (i + 1) = some (R.arrival (i + 1)) := by
    rw [readPath, if_pos (by omega), hrec (i + 1) (by omega) (by omega)]
  have hrecv : smp.handleDrSmpRecv (F.node (R.nodes (i + 1))).isSwitch portNum
      (F.node (R.nodes (i + 1))).physPortCnt = some (.handle, smp) := by
    simp only [Smp.handleDrSmpRecv, h.direction_eq, h.hopPtr, h.hopCnt, if_neg R.not_too_long]
    simp [hsw, show ¬i + 1 = R.hopCnt by omega, show i + 2 ≤ R.hopCnt by omega, hread, handleIf,
      hport]
  have hforward : smp.checkForwardDrSmp = .forward := by
    simp [Smp.checkForwardDrSmp, h.direction_eq, h.hopPtr, h.hopCnt, show i + 2 ≤ R.hopCnt by omega]
  have hfwd : smp.getFwdPort = some (R.arrival (i + 1)) := by
    simp [Smp.getFwdPort, h.direction_eq, h.hopPtr, hread]
  rw [Node.handleIbSmi, hrecv]
  simp [hforward, hsw, hfwd]

/-- The first node is handed the response, with its pointer at 0. -/
theorem AtHop.handle_response (h : R.AtHop true 1 smp) (portNum : Nat) :
    (F.node (R.nodes 0)).handleIbSmi portNum smp = some (.handle smp.decHopPtr) := by
  have hpos := R.hopCnt_pos
  have hback : R.AtHop true 0 smp.decHopPtr := h.decHopPtr
  have hrecv : smp.handleDrSmpRecv (F.node (R.nodes 0)).isSwitch portNum
      (F.node (R.nodes 0)).physPortCnt = some (.handle, smp.decHopPtr) := by
    simp only [Smp.handleDrSmpRecv, h.direction_eq, h.hopPtr, h.hopCnt, if_neg R.not_too_long]
    simp [h.slid]
  have hlocal : smp.decHopPtr.checkForwardDrSmp = .local := by
    simp [Smp.checkForwardDrSmp, hback.direction_eq, hback.hopPtr]
  rw [Node.handleIbSmi, hrecv]
  simp [hlocal]

/-- From any of its nodes on, the response follows the route back to the first node. -/
theorem AtHop.response_delivered (h : R.AtHop true (i + 2) smp) (hi : i < R.hopCnt)
    (hrec : R.Recorded R.hopCnt smp) (fuel : Nat) (hfuel : i < fuel) :
    ∃ smp', F.sendFrom fuel (R.nodes (i + 1)) (R.arrival (i + 1)) smp =
        some ((List.range (i + 1)).map fun j => (R.nodes (i + 1 - j), R.arrival (i + 1 - j)),
          .handed (R.nodes 0) (R.initialPath 1) smp') ∧ smp'.hopPtr = 0 := by
  obtain ⟨fuel, rfl⟩ : ∃ n, fuel = n + 1 := ⟨fuel - 1, by omega⟩
  have hlink := F.link_symm _ _ (R.wired i hi)
  have hsend := h.send_response hi hrec
  have hback : R.AtHop true (i + 1) smp.decHopPtr := h.decHopPtr
  induction i generalizing smp fuel with
  | zero =>
    refine ⟨smp.decHopPtr.decHopPtr, ?_, by simp [Smp.decHopPtr, h.hopPtr]⟩
    rw [Fabric.sendFrom]
    simp [hsend, hlink, hback.handle_response]
  | succ i ih =>
    obtain ⟨fuel, rfl⟩ : ∃ n, fuel = n + 1 := ⟨fuel - 1, by omega⟩
    have hrecBack : R.Recorded R.hopCnt smp.decHopPtr := hrec
    have hlt : i < R.hopCnt := by omega
    obtain ⟨smp', hrest, hzero⟩ := ih hback hlt hrecBack fuel (by omega)
      (F.link_symm _ _ (R.wired i hlt)) (hback.send_response hlt hrecBack) hback.decHopPtr
    refine ⟨smp', ?_, hzero⟩
    rw [Fabric.sendFrom, List.range_succ_eq_map]
    simp [hsend, hlink, hback.forward_response hi hrecBack, hrest]

/-- The request goes along the route, is handed to the last node, which has a `process_mad`, with
the ports of arrival in its return path, and the response goes back over the same nodes to the first
one. No path is read or written outside. -/
theorem dr_smp_round_trip (R : Route F) (hprocess : (F.node (R.nodes R.hopCnt)).processMad)
    (returnPath : Path) (extra : Nat) :
    ∃ smp₁ smp₂,
      F.sendFrom (R.hopCnt + extra) (R.nodes 0) (R.initialPath 1) (R.request returnPath) =
        some (R.hops, .handed (R.nodes R.hopCnt) (R.arrival R.hopCnt) smp₁) ∧
      (∀ i, 1 ≤ i → i ≤ R.hopCnt → smp₁.returnPath i = R.arrival i) ∧
      F.sendFrom (R.hopCnt + extra) (R.nodes R.hopCnt) (R.arrival R.hopCnt)
          { smp₁ with direction := true } =
        some (R.hopsBack, .handed (R.nodes 0) (R.initialPath 1) smp₂) ∧
      smp₂.hopPtr = 0 := by
  have hpos := R.hopCnt_pos
  have hrec : R.Recorded 0 (R.request returnPath) := fun i h1 h2 => by omega
  obtain ⟨smp₁, hout, hat, hall⟩ := (request_atHop returnPath).request_delivered (R.hopCnt - 1)
    (by omega) hprocess hrec (R.hopCnt + extra) (by omega)
  have hlast : R.hopCnt - 1 + 1 = R.hopCnt := by omega
  have hresp : R.AtHop true (R.hopCnt - 1 + 2) { smp₁ with direction := true } := by
    have heq : R.hopCnt - 1 + 2 = R.hopCnt + 1 := by omega
    exact heq ▸ hat.respond
  obtain ⟨smp₂, hback, hzero⟩ := hresp.response_delivered (by omega) hall (R.hopCnt + extra)
    (by omega)
  rw [hlast] at hback hout
  refine ⟨smp₁, smp₂, ?_, hall, hback, hzero⟩
  rw [hout, hops, List.range_eq_range']

/-- Port 1 of host 0 is wired to port 2 of switch 1, and port 3 of the switch to port 1 of host 2,
which has a `process_mad` or not. -/
def line (processMad : Bool) : Fabric Nat where
  node n :=
    { isSwitch := n = 1, physPortCnt := if n = 1 then 4 else 1, processMad := processMad || n != 2 }
  link
    | (0, 1) => some (1, 2)
    | (1, 2) => some (0, 1)
    | (1, 3) => some (2, 1)
    | (2, 1) => some (1, 3)
    | _ => none
  link_symm a b h := by
    split at h
    all_goals cases h
    all_goals rfl
  link_port a b h := by
    split at h
    all_goals cases h
    all_goals simp

/-- From one host to the other. -/
def lineRoute (processMad : Bool) : Route (line processMad) where
  hopCnt := 2
  hopCnt_pos := Nat.le_succ 1
  hopCnt_le := by decide
  initialPath i := if i = 1 then 1 else 3
  nodes i := i
  arrival i := if i = 1 then 2 else 1
  wired i hi := by
    obtain rfl | rfl : i = 0 ∨ i = 1 := by omega
    all_goals rfl
  switches i hi hlt := by
    obtain rfl : i = 1 := by omega
    rfl

theorem dr_smp_line_trip :
    ∃ smp₁ smp₂,
      (line true).sendFrom 2 0 1 ((lineRoute true).request fun _ => 0) =
        some ([(0, 1), (1, 3)], .handed 2 1 smp₁) ∧
      (∀ i, 1 ≤ i → i ≤ 2 → smp₁.returnPath i = if i = 1 then 2 else 1) ∧
      (line true).sendFrom 2 2 1 { smp₁ with direction := true } =
        some ([(2, 1), (1, 2)], .handed 0 1 smp₂) ∧
      smp₂.hopPtr = 0 :=
  (lineRoute true).dr_smp_round_trip rfl (fun _ => 0) 0

/-- A last node without a `process_mad` is not handed the request. -/
theorem not_every_route_delivers :
    ¬∀ (ν : Type) (F : Fabric ν) (R : Route F) (returnPath : Path) (extra : Nat), ∃ hops smp,
      F.sendFrom (R.hopCnt + extra) (R.nodes 0) (R.initialPath 1) (R.request returnPath) =
        some (hops, .handed (R.nodes R.hopCnt) (R.arrival R.hopCnt) smp) := by
  intro h
  obtain ⟨hops, smp, hdelivered⟩ := h Nat (line false) (lineRoute false) (fun _ => 0) 0
  have hlost : (line false).sendFrom 2 0 1 ((lineRoute false).request fun _ => 0) =
      some ([(0, 1), (1, 3)], .lost) := rfl
  cases hlost.symm.trans hdelivered

end Route

end Smi
