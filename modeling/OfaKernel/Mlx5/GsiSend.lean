-- SUMMARY: Sends on the mlx5 general services QP.
import OfaKernel.Mlx5.PageAlloc

/-!
# Sending on the GSI queue pair

A request goes to the transmit QP of its P_Key, or is dropped where there is none. A ring of
outstanding requests puts the completions back in the order of the posts; its indices run freely
over 32 bits.
-/

namespace Mlx5

inductive SigType
  | allWr
  | reqWr
deriving DecidableEq

def sendSignaled : Nat := 2

def wcSuccess : Nat := 0

def wcSend : Nat := 0

def wcWrFlushErr : Nat := 5

/-- The queue pairs that completions and posts name. -/
inductive GsiQpName
  | gsi
  | rx
  | tx (index : Nat)
deriving DecidableEq

structure Wc where
  wrId : Nat
  status : Nat
  opcode : Nat
  qp : Option GsiQpName
  pkeyIndex : Nat

/-- `struct mlx5_ib_gsi_wr`, with its `struct mlx5_ib_wc`. -/
structure GsiWr where
  wc : Wc
  inUse : Bool
  sendFlags : Nat
  completed : Bool

structure UdWr where
  wrId : Nat
  pkeyIndex : Nat
  sendFlags : Nat

/-- `struct mlx5_ib_gsi_qp`; `wcList` holds the entries that are on the soft completion list
of the user's send CQ. -/
structure GsiQp where
  dethSqpnCap : Bool
  numQps : Nat
  txQps : Nat → Bool
  maxSendWr : Nat
  sqSigType : SigType
  outstandingWrs : Nat → GsiWr
  outstandingPi : Nat
  outstandingCi : Nat
  wcList : List Nat

def zeroWc : Wc := ⟨0, 0, 0, none, 0⟩

def gsiCreateQp (dethSqpnCap : Bool) (maxPkeys maxSendWr : Nat) (sqSigType : SigType) : GsiQp where
  dethSqpnCap := dethSqpnCap
  numQps := if dethSqpnCap then maxPkeys else 0
  txQps := fun _ => false
  maxSendWr := maxSendWr
  sqSigType := sqSigType
  outstandingWrs := fun _ => ⟨zeroWc, false, 0, false⟩
  outstandingPi := 0
  outstandingCi := 0
  wcList := []

namespace GsiQp

def setWr (g : GsiQp) (i : Nat) (wr : GsiWr) : GsiQp :=
  { g with outstandingWrs := Function.update g.outstandingWrs i wr }

/-- `mlx5_ib_generate_wc` on entry `i` of the ring. -/
def generateWc (g : GsiQp) (i : Nat) : GsiQp :=
  { g.setWr i { g.outstandingWrs i with inUse := true } with wcList := g.wcList ++ [i] }

/-- `wr->completed = false`. -/
def clearCompleted (g : GsiQp) (i : Nat) : GsiQp :=
  g.setWr i { g.outstandingWrs i with completed := false }

end GsiQp

/-- The loop of `generate_completions`, with `n` indices up to `outstanding_pi`. -/
def generateLoop : Nat → Nat → GsiQp → GsiQp
  | 0, index, g => { g with outstandingCi := index }
  | n + 1, index, g =>
    let i := index % g.maxSendWr
    let wr := g.outstandingWrs i
    if wr.completed then
      let g :=
        if g.sqSigType = .allWr ∨ wr.sendFlags &&& sendSignaled ≠ 0 then g.generateWc i else g
      generateLoop n (U32.inc index) (g.clearCompleted i)
    else { g with outstandingCi := index }

def generateCompletions (g : GsiQp) : GsiQp :=
  generateLoop (U32.sub g.outstandingPi g.outstandingCi) g.outstandingCi g

def handleSingleCompletion (g : GsiQp) (i : Nat) (wc : Wc) : GsiQp :=
  let wr := g.outstandingWrs i
  generateCompletions <| g.setWr i
    { wr with completed := true, wc := { wc with wrId := wr.wc.wrId, qp := some .gsi } }

/-- `mlx5_ib_add_outstanding_wr`: the entry of the ring that the request gets. -/
def addOutstandingWr (g : GsiQp) (wr : UdWr) (wc : Option Wc) : Except Int (GsiQp × Nat) :=
  if g.outstandingPi = U32.wrap (g.outstandingCi + g.maxSendWr) then .error errNOMEM
  else
    let i := g.outstandingPi % g.maxSendWr
    let gsiWr := g.outstandingWrs i
    if gsiWr.inUse then .error errNOMEM
    else
      let g := { g with outstandingPi := U32.inc g.outstandingPi }
      match wc with
      | none =>
        .ok (g.setWr i
          { gsiWr with wc := { zeroWc with pkeyIndex := wr.pkeyIndex, wrId := wr.wrId } }, i)
      | some wc => .ok (g.setWr i { gsiWr with wc, completed := true }, i)

def gsiSilentDrop (g : GsiQp) (wr : UdWr) : Except Int GsiQp :=
  match addOutstandingWr g wr (some ⟨wr.wrId, wcSuccess, wcSend, some .gsi, 0⟩) with
  | .error ret => .error ret
  | .ok (g, _) => .ok (generateCompletions g)

def getTxQp (g : GsiQp) (wr : UdWr) : Option GsiQpName :=
  if g.dethSqpnCap = false then some .rx
  else if g.numQps ≤ wr.pkeyIndex then none
  else if g.txQps wr.pkeyIndex then some (.tx wr.pkeyIndex)
  else none

def GsiQp.undoAdd (g : GsiQp) : GsiQp :=
  { g with outstandingPi := U32.sub g.outstandingPi 1 % g.maxSendWr }

/-- One round of `mlx5_ib_gsi_post_send`, where `ib_post_send` would return `lower`: `ret`, and
the ring entry taken. -/
def gsiPostOne (g : GsiQp) (wr : UdWr) (lower : Int) : GsiQp × Int × Option Nat :=
  match getTxQp g wr with
  | none =>
    match gsiSilentDrop g wr with
    | .error ret => (g, ret, none)
    | .ok g => (g, 0, none)
  | some _ =>
    match addOutstandingWr g wr none with
    | .error ret => (g, ret, none)
    | .ok (g, i) =>
      if lower = 0 then (g, 0, some i) else (g.undoAdd, lower, none)

/-- `mlx5_ib_gsi_post_send`, each request with what `ib_post_send` would return: the value, the
entries taken, and the requests from `*bad_wr` on. -/
def gsiPostSend (g : GsiQp) : List (UdWr × Int) → GsiQp × Int × List Nat × List (UdWr × Int)
  | [] => (g, 0, [], [])
  | (wr, lower) :: rest =>
    match gsiPostOne g wr lower with
    | (g, ret, taken) =>
      if ret = 0 then
        match gsiPostSend g rest with
        | (g, ret, more, bad) => (g, ret, taken.toList ++ more, bad)
      else (g, ret, [], (wr, lower) :: rest)

def pollSoftWc (fatal : Bool) : Nat → GsiQp → GsiQp × List Wc
  | 0, g => (g, [])
  | n + 1, g =>
    match g.wcList with
    | [] => (g, [])
    | i :: rest =>
      let wr := g.outstandingWrs i
      let wc := if fatal then { wr.wc with status := wcWrFlushErr } else wr.wc
      match pollSoftWc fatal n { g.setWr i { wr with wc, inUse := false } with wcList := rest } with
      | (g, wcs) => (g, wc :: wcs)

/-! ## The system -/

/-- The queue pair, the entries of the ring whose requests transmit QPs hold, what was
accepted and what the user has polled so far. -/
structure GsiRun where
  gsi : GsiQp
  posted : List Nat
  accepted : List UdWr
  delivered : List Wc

inductive GsiAct
  | setupQp (index : Nat)
  | postSend (wr : UdWr) (lower : Int)
  | complete (i : Nat) (wc : Wc)
  | poll (numEntries : Nat) (fatal : Bool)

namespace GsiRun

def start (g : GsiQp) : GsiRun := ⟨g, [], [], []⟩

def step (s : GsiRun) : GsiAct → GsiRun
  | .setupQp index => { s with gsi :=
      { s.gsi with txQps := Function.update s.gsi.txQps index true } }
  | .postSend wr lower =>
    match gsiPostOne s.gsi wr lower with
    | (g, ret, taken) =>
      { s with
        gsi := g
        posted := s.posted ++ taken.toList
        accepted := if ret = 0 then s.accepted ++ [wr] else s.accepted }
  | .complete i wc =>
    { s with gsi := handleSingleCompletion s.gsi i wc, posted := s.posted.erase i }
  | .poll n fatal =>
    match pollSoftWc fatal n s.gsi with
    | (g, wcs) => { s with gsi := g, delivered := s.delivered ++ wcs }

/-- A transmit QP completes a request that it holds. -/
def Valid (s : GsiRun) : GsiAct → Prop
  | .complete i _ => i ∈ s.posted
  | _ => True

instance (s : GsiRun) : (a : GsiAct) → Decidable (s.Valid a)
  | .setupQp _ => .isTrue trivial
  | .postSend _ _ => .isTrue trivial
  | .complete i _ => inferInstanceAs (Decidable (i ∈ s.posted))
  | .poll _ _ => .isTrue trivial

end GsiRun

end Mlx5
