-- SUMMARY: RDMA READ/WRITE contexts (`rw.c`).
import Mathlib.Data.List.Basic
import OfaKernel.Lib.CInt

/-!
# RDMA READ/WRITE contexts

`rdma_rw_ctx_init` prepares work requests for a mapped scatterlist. They lie in the context and
are chained by `next` pointers, which `rdma_rw_ctx_wrs` completes. The driver's `map_mr_sg` is a
parameter. The model is the build without `HAVE_PCI_P2PDMA_H`.
-/

namespace RdmaRw

/-! ## Data -/

/-- The DMA address and length of an entry of a scatterlist. -/
structure Sg where
  addr : Nat
  len : Nat
  deriving Repr, DecidableEq

/-- `struct ib_mr`; `segs` is the memory that the driver has mapped to it. -/
structure Mr where
  id : Nat
  lkey : Nat
  rkey : Nat
  iova : Nat
  length : Nat
  needInval : Bool
  segs : List Sg
  deriving Repr, DecidableEq

inductive Opcode where
  | none
  | localInv
  | regMr
  | regSigMr
  | rdmaWrite
  | rdmaRead
  | rdmaReadWithInv
  deriving Repr, DecidableEq

inductive Dir where
  | toDevice
  | fromDevice
  deriving Repr, DecidableEq

/-- The registrations of a context: `ctx->reg[i]`, `ctx->sig->data` and `ctx->sig->prot`. -/
inductive Slot where
  | op (i : Nat)
  | data
  | prot
  deriving Repr, DecidableEq

/-- The work requests a `next` pointer may point to. -/
inductive WrId where
  | single
  | map (i : Nat)
  | inv (slot : Slot)
  | reg (slot : Slot)
  | rdma (slot : Slot)
  | sigInv
  | sig
  /-- The request of the caller. -/
  | chain
  deriving Repr, DecidableEq

/-- What `sg_list` points to. -/
inductive SgePtr where
  | none
  | single
  | map (start : Nat)
  | slot (slot : Slot)
  | sig
  deriving Repr, DecidableEq

structure Sge where
  addr : Nat := 0
  length : Nat := 0
  lkey : Nat := 0
  deriving Repr, DecidableEq

/-- `struct ib_send_wr` with the fields of `ib_rdma_wr`, `ib_reg_wr` and `ib_sig_handover_wr`. -/
structure SendWr where
  next : Option WrId := none
  opcode : Opcode := .none
  wrCqe : Option Nat := none
  signaled : Bool := false
  sgList : SgePtr := .none
  numSge : Nat := 0
  invalidateRkey : Nat := 0
  remoteAddr : Nat := 0
  rkey : Nat := 0
  /-- The memory region of a registration. -/
  mr : Option Nat := none
  key : Nat := 0
  access : Nat := 0
  prot : SgePtr := .none
  deriving Repr, DecidableEq

/-- `struct rdma_rw_reg_ctx`. -/
structure RegCtx where
  sge : Sge := {}
  wr : SendWr := {}
  regWr : SendWr := {}
  invWr : SendWr := {}
  mr : Option Mr := none

inductive CtxType where
  | singleWr
  | multiWr
  | mr
  | sigMr
  deriving Repr, DecidableEq

/-- `struct rdma_rw_ctx`. -/
structure Ctx where
  nrOps : Nat := 0
  type : CtxType := .singleWr
  singleSge : Sge := {}
  singleWr : SendWr := {}
  sges : List Sge := []
  wrs : List SendWr := []
  reg : Nat → RegCtx := fun _ => {}
  data : RegCtx := {}
  prot : RegCtx := {}
  sigInvWr : SendWr := {}
  sigMr : Option Mr := none
  sigSge : Sge := {}
  sigWr : SendWr := {}

/-- What the functions read of the queue pair, its port and device. -/
structure Qp where
  /-- `rdma_protocol_iwarp`. -/
  iwarp : Bool
  capReadInv : Bool
  forceMr : Bool
  maxFastRegPageListLen : Nat
  maxWriteSge : Nat
  maxReadSge : Nat
  localDmaLkey : Nat

/-- A scatterlist of a call. -/
inductive SgList where
  | data
  | prot
  deriving Repr, DecidableEq

/-- `ib_dma_map_sg` that succeeds, or `ib_dma_unmap_sg`, from an entry of a list on. -/
inductive DmaCall where
  | map (list : SgList) (start nents : Nat)
  | unmap (list : SgList) (start nents : Nat)
  deriving Repr, DecidableEq

/-- The pools of memory regions, and the mappings made and undone so far. -/
structure State where
  rdmaMrs : List Mr
  sigMrs : List Mr
  mrsUsed : Int
  dma : List DmaCall

/-- What `map_mr_sg` of the driver sets in the memory region, and its return value. -/
structure MapOut where
  ret : Int
  iova : Nat
  length : Nat
  segs : List Sg
  deriving Repr, DecidableEq

/-- The driver's `map_mr_sg`, which gets the region, the entries, their number and the offset, and
whether memory is allocated. -/
structure Env where
  mapMrSg : Mr → List Sg → Nat → Nat → MapOut
  allocReg : Bool
  allocSges : Bool
  allocWrs : Bool
  allocSig : Bool

def EIO : Int := 5
def EAGAIN : Int := 11
def ENOMEM : Int := 12
def EINVAL : Int := 22

/-! ## Memory regions -/

/-- `ib_mr_pool_get` on `rdma_mrs`. -/
def State.getMr (s : State) : Option (Mr × State) :=
  match s.rdmaMrs with
  | [] => none
  | mr :: mrs => some (mr, { s with rdmaMrs := mrs, mrsUsed := s.mrsUsed + 1 })

/-- `ib_mr_pool_put` on `rdma_mrs`. -/
def State.putMr (s : State) : Option Mr → State
  | none => s
  | some mr => { s with rdmaMrs := mr :: s.rdmaMrs, mrsUsed := s.mrsUsed - 1 }

def State.getSigMr (s : State) : Option (Mr × State) :=
  match s.sigMrs with
  | [] => none
  | mr :: mrs => some (mr, { s with sigMrs := mrs, mrsUsed := s.mrsUsed + 1 })

def State.putSigMr (s : State) : Option Mr → State
  | none => s
  | some mr => { s with sigMrs := mr :: s.sigMrs, mrsUsed := s.mrsUsed - 1 }

def State.log (s : State) (call : DmaCall) : State := { s with dma := s.dma ++ [call] }

def Qp.frPageListLen (qp : Qp) : Nat := min qp.maxFastRegPageListLen 256

def Qp.ioNeedsMr (qp : Qp) (dir : Dir) : Bool :=
  (qp.iwarp && dir == .fromDevice) || qp.forceMr

def Qp.maxSge (qp : Qp) (dir : Dir) : Nat :=
  if dir = .toDevice then qp.maxWriteSge else qp.maxReadSge

/-- `rdma_rw_init_one_mr`: the return value, the registration and the pools after it. -/
def initOneMr (env : Env) (qp : Qp) (slot : Slot) (reg : RegCtx) (sg : List Sg) (sgCnt offset : Nat)
    (s : State) : Int × RegCtx × State :=
  let nents := min sgCnt qp.frPageListLen
  match s.getMr with
  | none => (-EAGAIN, { reg with mr := none }, s)
  | some (mr, s) =>
    let reg := { reg with
      mr := some mr
      invWr := if mr.needInval then
          { reg.invWr with
            opcode := .localInv, invalidateRkey := mr.lkey, next := some (.reg slot) }
        else { reg.invWr with next := none } }
    let count : Int := if mr.needInval then 1 else 0
    let out := env.mapMrSg mr sg nents offset
    let mr := { mr with iova := out.iova, length := out.length, segs := out.segs }
    let reg := { reg with mr := some mr }
    if out.ret < 0 ∨ out.ret < nents then (-EINVAL, reg, s.putMr (some mr))
    else
      let access := if qp.iwarp then 1 ||| 2 else 1
      (count + 1,
        { reg with
          regWr := { reg.regWr with opcode := .regMr, mr := some mr.id, access := access }
          sge := { reg.sge with addr := mr.iova, length := U32.wrap mr.length } }, s)

/-- The request to invalidate, if there is one, or else to register. -/
def firstWr (slot : Slot) (reg : RegCtx) : WrId :=
  if reg.invWr.next.isSome then .inv slot else .reg slot

/-! ## `rdma_rw_init_mr_wrs` -/

structure MrLoop where
  sg : List Sg
  sgCnt : Nat
  offset : Nat
  remoteAddr : Nat
  reg : Nat → RegCtx
  count : Int
  s : State

/-- The opcode of a request through a memory region. -/
def mrOpcode (qp : Qp) (dir : Dir) : Opcode :=
  match dir with
  | .toDevice => .rdmaWrite
  | .fromDevice => if qp.capReadInv then .rdmaReadWithInv else .rdmaRead

/-- `reg->wr` of `rdma_rw_init_mr_wrs`. -/
def mrWr (qp : Qp) (dir : Dir) (i remoteAddr rkey : Nat) (reg : RegCtx) : SendWr :=
  let opcode := mrOpcode qp dir
  { reg.wr with
    sgList := .slot (.op i)
    numSge := 1
    remoteAddr := remoteAddr
    rkey := rkey
    opcode := opcode
    invalidateRkey := if opcode = .rdmaReadWithInv then (reg.mr.map Mr.lkey).getD 0
      else reg.wr.invalidateRkey }

/-- The request of the operation before `i` goes on to operation `i`. -/
def linkPrev (i : Nat) (reg : RegCtx) (regs : Nat → RegCtx) : Nat → RegCtx := fun j =>
  if j + 1 = i then
    { regs j with wr := { (regs j).wr with
        next := some (if (reg.mr.map Mr.needInval).getD false then .inv (.op i) else
          .reg (.op i)) } }
  else regs j

/-- The requests of operation `i`. -/
def chainOp (qp : Qp) (dir : Dir) (i remoteAddr rkey : Nat) (reg : RegCtx) : RegCtx :=
  { reg with
    regWr := { reg.regWr with next := some (.rdma (.op i)) }
    wr := mrWr qp dir i remoteAddr rkey reg }

/-- The loop of `rdma_rw_init_mr_wrs` with `n` operations left; on failure the index of the
operation that failed. -/
def mrLoop (env : Env) (qp : Qp) (dir : Dir) (rkey : Nat) :
    Nat → Nat → MrLoop → Option (Except (Nat × Int × (Nat → RegCtx) × State) MrLoop)
  | 0, _, l => some (.ok l)
  | n + 1, i, l =>
    let nents := min l.sgCnt qp.frPageListLen
    let (ret, reg, s) := initOneMr env qp (.op i) (l.reg i) l.sg l.sgCnt l.offset l.s
    if ret < 0 then some (.error (i, ret, Function.update l.reg i reg, s))
    else
      let regs := linkPrev i reg l.reg
      let reg := chainOp qp dir i l.remoteAddr rkey reg
      if nents ≤ l.sg.length then
        mrLoop env qp dir rkey n (i + 1)
          { sg := l.sg.drop nents
            sgCnt := l.sgCnt - nents
            offset := 0
            remoteAddr := (l.remoteAddr + reg.sge.length) % 2 ^ 64
            reg := Function.update regs i reg
            count := l.count + ret + 1
            s := s }
      else none

/-- `while (--i >= 0) ib_mr_pool_put(...)`. -/
def putMrs (reg : Nat → RegCtx) : Nat → State → State
  | 0, s => s
  | i + 1, s => putMrs reg i (s.putMr (reg i).mr)

def initMrWrs (env : Env) (qp : Qp) (ctx : Ctx) (sg : List Sg) (sgCnt offset remoteAddr rkey : Nat)
    (dir : Dir) (s : State) : Option (Int × Ctx × State) :=
  let pagesPerMr := qp.frPageListLen
  if pagesPerMr = 0 then none
  else
    let nrOps := U32.wrap (sgCnt + pagesPerMr - 1) / pagesPerMr
    let ctx := { ctx with nrOps := nrOps }
    if ¬ env.allocReg then some (-ENOMEM, ctx, s)
    else
      (mrLoop env qp dir rkey nrOps 0
          { sg := sg, sgCnt := sgCnt, offset := offset, remoteAddr := remoteAddr
            reg := fun _ => {}, count := 0, s := s }).map fun
        | .error (i, ret, reg, s) => (ret, ctx, putMrs reg i s)
        | .ok l =>
          let reg := fun i =>
            if i + 1 = nrOps then { l.reg i with wr := { (l.reg i).wr with next := none } }
            else l.reg i
          (l.count, { ctx with reg := reg, type := .mr }, l.s)

structure MapLoop where
  sg : List Sg
  sgCnt : Nat
  offset : Nat
  totalLen : Nat
  sges : List Sge

/-- The inner loop, for `n` entries. -/
def fillSges (lkey : Nat) : Nat → MapLoop → Option MapLoop
  | 0, l => some l
  | n + 1, l =>
    match l.sg with
    | [] => none
    | sg :: rest =>
      let length := U32.sub sg.len l.offset
      fillSges lkey n
        { sg := rest
          sgCnt := l.sgCnt - 1
          offset := 0
          totalLen := U32.wrap (l.totalLen + length)
          sges := l.sges ++
            [{ addr := (sg.addr + l.offset) % 2 ^ 64, length := length, lkey := lkey }] }

/-- An entry of `ctx->map.wrs`. -/
def mapWr (dir : Dir) (nrOps i remoteAddr rkey start nrSge : Nat) : SendWr where
  opcode := if dir = .toDevice then .rdmaWrite else .rdmaRead
  remoteAddr := remoteAddr
  rkey := rkey
  numSge := nrSge
  sgList := .map start
  next := if i + 1 < nrOps then some (.map (i + 1)) else none

/-- The outer loop, with `n` operations left. -/
def mapLoop (qp : Qp) (dir : Dir) (nrOps remoteAddr rkey : Nat) :
    Nat → Nat → MapLoop → Option (List SendWr × MapLoop)
  | 0, _, l => some ([], l)
  | n + 1, i, l =>
    let nrSge := min l.sgCnt (qp.maxSge dir)
    let wr := mapWr dir nrOps i ((remoteAddr + l.totalLen) % 2 ^ 64) rkey l.sges.length nrSge
    (fillSges qp.localDmaLkey nrSge l).bind fun l =>
      (mapLoop qp dir nrOps remoteAddr rkey n (i + 1) l).map fun r => (wr :: r.1, r.2)

def initMapWrs (env : Env) (qp : Qp) (ctx : Ctx) (sg : List Sg) (sgCnt offset remoteAddr rkey : Nat)
    (dir : Dir) : Option (Int × Ctx) :=
  let maxSge := qp.maxSge dir
  if maxSge = 0 then none
  else
    let nrOps := U32.wrap (sgCnt + maxSge - 1) / maxSge
    let ctx := { ctx with nrOps := nrOps }
    if ¬ env.allocSges ∨ ¬ env.allocWrs then some (-ENOMEM, ctx)
    else
      (mapLoop qp dir nrOps remoteAddr rkey nrOps 0
          { sg := sg, sgCnt := sgCnt, offset := offset, totalLen := 0, sges := [] }).map fun r =>
        (nrOps, { ctx with wrs := r.1, sges := r.2.sges, type := .multiWr })

def initSingleWr (qp : Qp) (ctx : Ctx) (sg : Sg) (offset remoteAddr rkey : Nat)
    (dir : Dir) : Int × Ctx :=
  (1, { ctx with
    nrOps := 1
    singleSge := { addr := (sg.addr + offset) % 2 ^ 64, length := U32.sub sg.len offset,
                   lkey := qp.localDmaLkey }
    singleWr :=
      { opcode := if dir = .toDevice then .rdmaWrite else .rdmaRead
        sgList := .single
        numSge := 1
        remoteAddr := remoteAddr
        rkey := rkey }
    type := .singleWr })

/-- The loop that skips to the entry of the offset: the entries left, `sg_cnt`, `sg_offset` and
the number skipped. -/
def skipEntries : List Sg → Nat → Nat → Nat → Option (List Sg × Nat × Nat × Nat)
  | [], _, _, _ => none
  | sg :: rest, sgCnt, offset, skipped =>
    if offset < sg.len then some (sg :: rest, sgCnt, offset, skipped)
    else skipEntries rest (U32.dec sgCnt) (offset - sg.len) (skipped + 1)

/-- A scatterlist with the fields that `ib_dma_map_sg` has set in its first `mapped` entries; zero
is its failure. -/
structure Table where
  entries : List Sg
  nents : Nat
  mapped : Nat

/-- The strategies of `rdma_rw_ctx_init`, from the entry of the offset on. -/
def initWrs (env : Env) (qp : Qp) (ctx : Ctx) (sg : List Sg) (sgCnt offset remoteAddr rkey : Nat)
    (dir : Dir) (s : State) : Option (Int × Ctx × State) :=
  if sgCnt = 0 then some (- EIO, ctx, s)
  else if qp.ioNeedsMr dir then initMrWrs env qp ctx sg sgCnt offset remoteAddr rkey dir s
  else if sgCnt > 1 then
    (initMapWrs env qp ctx sg sgCnt offset remoteAddr rkey dir).map fun r => (r.1, r.2, s)
  else
    sg.head?.map fun e =>
      let r := initSingleWr qp ctx e offset remoteAddr rkey dir
      (r.1, r.2, s)

/-- `rdma_rw_ctx_init`: `none` when the offset lies beyond the list. -/
def ctxInit (env : Env) (qp : Qp) (ctx : Ctx) (t : Table) (offset remoteAddr rkey : Nat) (dir : Dir)
    (s : State) : Option (Int × Ctx × State) :=
  if t.mapped = 0 then some (-ENOMEM, ctx, s)
  else
    (skipEntries t.entries t.mapped offset 0).bind fun (sg, sgCnt, offset, skipped) =>
      (initWrs env qp ctx sg sgCnt offset remoteAddr rkey dir (s.log (.map .data 0 t.nents))).map
        fun (ret, ctx, s) =>
          if ret < 0 then (ret, ctx, s.log (.unmap .data skipped sgCnt)) else (ret, ctx, s)

/-- The requests of `ctx->sig`: the count and the context. `counted` is what the two registrations
have added to it. -/
def sigWrs (ctx : Ctx) (data prot : RegCtx) (sigMr : Mr) (counted : Int) (sigTypeNone : Bool)
    (remoteAddr rkey : Nat) (dir : Dir) : Int × Ctx :=
  let data := { data with regWr := { data.regWr with next := some (firstWr .prot prot) } }
  -- the request before the signature's
  let prot := { prot with regWr := { prot.regWr with
    next := some (if sigMr.needInval then .sigInv else .sig) } }
  let sigInvWr : SendWr :=
    if sigMr.needInval then
      { opcode := .localInv, invalidateRkey := sigMr.rkey, next := some .sig }
    else ctx.sigInvWr
  let sigWr : SendWr :=
    { opcode := .regSigMr, wrCqe := none, sgList := .slot .data, numSge := 1, access := 1
      mr := some sigMr.id, prot := .slot .prot, next := some (.rdma .data) }
  let length := U32.wrap (data.sge.length + if sigTypeNone then 0 else prot.sge.length)
  let data := { data with wr := { data.wr with
    sgList := .sig, numSge := 1, remoteAddr := remoteAddr, rkey := rkey
    opcode := if dir = .toDevice then .rdmaWrite else .rdmaRead } }
  (counted + 1 + 1,
    { ctx with
      data := data, prot := prot, sigMr := some sigMr, sigInvWr := sigInvWr, sigWr := sigWr
      sigSge := { ctx.sigSge with addr := 0, length := length } })

def ctxSignatureInit (env : Env) (qp : Qp) (ctx : Ctx) (t prot : Table) (sigTypeNone : Bool)
    (remoteAddr rkey : Nat) (dir : Dir) (s : State) : Int × Ctx × State :=
  let pagesPerMr := qp.frPageListLen
  if t.nents > pagesPerMr ∨ prot.nents > pagesPerMr then (-EINVAL, ctx, s)
  else if t.mapped = 0 then (-ENOMEM, ctx, s)
  else
    let s := s.log (.map .data 0 t.nents)
    let unmapSg := fun s : State => s.log (.unmap .data 0 t.mapped)
    if prot.mapped = 0 then (-ENOMEM, ctx, unmapSg s)
    else
      let s := s.log (.map .prot 0 prot.nents)
      let unmapProtSg := fun s : State => unmapSg (s.log (.unmap .prot 0 prot.mapped))
      let ctx := { ctx with type := .sigMr, nrOps := 1 }
      if ¬ env.allocSig then (-ENOMEM, ctx, unmapProtSg s)
      else
        -- `kcalloc` of `ctx->sig`
        let ctx := { ctx with
          data := {}, prot := {}, sigInvWr := {}, sigMr := none, sigSge := {}, sigWr := {} }
        let (ret, data, s) := initOneMr env qp .data ctx.data t.entries t.mapped 0 s
        if ret < 0 then (ret, ctx, unmapProtSg s)
        else
          let count := ret
          let (ret, protReg, s) := initOneMr env qp .prot ctx.prot prot.entries prot.mapped 0 s
          if ret < 0 then (ret, ctx, unmapProtSg (s.putMr data.mr))
          else
            let count := count + ret
            match s.getSigMr with
            | none => (-EAGAIN, ctx, unmapProtSg ((s.putMr protReg.mr).putMr data.mr))
            | some (sigMr, s) =>
              let r := sigWrs ctx data protReg sigMr count sigTypeNone remoteAddr rkey dir
              (r.1, r.2, s)

def incRkey (rkey : Nat) : Nat := ((rkey + 1) &&& 0xff) ||| (rkey &&& 0xffffff00)

def Mr.updateKey (mr : Mr) (newkey : Nat) : Mr :=
  { mr with
    lkey := (mr.lkey &&& 0xffffff00) ||| (newkey &&& 0xff)
    rkey := (mr.rkey &&& 0xffffff00) ||| (newkey &&& 0xff) }

def RegCtx.updateLkey (reg : RegCtx) (needInval : Bool) : RegCtx :=
  match reg.mr with
  | none => reg
  | some mr =>
    let mr := { mr with needInval := needInval }
    let mr := mr.updateKey (incRkey mr.lkey)
    { reg with
      mr := some mr, regWr := { reg.regWr with key := mr.lkey }
      sge := { reg.sge with lkey := mr.lkey } }

/-- The end of `rdma_rw_ctx_wrs` for the last request. -/
def SendWr.finish (wr : SendWr) (cqe : Option Nat) (chainWr : Bool) : SendWr :=
  if chainWr then { wr with next := some .chain } else { wr with wrCqe := cqe, signaled := true }

/-- `rdma_rw_ctx_wrs`: the first request, and the context after the call. -/
def ctxWrs (ctx : Ctx) (cqe : Option Nat) (chainWr : Bool) : WrId × Ctx :=
  match ctx.type with
  | .sigMr =>
    let data := ctx.data.updateLkey true
    let prot := ctx.prot.updateLkey true
    let sigMr := ctx.sigMr.map fun mr =>
      let mr := { mr with needInval := true }
      mr.updateKey (incRkey mr.lkey)
    let sigSge := { ctx.sigSge with lkey := (sigMr.map Mr.lkey).getD 0 }
    (firstWr .data data,
      { ctx with
        data := { data with wr := data.wr.finish cqe chainWr }
        prot := prot, sigMr := sigMr, sigSge := sigSge })
  | .mr =>
    let reg := fun i =>
      if i < ctx.nrOps then
        (ctx.reg i).updateLkey ((ctx.reg i).wr.opcode ≠ .rdmaReadWithInv)
      else ctx.reg i
    (firstWr (.op 0) (reg 0),
      { ctx with reg := fun i =>
          if i + 1 = ctx.nrOps then { reg i with wr := (reg i).wr.finish cqe chainWr } else reg i })
  | .multiWr =>
    (.map 0, { ctx with wrs := ctx.wrs.modify (ctx.nrOps - 1) (·.finish cqe chainWr) })
  | .singleWr => (.single, { ctx with singleWr := ctx.singleWr.finish cqe chainWr })

/-- `rdma_rw_ctx_destroy`, for a list of `nents` entries. -/
def ctxDestroy (ctx : Ctx) (nents : Nat) (s : State) : State :=
  let s := match ctx.type with
    | .mr => (List.range ctx.nrOps).foldl (fun (s : State) i => s.putMr (ctx.reg i).mr) s
    | _ => s
  s.log (.unmap .data 0 nents)

def ctxDestroySignature (ctx : Ctx) (nents protNents : Nat) (s : State) : State :=
  if ctx.type ≠ .sigMr then s
  else
    let s := (s.putMr ctx.data.mr).log (.unmap .data 0 nents)
    let s := if ctx.prot.mr.isSome then
        (s.putMr ctx.prot.mr).log (.unmap .prot 0 protNents)
      else s
    s.putSigMr ctx.sigMr

end RdmaRw
