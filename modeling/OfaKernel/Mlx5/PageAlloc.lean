-- SUMMARY: The mlx5 firmware page pool.
import OfaKernel.Lib.Bitmap
import OfaKernel.Lib.CInt
import OfaKernel.Lib.SearchTree

/-!
# Firmware pages

Memory is handed to firmware in chunks of 4K, cut from system pages. A `struct fw_page` is named
by its address, which is what the tree finds it by. Whether an allocation succeeds, what the DMA
layer answers and how firmware replies is passed in.
-/

namespace Mlx5

/-! ## Pages -/

/-- The host's page size: `PAGE_SHIFT`, for at most 64 chunks in a page. -/
structure PageGeometry where
  pageShift : Nat
  shift_ge : 12 ≤ pageShift
  shift_le : pageShift ≤ 18

def adapterPageSize : Nat := 4096

namespace PageGeometry

def pageSize (g : PageGeometry) : Nat := 2 ^ g.pageShift

def num4kInPage (g : PageGeometry) : Nat := g.pageSize / adapterPageSize

/-- `addr & MLX5_U64_4K_PAGE_MASK`. -/
def pageOf (g : PageGeometry) (addr : Nat) : Nat := addr / g.pageSize * g.pageSize

/-- `(addr & ~MLX5_U64_4K_PAGE_MASK) >> MLX5_ADAPTER_PAGE_SHIFT`. -/
def indexOf (g : PageGeometry) (addr : Nat) : Nat := addr % g.pageSize / adapterPageSize

end PageGeometry

/-- `struct fw_page`, its address apart. -/
structure FwPage where
  funcId : Nat
  bitmask : Bitmap
  freeCount : Nat

/-- Chunk `n` is taken from the page. -/
def FwPage.take (p : FwPage) (n : Nat) : FwPage :=
  ⟨p.funcId, p.bitmask.clearBit n, p.freeCount - 1⟩

/-- Chunk `n` comes back to the page. -/
def FwPage.put (p : FwPage) (n : Nat) : FwPage :=
  ⟨p.funcId, p.bitmask.setBit n, p.freeCount + 1⟩

/-- The page pool in `struct mlx5_priv`, with the state of the device. -/
structure PagePool where
  pageRoot : SearchTree Nat
  page : Nat → FwPage
  freeList : List Nat
  fwPages : Int
  vfsPages : Int
  peerPfPages : Int
  internalError : Bool

namespace PagePool

def init : PagePool where
  pageRoot := .leaf
  page := fun _ => ⟨0, Bitmap.zero, 0⟩
  freeList := []
  fwPages := 0
  vfsPages := 0
  peerPfPages := 0
  internalError := false

end PagePool

def errNOMEM : Int := -12

def errEXIST : Int := -17

def errNOENT : Int := -2

def errINVAL : Int := -22

section

variable (rb : SearchTree.Rebalance Nat) (g : PageGeometry)

def insertPage (s : PagePool) (kzalloc : Bool) (addr funcId : Nat) : Except Int PagePool :=
  match s.pageRoot.insertLeaf addr with
  | none => .error errEXIST
  | some tree =>
    if kzalloc then
      .ok { s with
        pageRoot := rb.insertColor tree
        page := Function.update s.page addr
          ⟨funcId, Bitmap.zero.setRange 0 g.num4kInPage, g.num4kInPage⟩
        freeList := addr :: s.freeList }
    else .error errNOMEM

def findFwPage (s : PagePool) (addr : Nat) : Option Nat := s.pageRoot.find? addr

def alloc4k (s : PagePool) : Except Int (PagePool × Nat) :=
  match s.freeList with
  | [] => .error errNOMEM
  | fp :: rest =>
    let n := (s.page fp).bitmask.findFirstBit 64
    if g.num4kInPage ≤ n then .error errNOENT
    else
      let p := (s.page fp).take n
      .ok ({ s with
        page := Function.update s.page fp p
        freeList := if p.freeCount = 0 then rest else s.freeList }, fp + n * adapterPageSize)

def free4k (s : PagePool) (addr : Nat) : Except Int PagePool :=
  match findFwPage s (g.pageOf addr) with
  | none => .error errNOMEM
  | some fwp =>
    let n := g.indexOf addr
    if (s.page fwp).bitmask n then .error errINVAL
    else
      let p := (s.page fwp).put n
      .ok { s with
        page := Function.update s.page fwp p
        freeList := if p.freeCount = 1 then fwp :: s.freeList else s.freeList }

/-- What happens while a system page is allocated: `dmaMapPage` lists the answers
of `dma_map_page`, page numbers of the bus or failures. -/
structure SysPageEnv where
  allocPagesNode : Bool
  dmaMapPage : List (Option Nat)
  kzalloc : Bool

/-- The address a page is mapped at. Address zero is not used, the page is mapped again. -/
def mapPage : List (Option Nat) → Option Nat
  | [] => none
  | none :: _ => none
  | some frame :: again =>
    if frame * g.pageSize = 0 then mapPage again else some (frame * g.pageSize)

def allocSystemPage (s : PagePool) (env : SysPageEnv) (funcId : Nat) : Except Int PagePool :=
  if env.allocPagesNode then
    match mapPage g env.dmaMapPage with
    | none => .error errNOMEM
    | some addr => insertPage rb g s env.kzalloc addr funcId
  else .error errNOMEM

/-! ## Giving pages -/

structure GiveIter where
  timeExceeded : Bool
  sysPages : List SysPageEnv

structure GiveEnv where
  kvzalloc : Bool
  iter : Nat → GiveIter
  /-- The result of the firmware command. -/
  cmdExec : Int

/-- From the label `retry` on: system pages are added until a chunk is found. -/
def alloc4kRetry (funcId : Nat) : List SysPageEnv → PagePool → PagePool × Except Int Nat
  | envs, s =>
    match alloc4k g s with
    | .ok (s', addr) => (s', .ok addr)
    | .error e =>
      if e = errNOMEM then
        match envs with
        | [] => (s, .error errNOMEM)
        | env :: envs =>
          match allocSystemPage rb g s env funcId with
          | .error e => (s, .error e)
          | .ok s' => alloc4kRetry funcId envs s'
      else (s, .error e)

/-- The loop of `give_pages`, with the addresses collected so far, the last one first. -/
def giveLoop (funcId : Nat) (env : GiveEnv) :
    Nat → Nat → PagePool → List Nat → PagePool × List Nat × Int
  | 0, _, s, pas => (s, pas, 0)
  | k + 1, i, s, pas =>
    if (env.iter i).timeExceeded then (s, pas, errNOMEM)
    else
      match alloc4kRetry rb g funcId (env.iter i).sysPages s with
      | (s, .ok addr) => giveLoop funcId env k (i + 1) s (addr :: pas)
      | (s, .error e) => (s, pas, e)

/-- The label `out_4k`: the chunks are freed again, the last one first. -/
def out4k (s : PagePool) (pas : List Nat) : PagePool :=
  pas.foldl (fun s addr => (free4k g s addr).toOption.getD s) s

/-- The counters after `n` pages of a function were given or, for a negative number,
taken back; `m` is the number that the counter of the peer function is changed by. -/
def PagePool.addPages (s : PagePool) (isEcpf : Bool) (funcId : Nat) (ecFunction : Bool)
    (n m : Int) : PagePool :=
  { s with
    fwPages := s.fwPages + n
    vfsPages := if funcId ≠ 0 then s.vfsPages + n else s.vfsPages
    peerPfPages :=
      if funcId = 0 ∧ isEcpf = true ∧ ecFunction = false then s.peerPfPages + m
      else s.peerPfPages }

/-- The result of `give_pages`: `given` are the addresses firmware took. -/
structure GiveResult where
  pool : PagePool
  err : Int
  given : List Nat
  /-- The command was written past the end of its buffer; what follows from that is not known. -/
  overrun : Bool

/-- The `int` with the length of the command of `give_pages`, and of the reply to that of
`reclaim_pages`: 16 bytes and `npages` addresses. -/
def pasLen (npages : Int) : Int := I32.wrap (16 + 8 * npages)

/-- `give_pages`. There is no buffer of a negative length. `notify_fail` only sends a message. -/
def givePages (isEcpf : Bool) (s : PagePool) (funcId : Nat) (npages : Int) (ecFunction : Bool)
    (env : GiveEnv) : GiveResult :=
  if env.kvzalloc ∧ 0 ≤ pasLen npages then
    let (s, pas, err) := giveLoop rb g funcId env npages.toNat 0 s []
    if (err = 0 ∨ pas ≠ []) ∧ pasLen npages < 16 + 8 * pas.length then ⟨s, err, [], true⟩
    else if err ≠ 0 then ⟨out4k g s pas, err, [], false⟩
    else if env.cmdExec ≠ 0 then ⟨out4k g s pas, env.cmdExec, [], false⟩
    else ⟨s.addPages isEcpf funcId ecFunction npages npages, 0, pas, false⟩
  else ⟨s, errNOMEM, [], false⟩

/-! ## Reclaiming pages -/

def freePagesList (s : PagePool) : PagePool :=
  { s with
    freeList := s.freeList.filter fun fp => (s.page fp).freeCount ≠ g.num4kInPage
    pageRoot := (s.freeList.filter fun fp => (s.page fp).freeCount = g.num4kInPage).foldl
      rb.erase s.pageRoot }

/-- A reply to the command that takes pages back. -/
structure ReclaimReply where
  err : Int
  outputNumEntries : Nat
  pas : Nat → Nat

/-- The number of entries, as `reclaim_pages` reads it into an `int`. -/
def ReclaimReply.numClaimed (out : ReclaimReply) : Int := I32.wrap out.outputNumEntries

/-- The entries that `reclaim_pages` goes through. -/
@[irreducible] def ReclaimReply.listed (out : ReclaimReply) : List Nat :=
  (List.range out.numClaimed.toNat).map out.pas

structure ReclaimEnv where
  kvzalloc : Bool
  reply : ReclaimReply

/-- The chunks `reclaim_pages_cmd` picks itself: one of each page recorded for the
function, as long as `npages` are not reached. -/
def pickPages (s : PagePool) (funcId : Nat) : Nat → List Nat → List Nat
  | _, [] => []
  | 0, _ :: _ => []
  | n + 1, fwp :: keys =>
    if (s.page fwp).funcId ≠ funcId then pickPages s funcId (n + 1) keys
    else
      let j := (s.page fwp).bitmask.findNextZeroBit g.num4kInPage 0
      if g.num4kInPage ≤ j then pickPages s funcId (n + 1) keys
      else (fwp + j * adapterPageSize) :: pickPages s funcId n keys

def reclaimPagesCmd (s : PagePool) (funcId npages : Nat) (reply : ReclaimReply) : ReclaimReply :=
  if s.internalError then
    let picked := pickPages g s funcId npages s.pageRoot.toList
    ⟨0, picked.length, fun i => picked.getD i 0⟩
  else reply

/-- The loop of `reclaim_pages`: the entries that `free_4k` takes are counted. -/
def claimLoop : List Nat → PagePool → PagePool × Nat
  | [], s => (s, 0)
  | addr :: pas, s =>
    match free4k g s addr with
    | .ok s' => ((claimLoop pas s').1, (claimLoop pas s').2 + 1)
    | .error _ => claimLoop pas s

/-- The result of `reclaim_pages`: `listed` are the entries of an accepted reply. -/
structure ReclaimResult where
  pool : PagePool
  err : Int
  nclaimed : Nat
  listed : List Nat

/-- `reclaim_pages`. What is read behind a buffer whose length has wrapped is as arbitrary as the
reply; that `reclaim_pages_cmd` writes there in the internal-error state is not followed. -/
def reclaimPages (isEcpf : Bool) (s : PagePool) (funcId npages : Nat) (ecFunction : Bool)
    (env : ReclaimEnv) : ReclaimResult :=
  if env.kvzalloc ∧ 0 ≤ pasLen npages then
    let out := reclaimPagesCmd g s funcId npages env.reply
    if out.err ≠ 0 then ⟨s, out.err, 0, []⟩
    else if out.numClaimed > npages then ⟨s, errINVAL, 0, []⟩
    else
      let c := claimLoop g out.listed s
      let t := if s.internalError then freePagesList rb g c.1 else c.1
      ⟨t.addPages isEcpf funcId ecFunction (-c.2) (-out.numClaimed), 0, c.2, out.listed⟩
  else ⟨s, errNOMEM, 0, []⟩

/-- A chunk that firmware holds, and the function it was given for. -/
structure Given where
  addr : Nat
  funcId : Nat
  ecFunction : Bool
  deriving Repr, DecidableEq

/-- The pool with the chunks that firmware was given and has not returned. -/
structure PageSys where
  pool : PagePool
  given : List Given

def PageSys.init : PageSys := ⟨.init, []⟩

/-- The chunk an address lies in. -/
def chunkOf (addr : Nat) : Nat := addr / adapterPageSize * adapterPageSize

inductive PageOp where
  | give (funcId : Nat) (npages : Int) (ecFunction : Bool) (env : GiveEnv)
  | reclaim (funcId npages : Nat) (ecFunction : Bool) (env : ReclaimEnv)
  | freePagesList
  /-- The device goes to `MLX5_DEVICE_STATE_INTERNAL_ERROR` or comes back. -/
  | setState (internalError : Bool)

/-- One operation. Firmware holds what a successful `give_pages` gave it until an
accepted reply lists an address in it. -/
def PageSys.step (isEcpf : Bool) (s : PageSys) : PageOp → PageSys
  | .give funcId npages ecFunction env =>
    let r := givePages rb g isEcpf s.pool funcId npages ecFunction env
    ⟨r.pool, r.given.map (⟨·, funcId, ecFunction⟩) ++ s.given⟩
  | .reclaim funcId npages ecFunction env =>
    let r := reclaimPages rb g isEcpf s.pool funcId npages ecFunction env
    ⟨r.pool, s.given.filter fun c => c.addr ∉ r.listed.map chunkOf⟩
  | .freePagesList => ⟨Mlx5.freePagesList rb g s.pool, s.given⟩
  | .setState internalError => ⟨{ s.pool with internalError := internalError }, s.given⟩

end

end Mlx5
