-- SUMMARY: The detection of large pages in a memory region (`mem.c`).
import Mathlib.Data.Nat.Size
import OfaKernel.Lib.Alignment
import OfaKernel.Lib.CInt

/-!
# Large pages

The largest block size in which the pages of a region can be given to the device. A left shift of
an `int` has no result when the value does not fit.
-/

namespace Mlx5

/-! ## Model -/

/-- `sg_dma_address` and `sg_dma_len` of an entry of the scatterlist. -/
structure DmaSeg where
  addr : Nat
  len : Nat
  deriving Repr, DecidableEq

/-- `struct ib_umem`, with the entries of `sg_head` that are mapped. -/
structure Umem where
  address : Nat
  length : Nat
  pageShift : Nat
  isOdp : Bool
  segs : List DmaSeg
  pageShift_ge : 12 ≤ pageShift
  /-- Entries are made of whole pages. -/
  pages : ∀ sg ∈ segs, 2 ^ pageShift ∣ sg.addr ∧ 2 ^ pageShift ∣ sg.len
  len_lt : ∀ sg ∈ segs, sg.len < 2 ^ 32
  addr_le : ∀ sg ∈ segs, sg.addr + sg.len ≤ 2 ^ 64
  nmap_lt : segs.length < 2 ^ 31

/-- `a << s` for an `int`. -/
def shl (a s : Nat) : Option Nat :=
  if s < 32 ∧ a * 2 ^ s < 2 ^ 31 then some (a * 2 ^ s) else none

def fls (n : Nat) : Nat := n.size

/-- `roundup_pow_of_two` of an `int`, as `unsigned long`. -/
def roundupPowOfTwo (i : Int) : Option Nat :=
  let n := (i % 2 ^ 64).toNat
  if fls (n - 1) < 64 then some (1 <<< fls (n - 1)) else none

namespace Umem

/-- The page numbers and page counts of the entries. -/
def runs (u : Umem) : List (Nat × Nat) :=
  u.segs.map fun sg => (sg.addr >>> u.pageShift, sg.len >>> u.pageShift)

/-- `ib_umem_start`. -/
def start (u : Umem) : Nat := u.address - u.address % 2 ^ u.pageShift

/-- `ib_umem_end`. -/
def stop (u : Umem) : Nat :=
  (u.address + u.length + (2 ^ u.pageShift - 1)) / 2 ^ u.pageShift * 2 ^ u.pageShift

def numPages (u : Umem) : Nat := (u.stop - u.start) >>> u.pageShift

end Umem

/-- What the loop of `mlx5_ib_cont_pages` carries. -/
structure ContState where
  m : Nat
  base : Nat
  p : Nat
  i : Int

/-- An entry of the loop. -/
def contStep (st : ContState) (run : Nat × Nat) : Option ContState :=
  let (pfn, len) := run
  let i := I32.wrap (st.i + len)
  if st.base + st.p ≠ pfn then do
    let tmp := pfn ||| st.p
    let a ← shl 1 st.m
    let m := if Alignment.IsAligned tmp a then st.m else Alignment.firstBit tmp
    return { m := m, base := pfn, p := len, i := i }
  else some { st with p := st.p + len, i := i }

def contLoop : ContState → List (Nat × Nat) → Option ContState
  | st, [] => some st
  | st, run :: runs => (contStep st run).bind fun st => contLoop st runs

/-- The block size before the loop. -/
def startShift (u : Umem) (addr maxPageShift : Nat) : Nat :=
  let m := Alignment.firstBit (addr >>> u.pageShift)
  if maxPageShift ≠ 0 then min ((maxPageShift + (2 ^ 64 - u.pageShift)) % 2 ^ 64) m else m

/-- The results of `mlx5_ib_cont_pages`. -/
structure ContPages where
  count : Int
  shift : Nat
  ncont : Int
  order : Nat
  deriving Repr, DecidableEq

def contPages (u : Umem) (addr maxPageShift : Nat) : Option ContPages :=
  if u.isOdp then do
    let ncont := I32.wrap u.numPages
    let round ← roundupPowOfTwo ncont
    return { count := I32.wrap (ncont * 2 ^ (u.pageShift - 12)), shift := u.pageShift
             ncont := ncont, order := Nat.log2 round }
  else do
    let st ←
      contLoop { m := startShift u addr maxPageShift, base := 2 ^ 64 - 1, p := 0, i := 0 } u.runs
    if st.i = 0 then
      return { count := 0, shift := u.pageShift, ncont := 0, order := 0 }
    else
      let round ← roundupPowOfTwo st.i
      let m := min (Nat.log2 round) st.m
      let d ← shl 1 m
      return { count := st.i, shift := u.pageShift + m
               ncont := (I32.wrap (st.i + d - 1)).tdiv d, order := Nat.log2 (round >>> m) }

/-- What the loops of `__mlx5_ib_populate_pas` carry; `done` after the early return. -/
structure PasState where
  i : Nat
  pas : Nat → Nat
  done : Bool

/-- The array after a page of the inner loop of `__mlx5_ib_populate_pas`: page `k` of the entry at
`base`, page `i` of the region. -/
def writePas (pageShift shift mask offset base flags k i : Nat) (pas : Nat → Nat) :
    Option (Nat → Nat) :=
  if i &&& mask = 0 then do
    let cur := (base + (← shl k pageShift)) % 2 ^ 64 ||| flags
    return Function.update pas ((i >>> shift) - offset) cur
  else some pas

/-- The inner loop, with `n` pages of the entry left from `k` on. -/
def fillPages (pageShift shift mask offset numPages base flags : Nat) :
    Nat → Nat → PasState → Option PasState
  | 0, _, st => some st
  | n + 1, k, st => do
    let pas ← writePas pageShift shift mask offset base flags k st.i st.pas
    let i := st.i + 1
    if offset + numPages ≤ i >>> shift then
      return { i := i, pas := pas, done := true }
    else
      fillPages pageShift shift mask offset numPages base flags n (k + 1)
        { i := i, pas := pas, done := false }

/-- The outer loop of `__mlx5_ib_populate_pas`. -/
def populateLoop (pageShift shift mask offset numPages flags : Nat) :
    List DmaSeg → PasState → Option PasState
  | [], st => some st
  | sg :: segs, st =>
    let len := sg.len >>> pageShift
    if st.i + len < offset <<< shift then
      populateLoop pageShift shift mask offset numPages flags segs { st with i := st.i + len }
    else
      let k := if st.i < offset <<< shift then offset <<< shift - st.i else 0
      let i := if st.i < offset <<< shift then offset <<< shift else st.i
      (fillPages pageShift shift mask offset numPages sg.addr flags (len - k) k
        { st with i := i }).bind
        fun st =>
          if st.done then some st
          else populateLoop pageShift shift mask offset numPages flags segs st

/-- `__mlx5_ib_populate_pas`: the array after it. -/
def populatePas (u : Umem) (pageShift offset numPages : Nat) (pas : Nat → Nat) (flags : Nat) :
    Option (Nat → Nat) := do
  let shift := pageShift - u.pageShift
  let bit ← shl 1 shift
  let st ← populateLoop u.pageShift shift (bit - 1) offset numPages flags u.segs
    { i := 0, pas := pas, done := false }
  return st.pas

end Mlx5
