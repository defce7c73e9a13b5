-- SUMMARY: How the client decodes the chunk lists in the header of a reply.
import OfaKernel.Lib.CInt

/-!
# Decoding a reply header

The XDR stream is the list of the words that are left. `xdr_inline_decode` fails where
fewer words are left than asked for, and every decoder then returns `-EIO`.
-/

namespace Xprtrdma

/-- `decode_rdma_segment`: the length of the segment. -/
def decodeRdmaSegment : List Nat → Option (Nat × List Nat)
  | _ :: length :: _ :: _ :: xdr => some (length, xdr)
  | _ => none

/-- The loop of `decode_write_chunk`, `length` being the sum so far. -/
def decodeSegments : Nat → Nat → List Nat → Option (Nat × List Nat)
  | 0, length, xdr => some (length, xdr)
  | segcount + 1, length, xdr => do
    let (seglength, xdr) ← decodeRdmaSegment xdr
    decodeSegments segcount (U32.wrap (length + seglength)) xdr

def decodeWriteChunk : List Nat → Option (Nat × List Nat)
  | segcount :: xdr => decodeSegments segcount 0 xdr
  | [] => none

def decodeReadList : List Nat → Option (List Nat)
  | mark :: xdr => if mark = 0 then some xdr else none
  | [] => none

/-- `decode_write_list`: a second chunk is refused. -/
def decodeWriteList : List Nat → Option (Nat × List Nat)
  | [] => none
  | mark :: xdr =>
    if mark = 0 then some (0, xdr)
    else do
      let (chunklen, xdr) ← decodeWriteChunk xdr
      match xdr with
      | 0 :: xdr => some (U32.wrap (0 + chunklen), xdr)
      | _ => none

def decodeReplyChunk : List Nat → Option (Nat × List Nat)
  | [] => none
  | mark :: xdr => if mark = 0 then some (0, xdr) else decodeWriteChunk xdr

/-- The decoding of the lists that `rpcrdma_decode_msg` and `rpcrdma_decode_nomsg` start
with: the bytes in the write list and in the reply chunk. -/
def decodeChunkLists (xdr : List Nat) : Option (Nat × Nat × List Nat) := do
  let xdr ← decodeReadList xdr
  let (writelist, xdr) ← decodeWriteList xdr
  let (replychunk, xdr) ← decodeReplyChunk xdr
  return (writelist, replychunk, xdr)

/-- `rpcrdma_decode_nomsg`: the number of bytes of the reply. -/
def rpcrdmaDecodeNomsg (xdr : List Nat) : Option Nat := do
  let (writelist, replychunk, _) ← decodeChunkLists xdr
  if writelist ≠ 0 then none
  if replychunk = 0 then none
  return replychunk

/-! ## Chunks that were filled -/

/-- One segment of a chunk as the header has it. -/
structure RdmaSegment where
  handle : Nat
  length : Nat
  offsetHi : Nat
  offsetLo : Nat
  deriving Repr, DecidableEq

def segmentWords (segs : List RdmaSegment) : List Nat :=
  segs.flatMap fun s => [s.handle, s.length, s.offsetHi, s.offsetLo]

@[simp] theorem segmentWords_nil : segmentWords [] = [] := rfl

@[simp] theorem segmentWords_cons (s : RdmaSegment) (segs : List RdmaSegment) :
    segmentWords (s :: segs) =
      s.handle :: s.length :: s.offsetHi :: s.offsetLo :: segmentWords segs := rfl

@[simp] theorem length_segmentWords (segs : List RdmaSegment) :
    (segmentWords segs).length = 4 * segs.length := by
  induction segs with
  | nil => rfl
  | cons s segs ih =>
    simp only [segmentWords_cons, List.length_cons, ih]
    omega

theorem decodeSegments_words (segs : List RdmaSegment) (acc : Nat) (rest : List Nat)
    (h : acc + (segs.map RdmaSegment.length).sum < 2 ^ 32) :
    decodeSegments segs.length acc (segmentWords segs ++ rest) =
      some (acc + (segs.map RdmaSegment.length).sum, rest) := by
  induction segs generalizing acc with
  | nil => rfl
  | cons s segs ih =>
    simp only [List.map_cons, List.sum_cons] at h ⊢
    have hacc : U32.wrap (acc + s.length) = acc + s.length := U32.wrap_of_lt (by omega)
    have ih := ih (acc + s.length) (by omega)
    simpa [decodeSegments, decodeRdmaSegment, hacc, Nat.add_assoc] using ih

theorem decodeWriteChunk_words (segs : List RdmaSegment) (rest : List Nat)
    (h : (segs.map RdmaSegment.length).sum < 2 ^ 32) :
    decodeWriteChunk (segs.length :: (segmentWords segs ++ rest)) =
      some ((segs.map RdmaSegment.length).sum, rest) := by
  have hd := decodeSegments_words segs 0 rest (by omega)
  rw [Nat.zero_add] at hd
  exact hd

theorem decodeChunkLists_write {mark : Nat} (hmark : mark ≠ 0) (segs : List RdmaSegment)
    (rest : List Nat) (h : (segs.map RdmaSegment.length).sum < 2 ^ 32) :
    decodeChunkLists (0 :: mark :: segs.length :: (segmentWords segs ++ 0 :: 0 :: rest)) =
      some ((segs.map RdmaSegment.length).sum, 0, rest) := by
  simp [decodeChunkLists, decodeReadList, decodeWriteList, decodeReplyChunk, hmark,
    decodeWriteChunk_words segs _ h, U32.wrap_of_lt h]

theorem decodeChunkLists_reply {mark : Nat} (hmark : mark ≠ 0) (segs : List RdmaSegment)
    (rest : List Nat) (h : (segs.map RdmaSegment.length).sum < 2 ^ 32) :
    decodeChunkLists (0 :: 0 :: mark :: segs.length :: (segmentWords segs ++ rest)) =
      some (0, (segs.map RdmaSegment.length).sum, rest) := by
  simp [decodeChunkLists, decodeReadList, decodeWriteList, decodeReplyChunk, hmark,
    decodeWriteChunk_words segs _ h]

end Xprtrdma
