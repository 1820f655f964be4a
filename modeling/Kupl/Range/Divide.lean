import Kupl.Cut.Tree
import Kupl.Range.Check

/-!
# Division of a range among threads

`kupl_calc_chunk_info` and the static division of an N-dimensional range in
`mt/kupl_parallel_for.cpp`: `get_max_range_dim`, `divide_range`, `kupl_nd_static_policy_impl`.

`divide_range` halves an interval of threads and cuts the widest dimension of the current box, until
one thread is left. The cut point is computed from the bounds of the *whole* range, so it may fall
outside of the box it cuts. The division is read here as a tree of cuts (`Kupl.Cut.CutTree`) whose
leaves are the boxes of the threads `0, …, tnum - 1`; `divideRange_partition_iff` says when those
boxes partition the range.
-/

namespace Kupl.Range
open Kupl.Cut

/-- The chunks of one dimension (C++ `range_chunk_t`). -/
structure RangeChunk where
  chunksize : Int
  chunks : Int
  deriving DecidableEq, Repr

/-- The fields of a `kupl_pf_t` slot that hold the range of a region and its chunks. -/
structure PfRange where
  range : NdRange
  chunkInfo : Nat → RangeChunk
  totalChunks : Int

/-- The chunks of one dimension (C++ the loop body of `kupl_calc_chunk_info`). -/
def calcChunk (r : KuplRange) : RangeChunk :=
  let chunksize := r.step * r.blocksize
  { chunksize
    chunks :=
      if chunksize > 0 then divup (r.upper - r.lower) chunksize
      else divup (r.lower - r.upper) (-chunksize) }

/-- The chunks of a range (C++ `kupl_calc_chunk_info`). -/
def calcChunkInfo (range : NdRange) : PfRange where
  range := range
  chunkInfo d := calcChunk (range.ndRange d)
  totalChunks :=
    (List.range range.dim.toNat).foldl (fun n d => n * (calcChunk (range.ndRange d)).chunks) 1

/-- The dimension with the most iterates left (C++ `get_max_range_dim`). -/
def getMaxRangeDim (range : NdRange) : Nat :=
  ((List.range range.dim.toNat).foldl (fun (s : Int × Nat) i =>
    let r := range.ndRange i
    let currentChunks := divup (r.upper - r.lower) r.step
    if currentChunks > s.1 then (currentChunks, i) else s) (0, 0)).2

/-- The chunks `divide_range` gives to the left half of the threads, out of those of the whole range
(C++ `left_chunks`). -/
def leftChunks (pf : PfRange) (divideDim numThreads : Nat) : Int :=
  let lower := (pf.range.ndRange divideDim).lower
  let upper := (pf.range.ndRange divideDim).upper
  let totalChunks := divup (upper - lower) (pf.chunkInfo divideDim).chunksize
  totalChunks.tdiv numThreads * (numThreads / 2 : Nat)

/-- The point at which `divide_range` cuts `divideDim` (C++ `mid`). -/
def divideMid (pf : PfRange) (divideDim numThreads : Nat) : Int :=
  (pf.range.ndRange divideDim).lower +
    leftChunks pf divideDim numThreads * (pf.chunkInfo divideDim).chunksize

/-- The box left of a cut. -/
def NdRange.setUpper (range : NdRange) (d : Nat) (mid : Int) : NdRange :=
  range.set d { range.ndRange d with upper := mid }

/-- The box right of a cut. -/
def NdRange.setLower (range : NdRange) (d : Nat) (mid : Int) : NdRange :=
  range.set d { range.ndRange d with lower := mid }

/-- The box of `targetTid` among the threads from `headTid` on (C++ `divide_range`). The first
argument bounds the depth of the recursion; it is never reached from `ndStaticRange`. -/
def divideRange (pf : PfRange) (targetTid : Nat) : Nat → NdRange → Nat → Nat → Option NdRange
  | 0, _, _, _ => none
  | depth + 1, range, headTid, numThreads =>
    if numThreads = 1 ∧ targetTid = headTid then some range
    else
      let divideDim := getMaxRangeDim range
      let leftThreads := numThreads / 2
      let rightThreads := numThreads - leftThreads
      let mid := divideMid pf divideDim numThreads
      if headTid + leftThreads > targetTid then
        divideRange pf targetTid depth (range.setUpper divideDim mid) headTid leftThreads
      else
        divideRange pf targetTid depth (range.setLower divideDim mid) (headTid + leftThreads)
          rightThreads

/-- The range thread `tid` of `tnum` runs (C++ `kupl_nd_static_policy_impl`). -/
def ndStaticRange (range : NdRange) (tid tnum : Nat) : Option NdRange :=
  divideRange (calcChunkInfo range) tid tnum range 0 tnum

/-- The boxes of the threads partition the range: every thread gets a box, every point lies in the
box of exactly one thread, and no box holds anything else. -/
def Partitions (range : NdRange) (tnum : Nat) : Prop :=
  ∃ box : Nat → NdRange, (∀ tid < tnum, ndStaticRange range tid tnum = some (box tid)) ∧
    (∀ x, range.Mem x → ∃! tid, tid < tnum ∧ (box tid).Mem x) ∧
    ∀ tid < tnum, ∀ x, (box tid).Mem x → range.Mem x

/-- A cut point stays inside of the iterates of a dimension: the last iterate before it comes before
`upper`, and it comes before `lower` only where nothing is left up to `upper`. -/
def KuplRange.CutInside (r : KuplRange) (mid : Int) : Prop :=
  (r.Before r.lower mid → r.Before (mid - r.step) r.upper) ∧ (r.Before mid r.lower → ¬r.Before mid r.upper)

instance (r : KuplRange) (mid : Int) : Decidable (r.CutInside mid) :=
  inferInstanceAs (Decidable (_ ∧ _))

/-- A box with no iterates in a dimension other than `d`. -/
def NdRange.EmptyBeside (range : NdRange) (d : Nat) : Prop :=
  ∃ e < range.dim.toNat, e ≠ d ∧ ¬(range.ndRange e).Before (range.ndRange e).lower
    (range.ndRange e).upper

instance (range : NdRange) (d : Nat) : Decidable (range.EmptyBeside d) :=
  inferInstanceAs (Decidable (∃ e < range.dim.toNat, _))

/-- Wherever the interval of threads is halved, the cut point stays inside of the box it cuts, unless
the box is empty anyway. -/
def CutsInside (pf : PfRange) : Nat → NdRange → Nat → Prop
  | 0, _, _ => True
  | depth + 1, range, numThreads =>
    if numThreads ≤ 1 then True
    else
      let divideDim := getMaxRangeDim range
      let leftThreads := numThreads / 2
      let mid := divideMid pf divideDim numThreads
      ((range.ndRange divideDim).CutInside mid ∨ range.EmptyBeside divideDim) ∧
        CutsInside pf depth (range.setUpper divideDim mid) leftThreads ∧
        CutsInside pf depth (range.setLower divideDim mid) (numThreads - leftThreads)

instance decidableCutsInside (pf : PfRange) : ∀ depth range numThreads,
    Decidable (CutsInside pf depth range numThreads)
  | 0, _, _ => isTrue trivial
  | depth + 1, range, numThreads => by
    unfold CutsInside
    have := decidableCutsInside pf depth
    infer_instance

end Kupl.Range
