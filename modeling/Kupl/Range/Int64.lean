import Kupl.Range.Dynamic
import Kupl.Range.Static
import Kupl.Word.Checked

/-!
# The range computations on `int64_t`

The functions of `Kupl.Range` once more, with every operation on `int64_t` checked
(`Kupl.Word.Checked`): `none` where an operation of the source leaves `int64_t` or divides by zero.
The operations stand in the order of the source, and an operand of `&&` or `||` is computed only where
the source evaluates it.

C++ → Lean naming: the name of the unchecked definition with `64` behind it.
-/

namespace Kupl.Range
open Word

/-- C++ `kupl_divup`. -/
def divup64 (a b : Int) : Option Int := do
  let s ← add 64 a b
  let s ← sub 64 s 1
  div 64 s b

/-- Whether a step of one block is too long (C++ the first check of a blocksize). -/
def tooLong64 (step blocksize : Int) : Option Bool :=
  if step > 0 then do
    let q ← div 64 maxChunk blocksize
    return q < step
  else if step < 0 then do
    let q ← div 64 maxChunk blocksize
    let s ← neg 64 step
    return q < s
  else return false

/-- Whether a chunk behind `upper` leaves `int64_t` (C++ the second check of a blocksize). -/
def tooFar64 (upper chunksize : Int) : Option Bool :=
  if chunksize > 0 then do
    let room ← sub 64 int64Max chunksize
    return room < upper
  else if chunksize < 0 then do
    let room ← sub 64 int64Min chunksize
    return room > upper
  else return false

/-- C++ the `switch` of `kupl_check_range`; the inner `none` where the range is rejected. -/
def checkBlock64 (policy : LoopPolicy) (r : KuplRange) : Option (Option (KuplRange × Int)) :=
  match policy with
  | .static => some (some ({ r with blocksize := 1 }, r.step))
  | .dynamic | .task => do
    let blocksize := realBlocksize r.blocksize
    if ← tooLong64 r.step blocksize then return none
    let chunksize ← mul 64 blocksize r.step
    if ← tooFar64 r.upper chunksize then return none
    return some ({ r with blocksize }, chunksize)

/-- C++ the check of the length of a dimension that runs up. -/
def tooWideUp64 (r : KuplRange) : Option Bool := do
  if r.step > 0 then
    if r.upper ≥ 0 ∧ r.lower < 0 then
      let m ← add 64 int64Max r.lower
      if r.upper > m then return true
    let a ← sub 64 r.upper r.lower
    let a ← sub 64 a 1
    let c ← mul 64 r.step r.blocksize
    let m ← sub 64 int64Max c
    return a > m
  else return false

/-- C++ the check of the length of a dimension that runs down. -/
def tooWideDown64 (r : KuplRange) : Option Bool := do
  if r.step < 0 then
    if r.lower ≥ 0 ∧ r.upper < 0 then
      let m ← add 64 int64Max r.upper
      if r.lower > m then return true
    let a ← sub 64 r.lower r.upper
    let s ← neg 64 r.step
    let c ← mul 64 s r.blocksize
    let c ← sub 64 c 1
    let m ← sub 64 int64Max c
    return a > m
  else return false

/-- C++ the loop body of `kupl_check_range`, up to the division of the remaining chunks. -/
def checkDim64 (policy : LoopPolicy) (r : KuplRange) : Option (Option (KuplRange × Int)) := do
  if (r.upper ≤ r.lower ∧ r.step > 0) ∨ (r.upper ≥ r.lower ∧ r.step < 0) ∨ r.step = 0 then
    return none
  match ← checkBlock64 policy r with
  | none => return none
  | some (r, chunksize) =>
    if ← tooWideUp64 r then return none
    if ← tooWideDown64 r then return none
    return some (r, chunksize)

/-- One round of the loop of `kupl_check_range`. -/
def checkRound64 (policy : LoopPolicy) (s : Option (NdRange × Int)) (i : Nat) : Option (Option (NdRange × Int)) :=
  match s with
  | none => some none
  | some s => do
    match ← checkDim64 policy (s.1.ndRange i) with
    | none => return none
    | some (r, chunksize) =>
      let a ← sub 64 r.upper r.lower
      let q ← divup64 a chunksize
      let m ← div 64 s.2 q
      return some (s.1.set i r, m)

/-- C++ `kupl_check_range`. -/
def checkRange64 (range : NdRange) (policy : LoopPolicy) : Option (Option NdRange) :=
  if range.dim < 1 ∨ range.dim > maxDimSize then some none
  else do
    match ← (List.range range.dim.toNat).foldlM (checkRound64 policy) (some (range, maxChunk)) with
    | none => return none
    | some (range, remainChunks) => return if remainChunks = 0 then none else some range

/-- The chunks of one dimension (C++ the loop body of `kupl_parallel_for_num_threads`). -/
def dimChunks64 (r : KuplRange) : Option Int := do
  if r.lower < r.upper then
    let a ← sub 64 r.upper r.lower
    let c ← mul 64 r.blocksize r.step
    divup64 a c
  else
    let a ← sub 64 r.lower r.upper
    let b ← neg 64 r.blocksize
    let c ← mul 64 b r.step
    divup64 a c

/-- The chunks of a range, as C++ `kupl_parallel_for_num_threads` counts them. -/
def rangeChunks64 (range : NdRange) : Option Int :=
  (List.range range.dim.toNat).foldlM (fun n d => do
    let c ← dimChunks64 (range.ndRange d)
    mul 64 n c) 1

/-- The chunks of one dimension (C++ the loop body of `kupl_calc_chunk_info`). -/
def calcChunk64 (r : KuplRange) : Option RangeChunk := do
  let chunksize ← mul 64 r.step r.blocksize
  if chunksize > 0 then
    let a ← sub 64 r.upper r.lower
    let chunks ← divup64 a chunksize
    return { chunksize, chunks }
  else
    let a ← sub 64 r.lower r.upper
    let c ← neg 64 chunksize
    let chunks ← divup64 a c
    return { chunksize, chunks }

/-- The number of chunks of a range (C++ `kupl_calc_chunk_info`). -/
def totalChunks64 (range : NdRange) : Option Int :=
  (List.range range.dim.toNat).foldlM (fun n d => do
    let c ← calcChunk64 (range.ndRange d)
    mul 64 n c.chunks) 1

/-- The block of a thread (C++ `kupl_static_policy_impl`). -/
def staticRange64 (pf : PfRange) (tid tnum : Nat) : Option KuplRange := do
  let r := pf.range.ndRange 0
  let chunksize := (pf.chunkInfo 0).chunksize
  let baseChunks ← div 64 pf.totalChunks tnum
  let remainChunks ← mod 64 (pf.chunkInfo 0).chunks tnum
  let p ← mul 64 tid chunksize
  let p ← mul 64 p baseChunks
  let lowerTmp ← add 64 r.lower p
  let q ← mul 64 (min remainChunks tid) chunksize
  let lower ← add 64 lowerTmp q
  let p ← mul 64 chunksize baseChunks
  let u ← add 64 lowerTmp p
  let t ← add 64 tid 1
  let q ← mul 64 (min remainChunks t) chunksize
  let u ← add 64 u q
  return { lower, upper := r.clamp chunksize u, step := r.step, blocksize := r.blocksize }

/-- C++ `get_max_range_dim`. -/
def getMaxRangeDim64 (range : NdRange) : Option Nat := do
  let s ← (List.range range.dim.toNat).foldlM (fun (s : Int × Nat) i => do
    let r := range.ndRange i
    let a ← sub 64 r.upper r.lower
    let currentChunks ← divup64 a r.step
    return if currentChunks > s.1 then (currentChunks, i) else s) (0, 0)
  return s.2

/-- The point at which `divide_range` cuts `divideDim`. -/
def divideMid64 (pf : PfRange) (divideDim numThreads : Nat) : Option Int := do
  let r := pf.range.ndRange divideDim
  let chunksize := (pf.chunkInfo divideDim).chunksize
  let a ← sub 64 r.upper r.lower
  let totalChunks ← divup64 a chunksize
  let q ← div 64 totalChunks numThreads
  let leftChunks ← mul 64 q (numThreads / 2 : Nat)
  let p ← mul 64 leftChunks chunksize
  add 64 r.lower p

/-- C++ `divide_range`. -/
def divideRange64 (pf : PfRange) (targetTid : Nat) : Nat → NdRange → Nat → Nat → Option (Option NdRange)
  | 0, _, _, _ => some none
  | depth + 1, range, headTid, numThreads =>
    if numThreads = 1 ∧ targetTid = headTid then some (some range)
    else do
      let divideDim ← getMaxRangeDim64 range
      let leftThreads := numThreads / 2
      let rightThreads := numThreads - leftThreads
      let mid ← divideMid64 pf divideDim numThreads
      if headTid + leftThreads > targetTid then
        divideRange64 pf targetTid depth (range.setUpper divideDim mid) headTid leftThreads
      else
        divideRange64 pf targetTid depth (range.setLower divideDim mid) (headTid + leftThreads)
          rightThreads

/-- The box of a thread (C++ `kupl_nd_static_policy_impl`). -/
def ndStaticRange64 (range : NdRange) (tid tnum : Nat) : Option (Option NdRange) :=
  divideRange64 (calcChunkInfo range) tid tnum range 0 tnum

/-- The counter of a thread (C++ the loop body of `kupl_dynamic_policy_prepare_common`). -/
def chunkIndex64 (totalChunks numThreads i : Int) : Option (Int × Int) := do
  let chunksPerThread ← div 64 totalChunks numThreads
  let chunksRemain ← mod 64 totalChunks numThreads
  let tmpChunk ← mul 64 i chunksPerThread
  let value ← add 64 tmpChunk (min tmpChunk chunksRemain)
  let i' ← add 64 i 1
  let next ← mul 64 i' chunksPerThread
  let target ← add 64 next (min next chunksRemain)
  return (value, target)

/-- One dimension of a chunk (C++ the loop body of `kupl_compute_chunk_range`). -/
def chunkRound64 (pf : PfRange) (s : Int × NdRange) (d : Nat) : Option (Int × NdRange) := do
  let ndIndex ← mod 64 s.1 (pf.chunkInfo d).chunks
  let ci ← div 64 s.1 (pf.chunkInfo d).chunks
  let chunksize := (pf.chunkInfo d).chunksize
  let p ← mul 64 ndIndex chunksize
  let lower ← add 64 (pf.range.ndRange d).lower p
  let u ← add 64 lower chunksize
  return (ci, s.2.set d { s.2.ndRange d with lower, upper := (pf.range.ndRange d).clamp chunksize u })

/-- The box of a chunk (C++ `kupl_compute_chunk_range`). -/
def computeChunkRange64 (pf : PfRange) (range : NdRange) (chunkIdx : Int) : Option NdRange := do
  let s ← (List.range range.dim.toNat).reverse.foldlM (chunkRound64 pf) (chunkIdx, range)
  return s.2

/-- The chunk of a task (C++ the bounds in `task_policy_loop_func`). -/
def taskChunk64 (r : KuplRange) (chunksize taskId : Int) : Option KuplRange := do
  let p ← mul 64 taskId chunksize
  let lower ← add 64 r.lower p
  let t ← add 64 taskId 1
  let p ← mul 64 t chunksize
  let u ← add 64 r.lower p
  return { lower, upper := min r.upper u, step := r.step, blocksize := r.blocksize }

end Kupl.Range
