import Kupl.Egroup.Select
import Kupl.Range.Divide

/-!
# The slots of parallel loops

What `kupl_parallel_for` and `kupl_parallel_for_reduce` of `mt/kupl_parallel_for.cpp` do before a
region runs: the checks of the descriptor, the group and the number of threads, and the slot of
`g_pf` that describes the region to the executors that run it.

A slot is addressed by a nesting level and the executor that is the master of the region, and belongs
to one region after another. Each path of the code writes its own subset of the fields.

C++ → Lean naming: `kupl_pf_t` → `Pf`; `g_pf` → `Slots`; `kupl_parallel_for_desc_t` → `PfDesc`;
`kupl_parallel_for_check`, `_num_threads`, `_resolve` → `parallelForCheck`, `parallelForNumThreads`,
`parallelForResolve`; `kupl_*_prepare` → `staticPrepare`, `dynamicPrepare`, `reducePolicyPrepare`.

Pointers to functions, arguments and buffers are numbers. A slot refers to a group by what the group
is while the region runs. Memory allocation does not fail here.
-/

namespace Kupl.Loop
open Kupl.Range Kupl.Group

/-- The policy functions (C++ `kupl_pf_policy_func_t`). -/
inductive PolicyFunc where
  | noRange
  | static
  | ndStatic
  | dynamic
  | reduceNoRange
  | reduceStatic
  | reduceNdStatic
  | reduceDynamic

/-- The functions that run behind a region (C++ `kupl_pf_post_func_t`). -/
inductive PostFunc where
  | reducePost

/-- C++ `kupl_reduce_item_t`, without its buffer. -/
structure ReduceItem where
  type : Int
  op : Int

/-- C++ `kupl_reduce_args_t`. The buffers of all items are named by `buffers`. -/
structure ReduceArgs where
  num : Int
  items : Option (Nat → ReduceItem)
  buffers : Nat

/-- C++ `kupl_pf::aligned_index`. -/
structure ChunkIndex where
  value : Int
  target : Int

/-- A slot (C++ `kupl_pf_t`). -/
structure Pf where
  masterEid : Nat
  rdFunc : Option Nat
  sharedArgs : Option ReduceArgs
  chunkIndex : Nat → ChunkIndex
  totalChunks : Int
  chunkInfo : Nat → RangeChunk
  policyFunc : Option PolicyFunc
  postFunc : Option PostFunc
  func : Option Nat
  args : Nat
  range : Option NdRange
  egroup : EgroupInfo
  numThreads : Int
  policy : LoopPolicy

/-- A slot of zeros, as C++ `kupl_pf_init` allocates it. -/
def Pf.zero : Pf where
  masterEid := 0
  rdFunc := none
  sharedArgs := none
  chunkIndex _ := ⟨0, 0⟩
  totalChunks := 0
  chunkInfo _ := ⟨0, 0⟩
  policyFunc := none
  postFunc := none
  func := none
  args := 0
  range := none
  egroup := .empty
  numThreads := 0
  policy := .static

/-- The slots by level and executor (C++ `g_pf`). -/
abbrev Slots := Nat → Nat → Pf

def Slots.set (P : Slots) (level eid : Nat) (pf : Pf) : Slots :=
  Function.update P level (Function.update (P level) eid pf)

def Pf.setMaster (pf : Pf) (master : Nat) : Pf := { pf with masterEid := master }

def Slots.setMasters (P : Slots) (level : Nat) (eids : List Nat) (master : Nat) : Slots :=
  fun l e => if l = level ∧ e ∈ eids then (P l e).setMaster master else P l e

@[simp] lemma Slots.set_self {P : Slots} {level eid pf} : P.set level eid pf level eid = pf := by
  simp [Slots.set]

lemma Slots.set_ne {P : Slots} {level eid pf l e} (h : ¬(l = level ∧ e = eid)) : P.set level eid pf l e = P l e := by
  by_cases hl : l = level
  · subst hl
    simp only [true_and] at h
    simp [Slots.set, h]
  · simp [Slots.set, hl]

/-- What a call reads of the executor that makes it and of the configuration. -/
structure Env where
  numExecutors : Nat
  maxActiveLevels : Nat
  kernelConcurrency : Int
  /-- The OpenMP backend, and not in an OpenMP region. -/
  omp : Bool
  /-- There is a graph for the tasks of a loop (C++ `kupl_pf_graph_get`). -/
  graph : Bool
  geid : Nat
  activeLevels : Nat
  currentEgroup : Option Nat

/-- C++ `kupl_is_expand_executor`. -/
def Env.isExpand (env : Env) : Prop := env.numExecutors ≤ env.geid

instance (env : Env) : Decidable env.isExpand := inferInstanceAs (Decidable (_ ≤ _))

/-- C++ `kupl_parallel_for_desc_t`. -/
structure PfDesc where
  fieldMask : Nat
  range : Option NdRange
  egroup : Option Nat
  concurrency : Int
  policy : LoopPolicy

/-- C++ `KUPL_PARALLEL_FOR_DESC_FIELD_DEFAULT`. -/
def fieldDefault : Nat := 15

/-- C++ `KUPL_CONCURRENCY_DEFAULT`. -/
def concurrencyDefault : Int := -1

/-- `none` where the call is rejected, else the descriptor with its blocksizes and its concurrency
settled (C++ `kupl_parallel_for_check`). -/
def parallelForCheck (env : Env) (E : Egroups) (desc : PfDesc) (func : Option Nat) : Option PfDesc :=
  if func = none ∨ desc.fieldMask &&& fieldDefault ≠ fieldDefault then none
  else
    let checked : Option (Option NdRange) :=
      match desc.range with
      | none => some none
      | some range =>
        if desc.policy = .task ∧ range.dim ≠ 1 then none
        else (checkRange range desc.policy).map some
    match checked with
    | none => none
    | some range =>
      if desc.egroup.any fun h => (E h).cur.size = 0 then none
      else if desc.concurrency = concurrencyDefault then
        some { desc with range, concurrency := env.numExecutors }
      else if desc.concurrency ≤ 0 ∨ desc.concurrency > env.numExecutors then none
      else some { desc with range }

/-- C++ `kupl_egroup_get_cur_size`. -/
def curSize (g : EgroupInfo) : Nat := if g.size > executorIdMax then 0 else g.size

/-- The chunks of one dimension (C++ the loop body of `kupl_parallel_for_num_threads`). -/
def dimChunks (r : KuplRange) : Int :=
  if r.lower < r.upper then divup (r.upper - r.lower) (r.blocksize * r.step)
  else divup (r.lower - r.upper) (-r.blocksize * r.step)

lemma dimChunks_eq {r : KuplRange} (hb : 1 ≤ r.blocksize) (dir : r.Before r.lower r.upper) :
    dimChunks r = (calcChunk r).chunks := by
  have sign : r.step * r.blocksize > 0 ↔ r.step > 0 := mul_pos_iff_of_pos_right (by omega)
  have up : r.lower < r.upper ↔ r.step > 0 := by
    rcases dir with ⟨pos, lt⟩ | ⟨neg, lt⟩ <;> omega
  simp only [dimChunks, calcChunk, up, sign, mul_comm r.blocksize]
  rw [neg_mul, mul_comm r.blocksize]

lemma rangeChunks_eq {range policy r} (h : checkRange range policy = some r) :
    (List.range r.dim.toNat).foldl (fun n d => n * dimChunks (r.ndRange d)) 1 = (calcChunkInfo r).totalChunks := by
  obtain ⟨-, -, -, all⟩ := checkRange_spec h
  refine List.foldl_ext _ _ _ fun n d hd => ?_
  obtain ⟨c, hc⟩ := all d (by
    have := List.mem_range.1 hd
    omega)
  rw [dimChunks_eq (checkDim_blocksize hc) (checkDim_before hc)]

/-- C++ `kupl_parallel_for_num_threads`. -/
def parallelForNumThreads (env : Env) (desc : PfDesc) (egroup : Option EgroupInfo) : Int :=
  let numThreads := desc.concurrency
  let numThreads :=
    match desc.range with
    | none => numThreads
    | some range => min numThreads
        ((List.range range.dim.toNat).foldl (fun n d => n * dimChunks (range.ndRange d)) 1)
  let numThreads :=
    match egroup with
    | none => numThreads
    | some g => min numThreads (curSize g)
  min numThreads env.kernelConcurrency

/-- The group of the executors `0, …, num_threads - 1` (C++ `kupl_get_global_egroup`). -/
def globalEgroup (env : Env) (numThreads : Int) : Option Egroup :=
  if numThreads < 1 ∨ numThreads > env.numExecutors then none
  else egroupCreate env.numExecutors ((List.range numThreads.toNat).map Int.ofNat)

/-- The group and the number of threads of a call (C++ `kupl_parallel_for_resolve`). -/
def parallelForResolve (env : Env) (E : Egroups) (desc : PfDesc) : Option (EgroupInfo × Int) :=
  match desc.egroup.or env.currentEgroup with
  | some h => some ((E h).cur, parallelForNumThreads env desc (some (E h).cur))
  | none =>
    let numThreads := parallelForNumThreads env desc none
    (globalEgroup env numThreads).map fun g => (g.cur, numThreads)

/-- The master of a region: the caller where it is a member, else the first member. -/
def masterEid (env : Env) (g : EgroupInfo) : Nat :=
  if env.geid ∈ g.eidSet then env.geid else g.minEid

/-- The slot of a region that its caller runs alone. -/
def Pf.solo (pf : Pf) (master : Nat) : Pf := { pf with numThreads := 1, masterEid := master }

/-- The fields C++ `kupl_parallel_for` writes for every region. -/
def Pf.fill (pf : Pf) (desc : PfDesc) (func : Option Nat) (args : Nat) (egroup : EgroupInfo) (numThreads : Int) : Pf :=
  { pf with func, args, range := desc.range, egroup, numThreads, policy := desc.policy }

/-- The fields C++ `kupl_parallel_for_reduce` writes for every region. -/
def Pf.fillReduce (pf : Pf) (desc : PfDesc) (func : Option Nat) (args : Nat) (rd : ReduceArgs)
    (egroup : EgroupInfo) (numThreads : Int) : Pf :=
  { pf with
    rdFunc := func
    sharedArgs := some rd
    args
    range := desc.range
    egroup
    policy := desc.policy
    numThreads
    postFunc := some .reducePost }

/-- The branch of C++ `kupl_parallel_for` for a region without a range. -/
def noRangePrepare (pf : Pf) : Pf := { pf with policyFunc := some .noRange }

/-- C++ `kupl_calc_chunk_info`. -/
def Pf.calcChunkInfo (pf : Pf) (range : NdRange) : Pf :=
  let info := Range.calcChunkInfo range
  { pf with chunkInfo := info.chunkInfo, totalChunks := info.totalChunks }

/-- C++ `kupl_static_policy_prepare`. -/
def staticPrepare (pf : Pf) (range : NdRange) : Pf :=
  { pf.calcChunkInfo range with policyFunc := some (if range.dim = 1 then .static else .ndStatic) }

/-- C++ `kupl_dynamic_policy_prepare_common`. -/
def dynamicPrepareCommon (pf : Pf) (range : NdRange) : Pf :=
  let pf := pf.calcChunkInfo range
  let chunksPerThread := pf.totalChunks.tdiv pf.numThreads
  let chunksRemain := pf.totalChunks.tmod pf.numThreads
  { pf with chunkIndex := fun i =>
      if (i : Int) < pf.numThreads then
        { value := i * chunksPerThread + min (i * chunksPerThread) chunksRemain
          target := (i + 1) * chunksPerThread + min ((i + 1) * chunksPerThread) chunksRemain }
      else pf.chunkIndex i }

/-- C++ `kupl_dynamic_policy_prepare`. -/
def dynamicPrepare (pf : Pf) (range : NdRange) : Pf :=
  { dynamicPrepareCommon pf range with policyFunc := some .dynamic }

/-- C++ `kupl_reduce_static_policy_prepare`. -/
def reduceStaticPrepare (pf : Pf) (range : NdRange) : Pf :=
  { pf.calcChunkInfo range with
    policyFunc := some (if range.dim = 1 then .reduceStatic else .reduceNdStatic)
    postFunc := some .reducePost }

/-- C++ `kupl_reduce_dynamic_policy_prepare`. -/
def reduceDynamicPrepare (pf : Pf) (range : NdRange) : Pf :=
  { dynamicPrepareCommon pf range with
    policyFunc := some .reduceDynamic
    postFunc := some .reducePost }

/-- C++ `kupl_reduce_policy_prepare`. -/
def reducePolicyPrepare (pf : Pf) : Pf :=
  match pf.range with
  | none => { pf with policyFunc := some .reduceNoRange }
  | some range =>
    match pf.policy with
    | .static => reduceStaticPrepare pf range
    | .dynamic => reduceDynamicPrepare pf range
    | .task => { pf with policyFunc := none, postFunc := none }

/-- C++ `KUPL_RD_NUM_MAX`. -/
def rdNumMax : Int := 128

/-- The checks of one item (C++ the loop body of `kupl_reduce_check`): the operations are
`KUPL_RD_ADD`, `KUPL_RD_SUB`, `KUPL_RD_MAX`, `KUPL_RD_MIN`, the types `KUPL_DATATYPE_INT` up to
`KUPL_DATATYPE_FLOAT_COMPLEX` and `KUPL_DATATYPE_DOUBLE_COMPLEX`, numbered from `0`. -/
def checkItem (item : ReduceItem) : Bool :=
  0 ≤ item.op ∧ item.op ≤ 3 ∧ 0 ≤ item.type ∧ item.type ≤ 4 ∧
    ¬((item.op = 2 ∨ item.op = 3) ∧ (item.type = 3 ∨ item.type = 4))

/-- C++ `kupl_reduce_check`. -/
def reduceCheck (env : Env) (E : Egroups) (desc : PfDesc) (func : Option Nat)
    (rdArgs : Option ReduceArgs) : Option (PfDesc × ReduceArgs) :=
  match parallelForCheck env E desc func, rdArgs with
  | some desc, some rd =>
    match rd.items with
    | none => none
    | some items =>
      if rd.num ≤ 0 ∨ rd.num > rdNumMax then none
      else if (List.range rd.num.toNat).all fun i => checkItem (items i) then some (desc, rd)
      else none
  | _, _ => none

end Kupl.Loop
