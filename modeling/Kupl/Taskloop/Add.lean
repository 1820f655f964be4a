import Kupl.Loop.Slot
import Kupl.Range.Room

/-!
# Loops as tasks of a graph

`kupl_graph_add_taskloop` of `src/mt/kupl_graph.cpp`: a range is cut into blocks, and every block
becomes a task of some executor of a group. A few tasks are created by the caller
(`kupl_taskloop_linear`); many are created by one dispatch task for each executor
(`kupl_taskloop_concurrent`, `kupl_taskloop_dispatch`).

A task has a number, whose digits in the numbers of blocks are the indices of its block, those of the
first dimension fastest. The blocks of a dimension are `blocksize` apart, whatever its step.

C++ → Lean naming: `kupl_taskloop_desc_t` → `TaskloopDesc`; `kupl_taskloop_info_t` → `TaskloopInfo`;
`KUPL_FOR_EACH_EGROUP` → `forEachEgroup`; the loop bodies of `kupl_graph_add_taskloop` and of the two
places that cut a block → `blockCount64`, `blockRound64`.

The `int64_t` computations are checked: `none` where one of them overflows, or divides by zero.
-/

namespace Kupl.Taskloop
open Range Kupl.Group Word

/-- C++ `KUPL_TASKLOOP_DESC_FIELD_DEFAULT`. -/
def fieldDefault : Nat := 3

/-- C++ `kupl_taskloop_desc_t`. -/
structure TaskloopDesc where
  fieldMask : Nat
  func : Option Nat
  args : Nat
  range : Option NdRange
  egroup : Option Nat

/-- C++ `kupl_taskloop_info_t`. -/
structure TaskloopInfo where
  dim : Int
  blocks : Nat → Int
  esize : Int
  totalTasks : Int
  minTasks : Int
  maxTasks : Int
  extraTasks : Int

/-- A task of a loop: the executor it is bound to and its block. -/
structure LoopTask where
  executorId : Nat
  range : NdRange

/-- What `kupl_graph_add_taskloop` comes to: `KUPL_ERROR`, undefined behaviour, or the tasks that are
created. -/
inductive Outcome where
  | error
  | undefined
  | created (tasks : List LoopTask)

/-- The range as its check leaves it, with the group; the inner `none` where the parameters are rejected
(C++ `kupl_taskloop_check`). -/
def taskloopCheck (E : Egroups) (graph : Bool) (desc : TaskloopDesc) : Option (Option (NdRange × EgroupInfo)) :=
  match desc.func, desc.egroup, desc.range with
  | some _, some egroup, some range =>
    if graph = false ∨ desc.fieldMask ≠ fieldDefault ∨ Loop.curSize (E egroup).cur = 0 then some none
    else (checkRange64 range .task).map fun range => range.map fun range => (range, (E egroup).cur)
  | _, _, _ => some none

/-- The number of blocks of a dimension (C++ `info.blocks[d]`). -/
def blockCount64 (r : KuplRange) : Option Int := do
  let n ← sub 64 r.upper r.lower
  let n ← add 64 n r.blocksize
  let n ← sub 64 n 1
  div 64 n r.blocksize

/-- The number of blocks (C++ `info.total_tasks`). -/
def totalTasks64 (range : NdRange) : Option Int :=
  (List.range range.dim.toNat).foldlM (fun total d => do mul 64 total (← blockCount64 (range.ndRange d))) 1

/-- How the blocks are shared among the executors. -/
def taskloopInfo (range : NdRange) (esize totalTasks : Int) : TaskloopInfo where
  dim := range.dim
  blocks d := (blockCount64 (range.ndRange d)).getD 0
  esize := esize
  totalTasks := totalTasks
  minTasks := totalTasks.tdiv esize
  maxTasks := totalTasks.tdiv esize + if totalTasks.tmod esize > 0 then 1 else 0
  extraTasks := totalTasks.tmod esize

def block64 (r : KuplRange) (blockIdx : Int) : Option KuplRange := do
  let lower ← add 64 r.lower (← mul 64 blockIdx r.blocksize)
  let bound ← add 64 lower r.blocksize
  some { r with lower, upper := if r.blocksize > 0 then min r.upper bound else max r.upper bound }

/-- What remains of the number of a task, and its range, after one dimension. -/
def blockRound64 (info : TaskloopInfo) (range : NdRange) (s : Int × NdRange) (d : Nat) : Option (Int × NdRange) :=
  (block64 (range.ndRange d) (s.1.tmod (info.blocks d))).map fun r =>
    (s.1.tdiv (info.blocks d), s.2.set d r)

def taskRange64 (info : TaskloopInfo) (range : NdRange) (taskId : Int) : Option NdRange :=
  ((List.range info.dim.toNat).foldlM (blockRound64 info range) (taskId, range)).map Prod.snd

/-- The members of a group in ascending order (C++ `KUPL_FOR_EACH_EGROUP`). -/
def forEachEgroup (g : EgroupInfo) : List Nat :=
  (List.range' g.minEid (g.maxEid + 1 - g.minEid)).filter (· ∈ g.eidSet)

/-- The executors that get a task in round `i`, from the member number `eidx` on, each with the number
of its task (C++ the inner loop of `kupl_taskloop_linear`). -/
def linearRound (info : TaskloopInfo) (i : Int) : List Nat → Int → Int → List (Nat × Int)
  | [], _, _ => []
  | eid :: eids, eidx, taskId =>
    if i = info.minTasks ∧ eidx + info.extraTasks < info.esize then
      linearRound info i eids (eidx + 1) (taskId + info.minTasks)
    else
      (eid, taskId) :: linearRound info i eids (eidx + 1)
        (taskId + info.minTasks + if eidx + info.extraTasks ≥ info.esize then 1 else 0)

/-- The tasks a caller creates (C++ `kupl_taskloop_linear`). -/
def taskloopLinear (g : EgroupInfo) (info : TaskloopInfo) : List (Nat × Int) :=
  (List.range info.maxTasks.toNat).flatMap fun i : Nat =>
    linearRound info i (forEachEgroup g) 0 i

/-- The tasks of one executor (C++ `kupl_taskloop_dispatch`). -/
def taskloopDispatch (info : TaskloopInfo) (eid : Nat) (eidx : Int) : List (Nat × Int) :=
  let begin_ :=
    if info.extraTasks ≠ 0 ∧ eidx ≥ info.extraTasks then eidx * info.minTasks + info.extraTasks
    else eidx * info.maxTasks
  let num := if info.extraTasks ≠ 0 ∧ eidx ≥ info.extraTasks then info.minTasks else info.maxTasks
  (List.range num.toNat).map fun i : Nat => (eid, begin_ + i)

/-- The tasks the dispatch tasks create, from the last executor on (C++ `kupl_taskloop_concurrent`,
`KUPL_FOR_EACH_EGROUP_REV`). -/
def taskloopConcurrent (g : EgroupInfo) (info : TaskloopInfo) : List (Nat × Int) :=
  (forEachEgroup g).reverse.zipIdx.flatMap fun (eid, i) =>
    taskloopDispatch info eid (g.size - 1 - i : Int)

/-- C++ `taskloop_threshold`. -/
def taskloopThreshold : Int := 5

/-- The tasks of a loop, whichever way they are created. -/
def taskloopTasks (g : EgroupInfo) (info : TaskloopInfo) : List (Nat × Int) :=
  if info.esize * taskloopThreshold > info.totalTasks then taskloopLinear g info
  else taskloopConcurrent g info

/-- C++ `kupl_graph_add_taskloop`, on a thread that is managed or not. -/
def graphAddTaskloop (E : Egroups) (managed graph : Bool) (desc : TaskloopDesc) : Outcome :=
  match taskloopCheck E graph desc with
  | none => .undefined
  | some none => .error
  | some (some (range, g)) =>
    match totalTasks64 range with
    | none => .undefined
    | some totalTasks =>
      let info := taskloopInfo range (Loop.curSize g) totalTasks
      if managed = false then .error
      else
        match (taskloopTasks g info).mapM fun t =>
            (taskRange64 info range t.2).map (LoopTask.mk t.1) with
        | none => .undefined
        | some tasks => .created tasks

/-- The blocks, taken together, hold each point of a range once and no other point. -/
def Outcome.Exact (range : NdRange) : Outcome → Prop
  | .error => True
  | .undefined => False
  | .created tasks => ∀ x : Nat → Int, tasks.countP (fun t => decide (t.range.Mem x)) = if range.Mem x then 1 else 0

end Kupl.Taskloop
