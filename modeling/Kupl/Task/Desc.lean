import Kupl.Bytes.Memory
import Kupl.Task.Taskbase

/-!
# Task descriptors read as taskbase descriptors

`kupl_graph_add_task` and `kupl::graph_submit` of `src/mt/kupl_graph.cpp` cast the `kupl_task_desc_t`
of the caller to `kupl_tb_desc_t`. Up to `priority` the two structures of `src/kupl.h` and
`src/mt/kupl_taskbase.h` have the same members at the same places; behind it `flag` reads padding,
`executor_id` the lower half of `ndep` and `egroup` the list of dependencies.

C++ → Lean naming: `kupl_task_desc_t` → `TaskDesc`; the cast → `TbDesc.load` of `TaskDesc.store`.
-/

namespace Kupl.Task
open Bytes

/-- C++ `KUPL_TASK_DESC_FIELD_DEP`. -/
def fieldDep : BitVec 64 := 8

/-- C++ `kupl_task_desc_t`. -/
structure TaskDesc where
  fieldMask : BitVec 64
  func : BitVec 64
  args : BitVec 64
  name : BitVec 64
  priority : BitVec 32
  ndep : BitVec 64
  depList : BitVec 64
  flag : BitVec 32

/-- Where the members of C++ `kupl_task_desc_t` lie. -/
def taskDescOffsets : List Nat := offsets 0 [8, 8, 8, 8, 4, 8, 8, 4]

/-- Where the members of C++ `kupl_tb_desc_t` lie. -/
def tbDescOffsets : List Nat := offsets 0 [8, 8, 8, 8, 4, 4, 4, 8]

example : taskDescOffsets = [0, 8, 16, 24, 32, 40, 48, 56] := by decide

example : tbDescOffsets = [0, 8, 16, 24, 32, 36, 40, 48] := by decide

/-- Where a member lies. -/
def at_ (offsets : List Nat) (i : Nat) : Nat := offsets.getD i 0

/-- A task descriptor in memory; the bytes it does not write are padding. -/
def TaskDesc.store (desc : TaskDesc) (m : Memory) : Memory :=
  let m := Bytes.store m (at_ taskDescOffsets 0) 8 desc.fieldMask
  let m := Bytes.store m (at_ taskDescOffsets 1) 8 desc.func
  let m := Bytes.store m (at_ taskDescOffsets 2) 8 desc.args
  let m := Bytes.store m (at_ taskDescOffsets 3) 8 desc.name
  let m := Bytes.store m (at_ taskDescOffsets 4) 4 desc.priority
  let m := Bytes.store m (at_ taskDescOffsets 5) 8 desc.ndep
  let m := Bytes.store m (at_ taskDescOffsets 6) 8 desc.depList
  Bytes.store m (at_ taskDescOffsets 7) 4 desc.flag

/-- What `kupl_tb_init` reads of memory it takes for a taskbase descriptor. -/
def TbDesc.load (m : Memory) : TbDesc where
  fieldMask := Bytes.load m (at_ tbDescOffsets 0) 8
  func := Bytes.load m (at_ tbDescOffsets 1) 8
  args := Bytes.load m (at_ tbDescOffsets 2) 8
  name := Bytes.load m (at_ tbDescOffsets 3) 8
  priority := Bytes.load m (at_ tbDescOffsets 4) 4
  flag := Bytes.load m (at_ tbDescOffsets 5) 4
  executorId := Bytes.load m (at_ tbDescOffsets 6) 4
  egroup := Bytes.load m (at_ tbDescOffsets 7) 8

/-- The task of a graph in memory of its own, from a descriptor with some padding (C++
`kupl_graph_add_task` up to the dependencies); `none` is `KUPL_ERROR`. -/
def graphAddTask (mem : TaskMem) (desc : TaskDesc) (padding : Memory) (graph count : BitVec 64)
    (cp : Nat) : Option TaskMem :=
  if desc.func = 0 then none
  else some (taskInit mem ⟨typeTask, .load (desc.store padding), graph, count⟩ kindCommDynamic cp)

/-- The task of a graph that calls a lambda (C++ `kupl::graph_submit` up to the dependencies);
`lambda` is the function that calls it, `data` where it is kept. -/
def graphSubmit (mem : TaskMem) (desc : TaskDesc) (padding : Memory) (lambda data : BitVec 64)
    (graph count : BitVec 64) (cp : Nat) : TaskMem :=
  let desc := { desc with func := lambda, args := data }
  { tb := tbInit { mem.tb with ref := 1, state := stateInit } ⟨typeTask,
    .load (desc.store padding), graph, count⟩ cp
    kind := kindCommDynamic }

/-- What a taskbase takes over from the descriptor of a task. -/
structure TaskBase.Carries (tb : TaskBase) (desc : TaskDesc) : Prop where
  priority : Has desc.fieldMask fieldPriority → tb.priority = desc.priority ∧ Has tb.flag flagPriority
  name : tb.name = if Has desc.fieldMask fieldName then some desc.name else none
  flag : ¬Has desc.fieldMask fieldFlag → tb.flag = if Has desc.fieldMask fieldPriority then flagPriority else 0
  egroup : ¬Has desc.fieldMask fieldDep → tb.egroup = 0
  executorId : ¬Has desc.fieldMask fieldExecutorId → tb.executorId = idDefault

section Cast
variable {desc : TaskDesc} {m : Memory}

lemma load_store_common : (TbDesc.load (desc.store m)).fieldMask = desc.fieldMask ∧
    (TbDesc.load (desc.store m)).name = desc.name ∧
    (TbDesc.load (desc.store m)).priority = desc.priority := by
  have tb : tbDescOffsets = [0, 8, 16, 24, 32, 36, 40, 48] := rfl
  have task : taskDescOffsets = [0, 8, 16, 24, 32, 40, 48, 56] := rfl
  simp only [TbDesc.load, TaskDesc.store, tb, task, at_, List.getD_cons_zero, List.getD_cons_succ]
  refine ⟨?_, ?_, ?_⟩
  all_goals simp [load_store_ne]

lemma tbInit_carries {tb : TaskBase} {graph count : BitVec 64} {cp : Nat} :
    (tbInit tb ⟨typeTask, .load (desc.store m), graph, count⟩ cp).Carries desc := by
  obtain ⟨mask, name, priority⟩ := @load_store_common desc m
  refine ⟨fun h => ⟨?_, ?_⟩, ?_, fun h => ?_, fun h => ?_, fun h => ?_⟩
  · rw [tbInit_priority, mask, if_pos h, priority]
  · rw [tbInit_flag, mask, if_pos h]
    exact has_or_self
  · rw [tbInit_name, mask, name]
  · rw [tbInit_flag, mask, if_neg h]
    exact BitVec.zero_or
  · rw [tbInit_egroup, mask]
    exact if_neg h
  · rw [tbInit_executorId, mask, if_neg h]

end Cast

/-- The task made of a descriptor, by a call that succeeds or for a lambda, has the priority and the
name of the descriptor; as far as the bits of the other members are clear, it has no flag of its own,
no group and no executor it is bound to. -/
theorem graphAddTask_carries (mem : TaskMem) (desc : TaskDesc) (padding : Memory)
    (lambda data graph count : BitVec 64) (cp : Nat) :
    (∀ task, graphAddTask mem desc padding graph count cp = some task → task.tb.Carries desc) ∧
      (graphSubmit mem desc padding lambda data graph count cp).tb.Carries desc := by
  constructor
  · intro task h
    unfold graphAddTask at h
    split at h
    · cases h
    · cases h
      obtain ⟨priority, name, flag, egroup, executorId⟩ := @tbInit_carries desc padding
        { mem.tb with ref := 1 } graph count cp
      exact ⟨priority, name, flag, egroup, executorId⟩
  · obtain ⟨priority, name, flag, egroup, executorId⟩ :=
      @tbInit_carries { desc with func := lambda, args := data } padding
        { mem.tb with ref := 1, state := stateInit } graph count cp
    exact ⟨priority, name, flag, egroup, executorId⟩

def zeroMem : TaskMem := ⟨⟨0, none, 0, 0, 0, 0, 0, 0, 0, 0, 0, 0, 0, 0, 0⟩, 0⟩

/-- A descriptor with a function, `3` dependencies listed at `5` and the flag `1`. -/
def maskedDesc (mask : BitVec 64) : TaskDesc := ⟨mask, 1, 0, 0, 7, 3, 5, 1⟩

/-- What becomes of a descriptor with padding of zeros. -/
def maskedTask (mask : BitVec 64) : Option TaskBase :=
  (graphAddTask zeroMem (maskedDesc mask) (fun _ => 0) 0 0 0).map TaskMem.tb

/-- A descriptor with a name and a priority. -/
theorem graphAddTask_carries_named : ∃ task, graphAddTask zeroMem (maskedDesc 3) (fun _ => 0) 0 0 0 = some task ∧
      task.tb.Carries (maskedDesc 3) :=
  ⟨_, rfl, (graphAddTask_carries zeroMem (maskedDesc 3) (fun _ => 0) 0 0 0 0 0).1 _ rfl⟩

/-- A flag is lost to the padding, a priority raises a flag, a list of dependencies is taken for a
group, and under bit `4` their number for an executor. -/
theorem graphAddTask_astray : (maskedTask fieldFlag).map TaskBase.flag = some 0 ∧
      (maskedTask fieldPriority).map TaskBase.flag = some flagPriority ∧
      (maskedTask fieldDep).map TaskBase.egroup = some 5 ∧
      (maskedTask fieldExecutorId).map TaskBase.executorId = some 3 := by
  refine ⟨?_, ?_, ?_, ?_⟩ <;> decide +kernel

end Kupl.Task
