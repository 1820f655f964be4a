import Mathlib.Data.List.Basic

/-!
# Taskbases

`src/mt/kupl_taskbase.h` and `src/mt/kupl_task.cpp`: a task is made in memory that holds whatever the
allocator left there. `kupl_tb_init` fills its taskbase from a descriptor.

C++ → Lean naming: `kupl_tb_desc_t` → `TbDesc`; `kupl_taskbase_t` → `TaskBase`; `kupl_task_t` →
`TaskMem`, without its node; `kupl_tb_init` → `tbInit`; `kupl_task_init` → `taskInit`.

Pointers are words. A name is given by the string it is a copy of. The code is compiled without
`ENABLE_KUPL_TRACE`.
-/

namespace Kupl.Task

/-- C++ `KUPL_TB_DESC_FIELD_NAME`, also `KUPL_TASK_DESC_FIELD_NAME`. -/
def fieldName : BitVec 64 := 1

/-- C++ `KUPL_TB_DESC_FIELD_PRIORITY`, also `KUPL_TASK_DESC_FIELD_PRIORITY`. -/
def fieldPriority : BitVec 64 := 2

/-- C++ `KUPL_TB_DESC_FIELD_FLAG`, also `KUPL_TASK_DESC_FIELD_FLAG`. -/
def fieldFlag : BitVec 64 := 4

/-- C++ `KUPL_TB_DESC_FIELD_EGROUP`. -/
def fieldEgroup : BitVec 64 := 8

/-- C++ `KUPL_TB_DESC_FIELD_EXECUTOR_ID`. -/
def fieldExecutorId : BitVec 64 := 16

/-- C++ `KUPL_TB_FLAG_PRIORITY`. -/
def flagPriority : BitVec 64 := 2

/-- C++ `KUPL_TB_EXECUTOR_ID_DEFAULT`, also `KUPL_TB_CORE_ID_DEFAULT`. -/
def idDefault : BitVec 32 := -1

/-- C++ `KUPL_TB_TYPE_TASK`. -/
def typeTask : BitVec 32 := 2

/-- C++ `KUPL_TB_STATE_INIT`. -/
def stateInit : BitVec 32 := 2

/-- C++ `KUPL_TB_STATE_FINISHED`. -/
def stateFinished : BitVec 32 := 16

/-- C++ `KUPL_TASK_KIND_COMM_DYNAMIC`. -/
def kindCommDynamic : BitVec 32 := 1

/-- C++ `KUPL_TASK_KIND_COMM_STATIC`. -/
def kindCommStatic : BitVec 32 := 1024

/-- A bit of a field mask is set. -/
def Has (mask field : BitVec 64) : Prop := mask &&& field ≠ 0

instance (mask field : BitVec 64) : Decidable (Has mask field) := inferInstanceAs (Decidable (_ ≠ _))

/-- C++ `kupl_tb_desc_t`. -/
structure TbDesc where
  fieldMask : BitVec 64
  func : BitVec 64
  args : BitVec 64
  name : BitVec 64
  priority : BitVec 32
  flag : BitVec 32
  executorId : BitVec 32
  egroup : BitVec 64

/-- C++ `kupl_taskbase_t`. -/
structure TaskBase where
  type : BitVec 32
  name : Option (BitVec 64)
  id : BitVec 64
  graph : BitVec 64
  egroup : BitVec 64
  func : BitVec 64
  args : BitVec 64
  priority : BitVec 32
  coreId : BitVec 32
  executorId : BitVec 32
  flag : BitVec 64
  cp : Nat
  ref : BitVec 32
  state : BitVec 32
  count : BitVec 64

/-- C++ `kupl_tb_param_t`. -/
structure TbParam where
  type : BitVec 32
  userDesc : TbDesc
  graph : BitVec 64
  count : BitVec 64

/-- C++ `kupl_tb_init`; `cp` is the compute place of the executor. -/
def tbInit (tb : TaskBase) (param : TbParam) (cp : Nat) : TaskBase :=
  let userDesc := param.userDesc
  let tb := { tb with
    type := param.type
    graph := param.graph
    coreId := idDefault
    cp
    count := param.count
    func := userDesc.func
    args := userDesc.args
    executorId := if Has userDesc.fieldMask fieldExecutorId then userDesc.executorId else idDefault
    flag := if Has userDesc.fieldMask fieldFlag then userDesc.flag.setWidth 64 else 0
    name := if Has userDesc.fieldMask fieldName then some userDesc.name else none
    egroup := if Has userDesc.fieldMask fieldEgroup then userDesc.egroup else 0 }
  if Has userDesc.fieldMask fieldPriority then
    { tb with flag := tb.flag ||| flagPriority, priority := userDesc.priority }
  else tb

/-- C++ `kupl_task_t`. -/
structure TaskMem where
  tb : TaskBase
  kind : BitVec 32

/-- C++ `kupl_task_init`, in memory of its own. -/
def taskInit (mem : TaskMem) (param : TbParam) (kind : BitVec 32) (cp : Nat) : TaskMem where
  tb := { tbInit { mem.tb with ref := 1 } param cp with state := stateInit }
  kind

section Init
variable {tb : TaskBase} {param : TbParam} {cp : Nat}

lemma has_or_self {flags : BitVec 64} : Has (flags ||| flagPriority) flagPriority := by
  intro zero
  have bit := congrArg (fun v => v.getLsbD 1) zero
  simp [flagPriority] at bit

lemma tbInit_name : (tbInit tb param cp).name =
    if Has param.userDesc.fieldMask fieldName then some param.userDesc.name else none := by
  unfold tbInit
  simp only
  split <;> rfl

lemma tbInit_egroup : (tbInit tb param cp).egroup =
    if Has param.userDesc.fieldMask fieldEgroup then param.userDesc.egroup else 0 := by
  unfold tbInit
  simp only
  split <;> rfl

lemma tbInit_executorId : (tbInit tb param cp).executorId =
    if Has param.userDesc.fieldMask fieldExecutorId then param.userDesc.executorId
    else idDefault := by
  unfold tbInit
  simp only
  split <;> rfl

lemma tbInit_flag : (tbInit tb param cp).flag =
    (if Has param.userDesc.fieldMask fieldFlag then param.userDesc.flag.setWidth 64 else 0) |||
      (if Has param.userDesc.fieldMask fieldPriority then flagPriority else 0) := by
  unfold tbInit
  simp only
  split
  · rfl
  · simp

lemma tbInit_priority : (tbInit tb param cp).priority =
    if Has param.userDesc.fieldMask fieldPriority then param.userDesc.priority else tb.priority := by
  unfold tbInit
  simp only
  split <;> rfl

end Init
end Kupl.Task
