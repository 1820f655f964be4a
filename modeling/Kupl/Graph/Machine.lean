import Kupl.Dag.Covers
import Kupl.Task.Finish
import Kupl.Machine.Run

/-!
# A graph of tasks

`src/mt/kupl_graph.cpp`: tasks are submitted to a graph one after another, with or without
dependencies, and executed in any order. A submission is one step, also when a running task makes it;
the execution of a task is the steps of `Kupl.Task.Finish`.

C++ → Lean naming: `kupl_graph_add_task` → `addTask`; `kupl_graph_add_sgraph_task` and the tasks of
`kupl_graph_add_taskloop` → `addPlain`, `addTaskloop`; `kupl_graph_wait` returns where the count is
zero.

Task identifiers are given in the order of submission. `deps` remembers what was declared. The
descriptor's other fields decide where a task runs and not when.
-/

namespace Kupl.Graph
open Dag Kupl.Task

inductive Submission where
  /-- A task whose mask has the DEP bit; `junk` is what the local list of `kupl_dag_add_task` holds. -/
  | dependent (deps : List TaskDep) (junk : Nat → TaskDep)
  /-- A task without the DEP bit. -/
  | plain
  /-- A static graph, as one task. -/
  | sgraph
  /-- A taskloop that is split into `n` tasks. -/
  | taskloop (n : Nat)
  /-- Parameters that are refused before anything is entered. -/
  | invalid

/-- The steps of a graph. -/
inductive Label where
  | submit (x : Submission)
  | execute (t : Nat)
  | finish (t : Nat)
  | schedule (t : Nat)
  | countSub (t : Nat)

/-- A graph (C++ `kupl_graph_t`) with its tasks. -/
structure GraphState where
  sched : Sched Nat
  hash : DagHash Nat
  ntasks : Nat
  accepted : Finset Nat
  deps : Nat → List TaskDep

namespace GraphState

def finished (s : GraphState) (t : Nat) : Bool := (s.sched.phase t).isFinished

/-- The dependencies that are entered for a task. -/
def ops (s : GraphState) (t : Nat) : List TaskDep := normalDeps (s.deps t)

/-- The next task, without edges (C++ `kupl_task_init`). -/
def newTask (s : GraphState) : GraphState :=
  { s with
    sched := { s.sched with gnode := Function.update s.sched.gnode s.ntasks gnodeInit }
    ntasks := s.ntasks + 1
    accepted := insert s.ntasks s.accepted
    deps := Function.update s.deps s.ntasks [] }

/-- A task without dependencies goes to the scheduler at once. -/
def addPlain (s : GraphState) : GraphState :=
  { s.newTask with sched := s.newTask.sched.schedAddTb s.ntasks }

/-- The tasks of a taskloop (C++ `kupl_graph_add_taskloop`). -/
def addTaskloop (s : GraphState) : Nat → GraphState
  | 0 => s
  | n + 1 => s.addPlain.addTaskloop n

/-- A task with dependencies (C++ `kupl_graph_add_task`). After an error the task is given up, with
what has been entered for it. -/
def addTask (s : GraphState) (deps : List TaskDep) (junk : Nat → TaskDep) : GraphState :=
  let n := s.newTask
  match dagAddTask s.finished ⟨n.sched.gnode, s.hash⟩ s.ntasks junk deps with
  | (D, .error) =>
    { s with sched := { s.sched with gnode := D.gnode }, hash := D.hash, ntasks := n.ntasks }
  | (D, .notReady) =>
    { n with
      sched := { n.sched with gnode := D.gnode }
      hash := D.hash
      deps := Function.update s.deps s.ntasks deps }
  | (D, .ready) =>
    { n with
      sched := Sched.schedAddTb { n.sched with gnode := D.gnode } s.ntasks
      hash := D.hash
      deps := Function.update s.deps s.ntasks deps }

/-- C++ `kupl_graph_submit`. -/
def submit (s : GraphState) : Submission → GraphState
  | .dependent deps junk => s.addTask deps junk
  | .plain | .sgraph => s.addPlain
  | .taskloop n => s.addTaskloop n
  | .invalid => s

def step (s : GraphState) : Label → Option GraphState
  | .submit x => some (s.submit x)
  | .execute t => (s.sched.taskExecute t).map fun x => { s with sched := x }
  | .finish t => (s.sched.taskFinish false t).map fun x => { s with sched := x }
  | .schedule t => (s.sched.taskSchedule t).map fun x => { s with sched := x }
  | .countSub t => (s.sched.tbCountSub t).map fun x => { s with sched := x }

/-- A new graph (C++ `kupl_graph_create`). -/
def create : GraphState where
  sched := ⟨fun _ => gnodeInit, fun _ => .waiting, 0⟩
  hash := []
  ntasks := 0
  accepted := ∅
  deps := fun _ => []

end GraphState

/-- The runs of a graph. -/
def machine : Machine GraphState Label where
  init s := s = .create
  step := GraphState.step

/-- The first dependency that is entered has a type that is not in the enumeration. -/
def RefusedFirst (junk : Nat → TaskDep) (ds : List TaskDep) : Bool :=
  match depListRmDup junk ds with
  | ⟨_, .other _⟩ :: _ => true
  | _ => false

/-- The declared list depends on everything, or names types of the enumeration and repeats no address
other than for reading, or is refused at its first entry. -/
def DepsOk (junk : Nat → TaskDep) (ds : List TaskDep) : Prop :=
  ds.any TaskDep.isAll = true ∨ Plain ds ∨ RefusedFirst junk ds = true

/-- The guard of a step: dependent submissions declare lists that are `DepsOk`. -/
def Guard (_ : GraphState) : Label → Prop
  | .submit (.dependent ds junk) => DepsOk junk ds
  | _ => True

instance (junk : Nat → TaskDep) (ds : List TaskDep) : Decidable (DepsOk junk ds) :=
  inferInstanceAs (Decidable (_ ∨ _ ∨ _))

instance (s : GraphState) : ∀ a, Decidable (Guard s a)
  | .submit (.dependent ds junk) => inferInstanceAs (Decidable (DepsOk junk ds))
  | .submit .plain | .submit .sgraph | .submit (.taskloop _) | .submit .invalid | .execute _ |
    .finish _ | .schedule _ | .countSub _ => isTrue trivial

end Kupl.Graph
