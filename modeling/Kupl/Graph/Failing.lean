import Kupl.Dag.Traces
import Kupl.Graph.Machine

/-!
# Submissions that fail

`src/mt/kupl_graph.cpp`: `kupl_graph_add_task` with the outcomes of its allocations. A submission whose dependencies
are refused returns `KUPL_ERROR` and leaves what was entered: the task is neither scheduled nor taken back, and those it
follows release it when they finish.

C++ → Lean naming: `kupl_graph_add_task` → `addTask`; a task of `kupl_graph_add_sgraph_task` or of a taskloop is a
`plain` one.

Each submission comes with an identity for its task that no other submission has.
-/

namespace Kupl.Graph
open Dag Kupl.Task
open Function (update update_of_ne update_self)

/-- What `kupl_graph_add_task` is given: a mask without the DEP bit, or with it; no list of dependencies is a null
pointer with a number that is not 0. -/
inductive Descriptor where
  | plain
  | dependent (deps : Option (List TaskDep)) (junk : Nat → TaskDep)

/-- The allocations of a submission: the task with its lock, the list of more dependencies than fit on the stack, and
those of each dependency. -/
structure TaskAllocs where
  task : Bool
  list : Bool
  dep : Nat → DepAllocs

/-- The steps of a graph. -/
inductive PtrLabel where
  | submit (t : Nat) (x : Descriptor) (al : TaskAllocs)
  | execute (t : Nat)
  | finish (t : Nat)
  | schedule (t : Nat)
  | countSub (t : Nat)

/-- The step submits `t`. -/
def PtrLabel.Submits (t : Nat) : PtrLabel → Prop
  | .submit u .. => u = t
  | _ => False

structure PtrGraph where
  sched : Sched Nat
  hash : PtrHash Nat
  used : Finset Nat

namespace PtrGraph
variable (s : PtrGraph)

def finished (t : Nat) : Bool := (s.sched.phase t).isFinished

/-- A task without edges (C++ `kupl_task_init`). -/
def newTask (t : Nat) : PtrGraph :=
  { s with
    sched := { s.sched with gnode := update s.sched.gnode t gnodeInit }
    used := insert t s.used }

/-- What `kupl_graph_add_task` does with the answer of `kupl_dag_add_task`. -/
def entered (t : Nat) (r : PtrDag Nat × AddResult) : PtrGraph × Bool :=
  let n := { s with sched := { s.sched with gnode := r.1.gnode }, hash := r.1.hash }
  match r.2 with
  | .error => (n, false)
  | .notReady => (n, true)
  | .ready => ({ n with sched := n.sched.schedAddTb t }, true)

/-- A submission and what it returns (C++ `kupl_graph_add_task`). -/
def addTask (t : Nat) (x : Descriptor) (al : TaskAllocs) : Option (PtrGraph × Bool) :=
  if al.task = false then some ({ s with used := insert t s.used }, false)
  else
    let n := s.newTask t
    match x with
    | .plain => some ({ n with sched := n.sched.schedAddTb t }, true)
    | .dependent none _ => some (n, false)
    | .dependent (some ds) junk =>
      (dagAddTaskPtr al.list al.dep s.finished ⟨n.sched.gnode, s.hash⟩ t junk ds).map (n.entered t)

def step (s : PtrGraph) : PtrLabel → Option PtrGraph
  | .submit t x al => if t ∈ s.used then none else (s.addTask t x al).map (·.1)
  | .execute t => (s.sched.taskExecute t).map fun x => { s with sched := x }
  | .finish t => (s.sched.taskFinish false t).map fun x => { s with sched := x }
  | .schedule t => (s.sched.taskSchedule t).map fun x => { s with sched := x }
  | .countSub t => (s.sched.tbCountSub t).map fun x => { s with sched := x }

/-- A new graph (C++ `kupl_graph_create`). -/
def create : PtrGraph := ⟨⟨fun _ => gnodeInit, fun _ => .waiting, 0⟩, [], ∅⟩

end PtrGraph

/-- The runs of a graph with failures. -/
def ptrMachine : Machine PtrGraph PtrLabel where
  init s := s = .create
  step := PtrGraph.step

def TaskAllocs.good : TaskAllocs := ⟨true, true, fun _ => .good⟩

/-! ### Tasks that nothing names -/

/-- The task has not been started, and nothing leads to it or from it. -/
structure Fresh (t : Nat) (s : PtrGraph) : Prop where
  named : Unlinked t ⟨s.sched.gnode, s.hash⟩
  phase : s.sched.phase t = .waiting
  ready : ∀ f, t ∉ (s.sched.phase f).ready

namespace Fresh
variable {s s' : PtrGraph} {t u : Nat} {x : Descriptor} {al : TaskAllocs} {ok : Bool}

lemma newTask (F : Fresh t s) (ne : u ≠ t) : Fresh t (s.newTask u) := by
  refine ⟨⟨fun p mem => ?_, ?_, F.named.hash⟩, F.phase, F.ready⟩
  · have mem : t ∈ (update s.sched.gnode u gnodeInit p).successors := mem
    by_cases same : p = u
    · rw [same, update_self] at mem
      cases mem
    · rw [update_of_ne same] at mem
      exact F.named.edge p mem
  · show (update s.sched.gnode u gnodeInit t).successors = []
    rw [update_of_ne (Ne.symm ne)]
    exact F.named.start

/-- Another phase of another task. -/
lemma ready_update {phase : Nat → Phase Nat} {p : Phase Nat} (out : ∀ f, t ∉ (phase f).ready)
    (away : t ∉ p.ready)
    (f : Nat) : t ∉ (update phase u p f).ready := by
  by_cases same : f = u
  · rw [same, update_self]
    exact away
  · rw [update_of_ne same]
    exact out f

lemma schedAddTb (F : Fresh t s) (ne : u ≠ t) : Fresh t { s with sched := s.sched.schedAddTb u } := by
  refine ⟨F.named, ?_, ready_update F.ready (by simp [Phase.ready])⟩
  show update s.sched.phase u .queued t = _
  rw [update_of_ne (Ne.symm ne)]
  exact F.phase

lemma addTask (F : Fresh t s) (ne : u ≠ t) (got : s.addTask u x al = some (s', ok)) : Fresh t s' := by
  have N := F.newTask ne
  unfold PtrGraph.addTask at got
  split at got
  · cases got
    exact ⟨F.named, F.phase, F.ready⟩
  cases x with
  | plain =>
    cases got
    exact N.schedAddTb ne
  | dependent deps junk =>
    cases deps with
    | none =>
      cases got
      exact N
    | some ds =>
      obtain ⟨⟨D, answer⟩, added, isS⟩ := Option.map_eq_some_iff.1 got
      have U : Unlinked t D := by
        unfold dagAddTaskPtr at added
        split at added
        · cases added
          exact N.named
        · obtain ⟨⟨E, n⟩, processed, isD⟩ := Option.map_eq_some_iff.1 added
          have U := Unlinked.processPtrs N.named ne processed
          cases n with
          | none | some n =>
            cases isD
            exact U
      have E : Fresh t { s.newTask u with
          sched := { (s.newTask u).sched with gnode := D.gnode }, hash := D.hash } := ⟨U, F.phase, F.ready⟩
      cases answer with
      | error | notReady =>
        cases isS
        exact E
      | ready =>
        cases isS
        exact E.schedAddTb ne

lemma step {a : PtrLabel} (F : Fresh t s) (other : ¬ a.Submits t) (h : s.step a = some s') : Fresh t s' := by
  cases a with
  | submit u x al =>
    unfold PtrGraph.step at h
    dsimp only at h
    split at h
    · cases h
    · obtain ⟨⟨s₁, ok⟩, got, isS⟩ := Option.map_eq_some_iff.1 h
      cases isS
      exact F.addTask other got
  | execute u =>
    obtain ⟨x, hx, rfl⟩ := Option.map_eq_some_iff.1 h
    unfold Sched.taskExecute at hx
    split at hx
    · rename_i queued
      cases hx
      have ne : t ≠ u := by
        rintro rfl
        cases F.phase.symm.trans queued
      exact ⟨F.named, (update_of_ne ne ..).trans F.phase, ready_update F.ready (by simp [Phase.ready])⟩
    · cases hx
  | finish u =>
    obtain ⟨x, hx, rfl⟩ := Option.map_eq_some_iff.1 h
    unfold Sched.taskFinish at hx
    split at hx
    · rename_i running
      cases hx
      have ne : t ≠ u := by
        rintro rfl
        cases F.phase.symm.trans running
      have away : t ∉ (gnodeReleaseReady s.sched.gnode u).2 := by
        intro mem
        have counted := mem_releaseWalk_ready.1 mem
        have none : (s.sched.gnode u).successors.count t = 0 :=
          List.count_eq_zero.2 (F.named.edge u)
        rw [none] at counted
        omega
      have edges : succs (gnodeReleaseReady s.sched.gnode u).1 = succs s.sched.gnode :=
        succs_releaseWalk
      refine ⟨⟨fun p => ?_, ?_, F.named.hash⟩, ?_, ready_update (fun f mem => ?_) away⟩
      · show t ∉ succs (gnodeReleaseReady s.sched.gnode u).1 p
        rw [edges]
        exact F.named.edge p
      · show succs (gnodeReleaseReady s.sched.gnode u).1 t = []
        rw [edges]
        exact F.named.start
      · show update (fun v => if v ∈ (gnodeReleaseReady s.sched.gnode u).2 then Phase.collected
          else s.sched.phase v) u (.finishing (gnodeReleaseReady s.sched.gnode u).2) t = _
        rw [update_of_ne ne, if_neg away]
        exact F.phase
      · split at mem
        · cases mem
        · exact F.ready f mem
    · cases hx
  | schedule u =>
    obtain ⟨x, hx, rfl⟩ := Option.map_eq_some_iff.1 h
    unfold Sched.taskSchedule at hx
    split at hx
    · rename_i r rs finishing
      cases hx
      have away : t ∉ r :: rs := by
        have away := F.ready u
        rw [finishing] at away
        exact away
      have ne : t ≠ u := by
        rintro rfl
        cases F.phase.symm.trans finishing
      have W : Fresh t { s with sched := { s.sched with phase := update s.sched.phase u (.finishing rs) } } :=
        ⟨F.named, (update_of_ne ne ..).trans F.phase,
          ready_update F.ready fun mem => away (List.mem_cons_of_mem _ mem)⟩
      exact W.schedAddTb fun isT => away (isT ▸ List.mem_cons_self)
    · cases hx
  | countSub u =>
    obtain ⟨x, hx, rfl⟩ := Option.map_eq_some_iff.1 h
    unfold Sched.tbCountSub at hx
    split at hx
    · rename_i finishing
      cases hx
      have ne : t ≠ u := by
        rintro rfl
        cases F.phase.symm.trans finishing
      exact ⟨F.named, (update_of_ne ne ..).trans F.phase, ready_update F.ready (by simp [Phase.ready])⟩
    · cases hx

end Fresh
end Kupl.Graph
