import Kupl.Static.Build
import Kupl.Task.Taskbase

/-!
# Static graphs with lambdas

`kupl_sgraph_add_node`, `kupl::sgraph_add_node` and `kupl_sgraph_add_dep` of
`src/mt/kupl_static_graph.cpp`. Both of the first two make a task in memory the allocator returns, each
with its own code: the overload for lambdas does not go through `kupl_task_init`, and its taskbase
descriptor has no group.

C++ → Lean naming: `kupl_sgraph_node_desc_t` → `NodeDesc`; `kupl_sgraph_t` with the memory of its
tasks → `TaskGraph`; `kupl_sgraph_add_node` → `sgraphAddNode`; `kupl::sgraph_add_node` →
`sgraphAddNodeLambda`; `kupl_sgraph_add_dep` → `sgraphAddDep`.

`build_equivalent_iff` says when two graphs built by the same calls, one with functions and one with
lambdas, are equivalent.
-/

namespace Kupl.Static
open Dag Prec Kupl.Task Option
open Function (update update_of_ne)

/-- C++ `kupl_sgraph_node_desc_t`. -/
structure NodeDesc where
  fieldMask : BitVec 64
  func : BitVec 64
  args : BitVec 64
  name : BitVec 64
  priority : BitVec 32
  flag : BitVec 32
  egroup : BitVec 64

structure TaskGraph where
  sgraph : Sgraph
  task : Nat → TaskMem

/-- What a call reads beside its arguments: the first executor of a group (C++
`kupl_egroup_master_eid`), the graph and the count of its tasks, the compute place of the caller, the
function that calls a lambda and where a node keeps its lambda. -/
structure NodeEnv where
  egroupMasterEid : BitVec 64 → BitVec 32
  graph : BitVec 64
  count : BitVec 64
  cp : Nat
  lambdaFunc : BitVec 64
  lambdaData : Nat → BitVec 64

/-- The binding to the first executor of the group of a node. -/
def bindMaster (env : NodeEnv) (desc : NodeDesc) (tbDesc : TbDesc) : TbDesc :=
  if Has desc.fieldMask fieldEgroup ∧ desc.egroup ≠ 0 then
    { tbDesc with
      fieldMask := tbDesc.fieldMask ||| fieldExecutorId
      executorId := env.egroupMasterEid desc.egroup }
  else tbDesc

/-- The taskbase descriptor of a node; members without an initializer are zero. -/
def NodeDesc.tbDesc (env : NodeEnv) (desc : NodeDesc) : TbDesc :=
  bindMaster env desc
    { fieldMask := desc.fieldMask
      func := desc.func
      args := desc.args
      name := desc.name
      priority := desc.priority
      flag := desc.flag
      executorId := 0
      egroup := desc.egroup }

def NodeDesc.tbDescLambda (env : NodeEnv) (desc : NodeDesc) (data : BitVec 64) : TbDesc :=
  bindMaster env desc
    { fieldMask := desc.fieldMask
      func := env.lambdaFunc
      args := data
      name := desc.name
      priority := desc.priority
      flag := desc.flag
      executorId := 0
      egroup := 0 }

namespace TaskGraph

/-- C++ `kupl_sgraph_create`. -/
def create (task : Nat → TaskMem) : TaskGraph := ⟨.create, task⟩

/-- Enters a task as the next node. -/
def insert (G : TaskGraph) (task : TaskMem) : TaskGraph where
  sgraph := G.sgraph.addNode
  task := update G.task G.sgraph.taskId
    { task with tb := { task.tb with id := BitVec.ofNat 64 G.sgraph.taskId } }

/-- A node with a function, in some memory (C++ `kupl_sgraph_add_node`); `none` is a null pointer. -/
def sgraphAddNode (env : NodeEnv) (G : TaskGraph) (desc : NodeDesc) (mem : TaskMem) :
    Option TaskGraph :=
  if desc.func = 0 then none
  else some (G.insert (taskInit mem ⟨typeTask, desc.tbDesc env, env.graph, env.count⟩ kindCommStatic env.cp))

/-- A node with a lambda that does the work of `desc.func`, in some memory (C++
`kupl::sgraph_add_node`); `none` is a null pointer. -/
def sgraphAddNodeLambda (env : NodeEnv) (G : TaskGraph) (desc : NodeDesc) (mem : TaskMem) :
    Option TaskGraph :=
  if desc.func = 0 then none
  else some (G.insert {
    tb := tbInit { mem.tb with ref := 1 }
      ⟨typeTask, desc.tbDescLambda env (env.lambdaData G.sgraph.taskId), env.graph, env.count⟩ env.cp
    kind := kindCommStatic })

def finished (G : TaskGraph) (i : Nat) : Bool := decide ((G.task i).tb.state &&& stateFinished ≠ 0)

/-- C++ `kupl_sgraph_add_dep`; `none` is `KUPL_ERROR`, for handles that are not nodes of the graph. -/
def sgraphAddDep (G : TaskGraph) (precede succeed : Nat) : Option TaskGraph :=
  if precede < G.sgraph.taskId ∧ succeed < G.sgraph.taskId then
    some { G with sgraph :=
      { gnode := (gnodePrecede G.finished G.sgraph.gnode (some precede) succeed).1
        taskId := G.sgraph.taskId
        srcNodes := G.sgraph.srcNodes.erase succeed } }
  else none

end TaskGraph

/-- A call that adds to a graph. A node comes with the memory the allocator returns when it is made
with a function and when it is made with a lambda. -/
inductive Op where
  | addNode (desc : NodeDesc) (mem lambdaMem : TaskMem)
  | addDep (precede succeed : Nat)

/-- The graph the calls build with functions, the last call first. -/
def build (env : NodeEnv) (task : Nat → TaskMem) : List Op → Option TaskGraph
  | [] => some (.create task)
  | .addNode desc mem _ :: ops => (build env task ops).bind fun G => G.sgraphAddNode env desc mem
  | .addDep p t :: ops => (build env task ops).bind fun G => G.sgraphAddDep p t

/-- The graph the calls build with lambdas, the last call first. -/
def buildLambda (env : NodeEnv) (task : Nat → TaskMem) : List Op → Option TaskGraph
  | [] => some (.create task)
  | .addNode desc _ mem :: ops =>
    (buildLambda env task ops).bind fun G => G.sgraphAddNodeLambda env desc mem
  | .addDep p t :: ops => (buildLambda env task ops).bind fun G => G.sgraphAddDep p t

/-- Two tasks that differ in what they call at most. The priority counts where its flag is set. -/
structure SameTask (a b : TaskMem) : Prop where
  state : a.tb.state = b.tb.state
  egroup : a.tb.egroup = b.tb.egroup
  executorId : a.tb.executorId = b.tb.executorId
  flag : a.tb.flag = b.tb.flag
  priority : Has a.tb.flag flagPriority → a.tb.priority = b.tb.priority
  name : a.tb.name = b.tb.name
  id : a.tb.id = b.tb.id
  kind : a.kind = b.kind

/-- The same nodes with the same edges, and the same tasks. -/
structure Equivalent (A B : TaskGraph) : Prop where
  sgraph : A.sgraph = B.sgraph
  task : ∀ i < A.sgraph.taskId, SameTask (A.task i) (B.task i)

/-- Every edge added is there. -/
def Registers (G : TaskGraph) (ops : List Op) : Prop :=
  ∀ p t, .addDep p t ∈ ops → t ∈ succs G.sgraph.gnode p

/-- The flags a node is given raise that of a priority without there being one. -/
def NodeDesc.Unset (desc : NodeDesc) : Prop :=
  ¬Has desc.fieldMask fieldPriority ∧ Has desc.fieldMask fieldFlag ∧ Has (desc.flag.setWidth 64) flagPriority

instance (desc : NodeDesc) : Decidable desc.Unset := inferInstanceAs (Decidable (_ ∧ _))

/-- The memory of a lambda node has the state of a new task by chance, and the node has no group. If
its priority is to be read without having been set, it is the same by chance too. -/
def Op.Fit : Op → Prop
  | .addNode desc mem lambdaMem => lambdaMem.tb.state = stateInit ∧
      (Has desc.fieldMask fieldEgroup → desc.egroup = 0) ∧
      (desc.Unset → lambdaMem.tb.priority = mem.tb.priority)
  | .addDep _ _ => True

instance : ∀ op : Op, Decidable op.Fit
  | .addNode _ _ _ => inferInstanceAs (Decidable (_ ∧ _ ∧ _))
  | .addDep _ _ => isTrue trivial

section Node
variable {env : NodeEnv} {desc : NodeDesc} {data : BitVec 64} {mem lambdaMem : TaskMem} {i : Nat}

lemma has_or {m f h : BitVec 64} (other : h &&& f = 0) : Has (m ||| h) f ↔ Has m f := by
  simp only [Has, BitVec.and_or_distrib_right, other]
  rw [show m &&& f ||| 0 = m &&& f from BitVec.or_zero]

lemma tbDescLambda_spec : (desc.tbDescLambda env data).fieldMask = (desc.tbDesc env).fieldMask ∧
      (desc.tbDescLambda env data).name = (desc.tbDesc env).name ∧
      (desc.tbDescLambda env data).priority = (desc.tbDesc env).priority ∧
      (desc.tbDescLambda env data).flag = (desc.tbDesc env).flag ∧
      (desc.tbDescLambda env data).executorId = (desc.tbDesc env).executorId ∧
      (desc.tbDescLambda env data).egroup = 0 ∧ (desc.tbDesc env).egroup = desc.egroup := by
  unfold NodeDesc.tbDescLambda NodeDesc.tbDesc bindMaster
  split <;> exact ⟨rfl, rfl, rfl, rfl, rfl, rfl, rfl⟩

lemma tbDesc_has {f : BitVec 64} (other : fieldExecutorId &&& f = 0) :
    Has (desc.tbDesc env).fieldMask f ↔ Has desc.fieldMask f := by
  unfold NodeDesc.tbDesc bindMaster
  split
  · exact has_or other
  · exact Iff.rfl

lemma tbDesc_flag : (desc.tbDesc env).flag = desc.flag := by
  unfold NodeDesc.tbDesc bindMaster
  split <;> rfl

def lambdaTask (env : NodeEnv) (desc : NodeDesc) (mem : TaskMem) (i : Nat) : TaskMem where
  tb := { tbInit { mem.tb with ref := 1 }
    ⟨typeTask, desc.tbDescLambda env (env.lambdaData i), env.graph, env.count⟩ env.cp with
      id := BitVec.ofNat 64 i }
  kind := kindCommStatic

/-- A node with a function. -/
def plainTask (env : NodeEnv) (desc : NodeDesc) (mem : TaskMem) (i : Nat) : TaskMem :=
  let task := taskInit mem ⟨typeTask, desc.tbDesc env, env.graph, env.count⟩ kindCommStatic env.cp
  { task with tb := { task.tb with id := BitVec.ofNat 64 i } }

lemma sameTask_iff : SameTask (lambdaTask env desc lambdaMem i) (plainTask env desc mem i) ↔
    (Op.addNode desc mem lambdaMem).Fit := by
  obtain ⟨mask, name, priority, flag, executorId, none, egroup⟩ :=
    @tbDescLambda_spec env desc (env.lambdaData i)
  have lambdaNone : (lambdaTask env desc lambdaMem i).tb.egroup = 0 := by
    simp only [lambdaTask]
    rw [tbInit_egroup, none, ite_self]
  have plainGroup : (plainTask env desc mem i).tb.egroup =
      if Has desc.fieldMask fieldEgroup then desc.egroup else 0 := by
    simp only [plainTask, taskInit]
    rw [tbInit_egroup, egroup]
    simp only [tbDesc_has (show fieldExecutorId &&& fieldEgroup = 0 by decide)]
  have stateEq : (lambdaTask env desc lambdaMem i).tb.state = lambdaMem.tb.state := by
    simp only [lambdaTask, tbInit]
    split <;> rfl
  -- where the priority of a node is read
  have raised : Has (lambdaTask env desc lambdaMem i).tb.flag flagPriority ↔
      Has desc.fieldMask fieldPriority ∨ desc.Unset := by
    simp only [lambdaTask]
    rw [tbInit_flag, mask, flag]
    simp only [tbDesc_has (show fieldExecutorId &&& fieldPriority = 0 by decide),
      tbDesc_has (show fieldExecutorId &&& fieldFlag = 0 by decide)]
    by_cases prio : Has desc.fieldMask fieldPriority
    · rw [if_pos prio]
      exact iff_of_true has_or_self (.inl prio)
    · rw [if_neg prio]
      by_cases given : Has desc.fieldMask fieldFlag
      · rw [if_pos given, show ∀ v : BitVec 64, v ||| 0 = v from fun v => BitVec.or_zero]
        have : (desc.tbDesc env).flag = desc.flag := tbDesc_flag
        simp [NodeDesc.Unset, prio, given, this]
      · rw [if_neg given]
        exact iff_of_false (by decide) fun h => h.elim prio fun unset => given unset.2.1
  have flagEq : (lambdaTask env desc lambdaMem i).tb.flag = (plainTask env desc mem i).tb.flag := by
    simp only [lambdaTask, plainTask, taskInit]
    rw [tbInit_flag, tbInit_flag, mask, flag]
  have priorityEq : ((lambdaTask env desc lambdaMem i).tb.priority = (plainTask env desc mem i).tb.priority) ↔
        (¬Has desc.fieldMask fieldPriority → lambdaMem.tb.priority = mem.tb.priority) := by
    simp only [lambdaTask, plainTask, taskInit]
    rw [tbInit_priority, tbInit_priority, mask, priority]
    simp only [tbDesc_has (show fieldExecutorId &&& fieldPriority = 0 by decide)]
    split
    · rename_i has
      simp [has]
    · rename_i has
      simp [has]
  constructor
  · intro same
    refine ⟨stateEq.symm.trans same.state, fun has => ?_, fun unset => ?_⟩
    · have := same.egroup
      rw [lambdaNone, plainGroup, if_pos has] at this
      exact this.symm
    · exact priorityEq.1 (same.priority (raised.2 (.inr unset))) unset.1
  · rintro ⟨init, noGroup, chance⟩
    refine ⟨stateEq.trans init, ?_, ?_, flagEq, fun prio => priorityEq.2 fun no => ?_, ?_, rfl, rfl⟩
    · rw [lambdaNone, plainGroup]
      split
      · rename_i has
        exact (noGroup has).symm
      · rfl
    · simp only [lambdaTask, plainTask, taskInit]
      rw [tbInit_executorId, tbInit_executorId, mask, executorId]
    · exact chance ((raised.1 prio).resolve_left no)
    · simp only [lambdaTask, plainTask, taskInit]
      rw [tbInit_name, tbInit_name, mask, name]

end Node

section Build
variable {env : NodeEnv} {task lambda : Nat → TaskMem} {ops : List Op} {A B : TaskGraph}
variable {G G' : TaskGraph} {p t : Nat}

lemma sgraphAddNode_eq {desc : NodeDesc} {mem : TaskMem} (h : G.sgraphAddNode env desc mem = some G') :
    G' = ⟨G.sgraph.addNode, update G.task G.sgraph.taskId (plainTask env desc mem G.sgraph.taskId)⟩ := by
  unfold TaskGraph.sgraphAddNode at h
  split at h
  · cases h
  · cases h
    rfl

lemma sgraphAddNodeLambda_eq {desc : NodeDesc} {mem : TaskMem} (h : G.sgraphAddNodeLambda env desc mem = some G') :
    G' = ⟨G.sgraph.addNode, update G.task G.sgraph.taskId (lambdaTask env desc mem G.sgraph.taskId)⟩ := by
  unfold TaskGraph.sgraphAddNodeLambda at h
  split at h
  · cases h
  · cases h
    rfl

lemma sgraphAddDep_eq (h : G.sgraphAddDep p t = some G') :
    p < G.sgraph.taskId ∧ G'.task = G.task ∧ G'.sgraph.taskId = G.sgraph.taskId ∧ G'.sgraph = { G'.sgraph with
        gnode := (gnodePrecede G.finished G.sgraph.gnode (some p) t).1
        srcNodes := G.sgraph.srcNodes.erase t } := by
  unfold TaskGraph.sgraphAddDep at h
  split at h
  · rename_i bound
    cases h
    exact ⟨bound.1, rfl, rfl, rfl⟩
  · cases h

lemma build_task (ha : buildLambda env lambda ops = some A) (hb : build env task ops = some B) :
    A.sgraph.taskId = B.sgraph.taskId ∧
      ((∀ i < A.sgraph.taskId, SameTask (A.task i) (B.task i)) ↔ ∀ op ∈ ops, op.Fit) := by
  induction ops generalizing A B with
  | nil =>
    cases ha
    cases hb
    exact ⟨rfl, by simp [TaskGraph.create, Sgraph.create]⟩
  | cons op ops ih =>
    cases op with
    | addNode desc mem lambdaMem =>
      obtain ⟨A₀, hA, ha⟩ := bind_eq_some_iff.1 ha
      obtain ⟨B₀, hB, hb⟩ := bind_eq_some_iff.1 hb
      obtain ⟨same, tasks⟩ := ih hA hB
      obtain rfl := sgraphAddNodeLambda_eq ha
      obtain rfl := sgraphAddNode_eq hb
      refine ⟨congrArg (· + 1) same, ?_⟩
      rw [List.forall_mem_cons, ← tasks, ← @sameTask_iff env desc mem lambdaMem A₀.sgraph.taskId]
      simp only [Sgraph.addNode, ← same]
      constructor
      · intro all
        refine ⟨?_, fun i hi => ?_⟩
        · simpa using all A₀.sgraph.taskId (Nat.lt_succ_self _)
        · have := all i (Nat.lt_succ_of_lt hi)
          rwa [update_of_ne hi.ne, update_of_ne hi.ne] at this
      · rintro ⟨new, old⟩ i hi
        obtain rfl | ne := eq_or_ne i A₀.sgraph.taskId
        · simpa using new
        · rw [update_of_ne ne, update_of_ne ne]
          exact old i (by omega)
    | addDep p t =>
      obtain ⟨A₀, hA, ha⟩ := bind_eq_some_iff.1 ha
      obtain ⟨B₀, hB, hb⟩ := bind_eq_some_iff.1 hb
      obtain ⟨same, tasks⟩ := ih hA hB
      obtain ⟨-, taskA, idA, -⟩ := sgraphAddDep_eq ha
      obtain ⟨-, taskB, idB, -⟩ := sgraphAddDep_eq hb
      refine ⟨by rw [idA, idB, same], ?_⟩
      rw [List.forall_mem_cons, taskA, taskB, idA, tasks]
      exact ⟨fun h => ⟨trivial, h⟩, fun h => h.2⟩

lemma sgraphAddDep_unfinished (h : G.sgraphAddDep p t = some G')
    (init : ∀ i < G.sgraph.taskId, (G.task i).tb.state = stateInit) : G.sgraph.addDep p t = some G'.sgraph := by
  unfold TaskGraph.sgraphAddDep at h
  unfold Sgraph.addDep
  split at h
  · rename_i bound
    cases h
    have live : G.finished p = false := by
      simp only [TaskGraph.finished, init p bound.1]
      decide
    rw [if_pos bound]
    simp [gnodePrecede, live]
  · cases h

lemma mem_succs_addDep {G G' : Sgraph} (h : G.addDep p t = some G') :
    t ∈ succs G'.gnode p ∧ ∀ q, succs G.gnode q ⊆ succs G'.gnode q := by
  unfold Sgraph.addDep at h
  split at h
  · cases h
    simp only [gnodePrecede, Bool.false_eq_true, if_false, succs_count, succs_insert]
    refine ⟨by simp, fun q u hu => ?_⟩
    obtain rfl | ne := eq_or_ne q p
    · rw [Function.update_self]
      exact List.mem_cons_of_mem _ hu
    · rwa [update_of_ne ne]
  · cases h

lemma build_spec (hb : build env task ops = some B) : (∃ n deps, Built n deps B.sgraph) ∧
    (∀ i < B.sgraph.taskId, (B.task i).tb.state = stateInit) ∧ Registers B ops := by
  induction ops generalizing B with
  | nil =>
    cases hb
    exact ⟨⟨0, [], .create⟩, fun i hi => absurd hi (Nat.not_lt_zero i), (by rintro _ _ ⟨⟩)⟩
  | cons op ops ih =>
    cases op with
    | addNode desc mem lambdaMem =>
      obtain ⟨B₀, hB, hb⟩ := bind_eq_some_iff.1 hb
      obtain ⟨⟨_, _, built⟩, init, edges⟩ := ih hB
      obtain rfl := sgraphAddNode_eq hb
      refine ⟨⟨_, _, built.addNode⟩, fun i hi => ?_, fun p t hp => ?_⟩
      · obtain rfl | ne := eq_or_ne i B₀.sgraph.taskId
        · simp [plainTask, taskInit]
        · simp only [update_of_ne ne]
          simp only [Sgraph.addNode] at hi
          exact init i (by omega)
      · rw [built.formed.succs_addNode]
        exact edges p t ((List.mem_cons.1 hp).resolve_left (by rintro ⟨⟩))
    | addDep q u =>
      obtain ⟨B₀, hB, hb⟩ := bind_eq_some_iff.1 hb
      obtain ⟨⟨_, _, built⟩, init, edges⟩ := ih hB
      have dep := sgraphAddDep_unfinished hb init
      obtain ⟨-, task, id, -⟩ := sgraphAddDep_eq hb
      obtain ⟨new, old⟩ := mem_succs_addDep dep
      refine ⟨⟨_, _, built.addDep dep⟩, fun i hi => ?_, fun p t hp => ?_⟩
      · rw [id] at hi
        rw [task]
        exact init i hi
      · obtain eq | hp := List.mem_cons.1 hp
        · cases eq
          exact new
        · exact old p (edges p t hp)

lemma buildLambda_sgraph (ha : buildLambda env lambda ops = some A)
    (hb : build env task ops = some B) (fit : ∀ op ∈ ops, op.Fit) : A.sgraph = B.sgraph := by
  induction ops generalizing A B with
  | nil =>
    cases ha
    cases hb
    rfl
  | cons op ops ih =>
    have fit₀ : ∀ op ∈ ops, op.Fit := fun op h => fit op (List.mem_cons_of_mem _ h)
    cases op with
    | addNode desc mem lambdaMem =>
      obtain ⟨A₀, hA, ha⟩ := bind_eq_some_iff.1 ha
      obtain ⟨B₀, hB, hb⟩ := bind_eq_some_iff.1 hb
      obtain rfl := sgraphAddNodeLambda_eq ha
      obtain rfl := sgraphAddNode_eq hb
      exact congrArg Sgraph.addNode (ih hA hB fit₀)
    | addDep p t =>
      obtain ⟨A₀, hA, ha⟩ := bind_eq_some_iff.1 ha
      obtain ⟨B₀, hB, hb⟩ := bind_eq_some_iff.1 hb
      obtain ⟨same, tasks⟩ := build_task hA hB
      obtain ⟨-, init, -⟩ := build_spec hB
      have initA : ∀ i < A₀.sgraph.taskId, (A₀.task i).tb.state = stateInit := fun i hi =>
        (tasks.2 fit₀ i hi).state.trans (init i (same ▸ hi))
      have depA := sgraphAddDep_unfinished ha initA
      have depB := sgraphAddDep_unfinished hb init
      rw [ih hA hB fit₀] at depA
      exact Option.some.inj (depA.symm.trans depB)

/-- Two graphs built by the same calls, one with functions and one with lambdas, are equivalent and the
latter has all its edges exactly if the memory and the groups of its nodes fit. -/
theorem build_equivalent_iff (ha : buildLambda env lambda ops = some A) (hb : build env task ops = some B) :
    Equivalent A B ∧ Registers A ops ↔ ∀ op ∈ ops, op.Fit := by
  constructor
  · rintro ⟨same, -⟩
    exact (build_task ha hb).2.1 same.task
  · intro fit
    have same := buildLambda_sgraph ha hb fit
    refine ⟨⟨same, (build_task ha hb).2.2 fit⟩, fun p t hp => ?_⟩
    rw [same]
    exact (build_spec hb).2.2 p t hp

end Build

def stateMem (state : BitVec 32) : TaskMem :=
  ⟨⟨0, none, 0, 0, 0, 0, 0, 0, 0, 0, 0, 0, 0, state, 0⟩, 0⟩

/-- A caller. -/
def nodeEnv : NodeEnv := ⟨fun _ => 0, 0, 0, 0, 0, fun _ => 0⟩

/-- Two nodes and an edge, with the group `egroup` for the first node, whose memory has some state when
it is made with a lambda. -/
def twoNodes (egroup : BitVec 64) (state : BitVec 32) : List Op :=
  [.addDep 0 1, .addNode ⟨0, 1, 0, 0, 0, 0, 0⟩ (stateMem 0) (stateMem stateInit),
    .addNode ⟨fieldEgroup, 1, 0, 0, 0, 0, egroup⟩ (stateMem 0) (stateMem state)]

/-- Two nodes and a dependency. -/
theorem build_equivalent_two : ∃ A B, buildLambda nodeEnv (fun _ => stateMem 0) (twoNodes 0 stateInit) = some A ∧
      build nodeEnv (fun _ => stateMem 0) (twoNodes 0 stateInit) = some B ∧ Equivalent A B := by
  obtain ⟨A, hA⟩ := isSome_iff_exists.1
    (show (buildLambda nodeEnv (fun _ => stateMem 0) (twoNodes 0 stateInit)).isSome by rfl)
  obtain ⟨B, hB⟩ := isSome_iff_exists.1
    (show (build nodeEnv (fun _ => stateMem 0) (twoNodes 0 stateInit)).isSome by rfl)
  exact ⟨A, B, hA, hB, ((build_equivalent_iff hA hB).2 (by decide)).1⟩

/-- In memory of a finished task the edge is lost, and with it the second node, which is no longer one
to begin with. A group is lost in any memory. -/
theorem buildLambda_lost : (∃ A, buildLambda nodeEnv (fun _ => stateMem 0) (twoNodes 0 stateFinished) = some A ∧
      A.sgraph.srcNodes = [0] ∧ ¬Registers A (twoNodes 0 stateFinished)) ∧
    ∃ A B, buildLambda nodeEnv (fun _ => stateMem 0) (twoNodes 5 stateInit) = some A ∧
      build nodeEnv (fun _ => stateMem 0) (twoNodes 5 stateInit) = some B ∧ ¬Equivalent A B := by
  constructor
  · refine ⟨_, rfl, by decide, fun edges => ?_⟩
    exact absurd (edges 0 1 List.mem_cons_self) (by decide)
  · refine ⟨_, _, rfl, rfl, fun same => ?_⟩
    exact absurd (same.task 0 (by decide)).egroup (by decide)

end Kupl.Static
