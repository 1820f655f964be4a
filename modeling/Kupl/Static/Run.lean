import Kupl.Static.Build
import Kupl.Task.Finish
import Kupl.Machine.Run

/-!
# The runs of a static graph

`src/mt/kupl_static_graph.cpp`: a submission of a static graph executes `kupl_sgraph_task_body`, which
adds the nodes without predecessor to the scheduler and waits until the count of the graph is zero.
The nodes are executed in any order; a node that finishes is armed again before it releases its
successors.

C++ → Lean naming: `kupl_sgraph_task_body` → `begin`, `addSource`, `endRun`; the steps of a node are
those of `Kupl.Task.Finish` with the reset of a static task.

The state bits of a node are INIT before and after a run, so a run begins with all phases at
`waiting`; `done` says that a node is through with this run. `executed` counts the executions of a
node in the run.
-/

namespace Kupl.Static
open Dag Prec Kupl.Task Finset Option
open Function (update update_of_ne)

structure RunState where
  sched : Sched Nat
  /-- The nodes that the body has still to add; `none` between two runs. -/
  toAdd : Option (List Nat)
  executed : Nat → Nat
  runs : Nat

/-- The steps of the body and of the nodes. -/
inductive Label where
  | begin
  | addSource
  | execute (t : Nat)
  | finish (t : Nat)
  | schedule (t : Nat)
  | countSub (t : Nat)
  | endRun

namespace RunState

def step (G : Sgraph) (s : RunState) : Label → Option RunState
  | .begin =>
    match s.toAdd with
    | none =>
      some { s with
        sched := { s.sched with phase := fun _ => .waiting }
        toAdd := some G.srcNodes
        executed := fun _ => 0 }
    | some _ => none
  | .addSource =>
    match s.toAdd with
    | some (t :: ts) => some { s with sched := s.sched.schedAddTb t, toAdd := some ts }
    | _ => none
  | .execute t =>
    if s.toAdd = none then none
    else (s.sched.taskExecute t).map fun x =>
      { s with sched := x, executed := update s.executed t (s.executed t + 1) }
  | .finish t =>
    if s.toAdd = none then none
    else (s.sched.taskFinish true t).map fun x => { s with sched := x }
  | .schedule t =>
    if s.toAdd = none then none
    else (s.sched.taskSchedule t).map fun x => { s with sched := x }
  | .countSub t =>
    if s.toAdd = none then none
    else (s.sched.tbCountSub t).map fun x => { s with sched := x }
  | .endRun =>
    if s.toAdd = some [] ∧ s.sched.count = 0 then
      some { s with toAdd := none, runs := s.runs + 1 }
    else none

/-- The graph has been built and not run. -/
def start (G : Sgraph) : RunState where
  sched := ⟨G.gnode, fun _ => .waiting, 0⟩
  toAdd := none
  executed := fun _ => 0
  runs := 0

/-- How far a node is from the end of the run. -/
def steps : Phase Nat → Nat
  | .waiting => 5
  | .collected => 4
  | .queued => 3
  | .running => 2
  | .finishing _ => 1
  | .done => 0

/-- What is left to do in a run. -/
def work (G : Sgraph) (s : RunState) : Nat := ∑ t ∈ G.nodes, steps (s.sched.phase t)

end RunState

/-- The runs of a static graph. -/
def machine (G : Sgraph) : Machine RunState Label where
  init s := s = .start G
  step := RunState.step G

structure Running (G : Sgraph) (s : RunState) (todo : List Nat) : Prop where
  sched : s.sched.Inv G.nodes fun t => t ∈ todo
  nodup : todo.Nodup
  succ : succs s.sched.gnode = succs G.gnode
  hard : ∀ t, (s.sched.gnode t).nHardPredecessors = (G.gnode t).nHardPredecessors
  armed : ∀ t, (s.sched.phase t).isFinished = true →
    (s.sched.gnode t).nPredecessors = (s.sched.gnode t).nHardPredecessors
  executed : ∀ t, s.executed t = if (s.sched.phase t).isStarted then 1 else 0

/-- What holds between two runs. -/
structure Idle (G : Sgraph) (s : RunState) : Prop where
  succ : succs s.sched.gnode = succs G.gnode
  hard : ∀ t, (s.sched.gnode t).nHardPredecessors = (G.gnode t).nHardPredecessors
  armed : ∀ t ∈ G.nodes, (s.sched.gnode t).nPredecessors = (s.sched.gnode t).nHardPredecessors
  count : s.sched.count = 0
  fresh : s.runs = 0 → ∀ t, s.executed t = 0
  ran : 0 < s.runs → (∀ t ∈ G.nodes, s.executed t = 1 ∧ s.sched.phase t = .done) ∧ ∀ t, t ∉ G.nodes →
    s.executed t = 0

def RunInv (G : Sgraph) (s : RunState) : Prop :=
  match s.toAdd with
  | none => Idle G s
  | some todo => Running G s todo

section Inv
variable {G : Sgraph} {s s' : RunState} {todo : List Nat} {t : Nat}

lemma Idle.begin (F : Formed G) (I : Idle G s) {x e} (hx : x.gnode = s.sched.gnode) (hp : x.phase = fun _ => .waiting)
    (hc : x.count = s.sched.count) (he : ∀ t, e t = 0) {r} : Running G ⟨x, some G.srcNodes, e, r⟩ G.srcNodes := by
  have succ_eq : succs x.gnode = succs G.gnode := by rw [hx, I.succ]
  have degree : ∀ u, x.pending G.nodes u = G.indegree u := by
    intro u
    simp only [Sched.pending, succ_eq, Sgraph.indegree]
    refine pending_congr (fun _ _ _ => rfl) fun q _ => ?_
    simp [Sched.live, hp, Phase.isFinished]
  refine ⟨⟨?_, ?_, ?_, ?_, ?_, ?_, ?_, ?_, ?_, ?_, ?_⟩, F.nodup, succ_eq, ?_, ?_, ?_⟩
  · rw [succ_eq]
    exact F.edge
  · intro u hu _
    rw [degree, hx, I.armed u hu, I.hard, F.hard u hu]
  · simp [hp]
  · intro u hu _ h0
    rw [degree] at h0
    exact (F.src u).2 ⟨hu, h0⟩
  · intro u hu
    obtain ⟨h1, h2⟩ := (F.src u).1 hu
    exact ⟨h1, by simp [hp], by rw [degree]; exact h2⟩
  · simp [hp, Phase.ready]
  · simp [hp]
  · simp [hp, Phase.ready]
  · simp [hp, Phase.ready]
  · simp [hp]
  · simp [Sched.busy, hp, hc, I.count, Phase.isCounted]
  · intro u
    rw [hx]
    exact I.hard u
  · simp [hp, Phase.isFinished]
  · intro u
    simp [hp, he, Phase.isStarted]

lemma Running.addSource {ts e r} {x : Sched Nat} (R : Running G ⟨x, some (t :: ts), e, r⟩ (t :: ts)) :
    Running G ⟨x.schedAddTb t, some ts, e, r⟩ ts := by
  obtain ⟨notMem, nodup⟩ := List.nodup_cons.1 R.nodup
  have tw : x.phase t = .waiting := (R.sched.first t List.mem_cons_self).2.1
  have phase_ne : ∀ u, u ≠ t → (x.schedAddTb t).phase u = x.phase u := fun u hu => by
    simp [Sched.schedAddTb, hu]
  have phase_t : (x.schedAddTb t).phase t = .queued := by simp [Sched.schedAddTb]
  refine ⟨?_, nodup, R.succ, R.hard, ?_, ?_⟩
  · refine (R.sched.addTb List.mem_cons_self).congr fun u => ?_
    rw [List.mem_cons]
    refine ⟨fun h => h.1.resolve_left h.2, fun h => ⟨.inr h, ?_⟩⟩
    rintro rfl
    exact notMem h
  · intro u hu
    have ne : u ≠ t := by
      rintro rfl
      rw [phase_t] at hu
      cases hu
    exact R.armed u (by rwa [phase_ne u ne] at hu)
  · intro u
    by_cases ne : u = t
    · subst ne
      simpa [phase_t, tw, Phase.isStarted] using R.executed u
    · simpa [phase_ne u ne] using R.executed u

variable {x x' : Sched Nat}

lemma Running.execute {e r} (R : Running G ⟨x, some todo, e, r⟩ todo) (h : x.taskExecute t = some x') :
    Running G ⟨x', some todo, update e t (e t + 1), r⟩ todo := by
  have inv := R.sched.execute h
  unfold Sched.taskExecute at h
  split at h
  swap
  · cases h
  rename_i queued
  cases h
  have queued : x.phase t = .queued := queued
  refine ⟨inv, R.nodup, R.succ, R.hard, ?_, ?_⟩
  · intro u hu
    have ne : u ≠ t := by
      rintro rfl
      simp [Phase.isFinished] at hu
    exact R.armed u (by simpa [ne] using hu)
  · intro u
    have old := R.executed u
    by_cases ne : u = t
    · subst ne
      simp only [queued] at old
      simpa [Phase.isStarted] using old
    · simpa [ne] using old

lemma Running.finish {e r} (R : Running G ⟨x, some todo, e, r⟩ todo)
    (h : x.taskFinish true t = some x') : Running G ⟨x', some todo, e, r⟩ todo := by
  have inv := R.sched.finish h
  unfold Sched.taskFinish at h
  split at h
  swap
  · cases h
  rename_i run
  cases h
  have run : x.phase t = .running := run
  have out : ∀ u, x.phase u ≠ .waiting → u ∉ succs x.gnode t := by
    intro u hu edge
    have := R.sched.preds_finished hu edge
    simp [run, Phase.isFinished] at this
  have succ_t : (Sched.taskReset true x.gnode t t).successors = succs x.gnode t :=
    congrFun Sched.succs_taskReset t
  have started : ∀ u, (update (fun u => if u ∈ (gnodeReleaseReady
      (Sched.taskReset true x.gnode t) t).2 then Phase.collected else x.phase u) t
      (.finishing (gnodeReleaseReady (Sched.taskReset true x.gnode t) t).2) u).isStarted =
      (x.phase u).isStarted := by
    intro u
    by_cases ne : u = t
    · subst ne
      simp [run, Phase.isStarted]
    · rw [update_of_ne ne]
      split
      · rename_i mem
        rw [(R.sched.collect run Sched.succs_taskReset mem).2]
        rfl
      · rfl
  refine ⟨inv, R.nodup, ?_, ?_, ?_, ?_⟩
  · refine Eq.trans ?_ R.succ
    exact succs_releaseWalk.trans Sched.succs_taskReset
  · intro u
    refine Eq.trans ?_ (R.hard u)
    simp [gnodeReleaseReady, Sched.taskReset]
  · intro u hu
    have notMem : u ∉ succs x.gnode t := by
      by_cases ne : u = t
      · exact out u (by simp [ne, run])
      · refine out u fun w => ?_
        simp only [update_of_ne ne, w] at hu
        split at hu <;> cases hu
    simp only [gnodeReleaseReady, releaseWalk_nPredecessors, releaseWalk_nHardPredecessors, succ_t,
      List.count_eq_zero_of_not_mem notMem]
    by_cases ne : u = t
    · subst ne
      simp [Sched.taskReset, gnodeReset]
    · have fin : (x.phase u).isFinished = true := by
        simp only [update_of_ne ne] at hu
        split at hu
        · cases hu
        · exact hu
      simpa [Sched.taskReset, gnodeReset, ne] using R.armed u fin
  · intro u
    exact (R.executed u).trans (by simp only [started])

lemma Running.schedule {e r} (R : Running G ⟨x, some todo, e, r⟩ todo)
    (h : x.taskSchedule t = some x') : Running G ⟨x', some todo, e, r⟩ todo := by
  have inv := R.sched.schedule h
  unfold Sched.taskSchedule at h
  split at h
  swap
  · cases h
  rename_i u us run
  cases h
  have run : x.phase t = .finishing (u :: us) := run
  have uc : x.phase u = .collected := R.sched.ready t u (by simp [run, Phase.ready])
  have bits : ∀ v, (update (update x.phase t (.finishing us)) u .queued v).isFinished = (x.phase v).isFinished ∧
      (update (update x.phase t (.finishing us)) u .queued v).isStarted =
      (x.phase v).isStarted := by
    intro v
    by_cases e1 : v = u
    · subst e1
      simp [uc, Phase.isFinished, Phase.isStarted]
    · by_cases e2 : v = t
      · subst e2
        simp [e1, run, Phase.isFinished, Phase.isStarted]
      · simp [e1, e2]
  refine ⟨inv, R.nodup, R.succ, R.hard, fun v hv => R.armed v ?_, fun v => ?_⟩
  · rw [← (bits v).1]
    exact hv
  · exact (R.executed v).trans (by simp only [← (bits v).2]; rfl)

lemma Running.countSub {e r} (R : Running G ⟨x, some todo, e, r⟩ todo)
    (h : x.tbCountSub t = some x') : Running G ⟨x', some todo, e, r⟩ todo := by
  have inv := R.sched.countSub h
  unfold Sched.tbCountSub at h
  split at h
  swap
  · cases h
  rename_i run
  cases h
  have run : x.phase t = .finishing [] := run
  have bits : ∀ v, (update x.phase t .done v).isFinished = (x.phase v).isFinished ∧
      (update x.phase t .done v).isStarted = (x.phase v).isStarted := by
    intro v
    by_cases ne : v = t
    · subst ne
      simp [run, Phase.isFinished, Phase.isStarted]
    · simp [ne]
  refine ⟨inv, R.nodup, R.succ, R.hard, fun v hv => R.armed v ?_, fun v => ?_⟩
  · rw [← (bits v).1]
    exact hv
  · exact (R.executed v).trans (by simp only [← (bits v).2])

lemma Running.endRun {e r r'} {x : Sched Nat} (F : Formed G) (acyclic : G.Acyclic)
    (R : Running G ⟨x, some [], e, r⟩ [])
    (h0 : x.count = 0) : Idle G ⟨x, none, e, r' + 1⟩ := by
  have wf := wellFounded_of_acyclic F.edge acyclic
  rw [← R.succ] at wf
  have done := R.sched.all_done h0 (by simp) wf
  refine ⟨R.succ, R.hard, ?_, h0, by simp, fun _ => ⟨?_, ?_⟩⟩
  · intro u hu
    exact R.armed u (by simp [show x.phase u = .done from done u hu, Phase.isFinished])
  · intro u hu
    have phase : x.phase u = .done := done u hu
    refine ⟨?_, phase⟩
    simpa [phase, Phase.isStarted] using R.executed u
  · intro u hu
    have phase : x.phase u = .waiting := by
      by_contra w
      exact hu (R.sched.outside u w)
    simpa [phase, Phase.isStarted] using R.executed u

lemma RunInv.start (F : Formed G) : RunInv G (.start G) :=
  ⟨rfl, fun _ => rfl, fun t _ => F.armed t, rfl, fun _ _ => rfl, by simp [RunState.start]⟩

lemma RunInv.step {a : Label} (F : Formed G) (acyclic : G.Acyclic) (I : RunInv G s)
    (h : s.step G a = some s') : RunInv G s' := by
  obtain ⟨x, todo, e, r⟩ := s
  cases todo with
  | none =>
    cases a with
    | begin =>
      cases h
      exact Idle.begin (x := { x with phase := fun _ => .waiting }) F I rfl rfl rfl fun _ => rfl
    | addSource | execute t | finish t | schedule t | countSub t => cases h
    | endRun => simp [RunState.step] at h
  | some todo =>
    have R : Running G ⟨x, some todo, e, r⟩ todo := I
    cases a with
    | begin => cases h
    | addSource =>
      cases todo with
      | nil => cases h
      | cons t ts =>
        cases h
        exact R.addSource
    | execute t =>
      obtain ⟨x', hx, rfl⟩ := map_eq_some_iff.1 h
      exact R.execute hx
    | finish t =>
      obtain ⟨x', hx, rfl⟩ := map_eq_some_iff.1 h
      exact R.finish hx
    | schedule t =>
      obtain ⟨x', hx, rfl⟩ := map_eq_some_iff.1 h
      exact R.schedule hx
    | countSub t =>
      obtain ⟨x', hx, rfl⟩ := map_eq_some_iff.1 h
      exact R.countSub hx
    | endRun =>
      simp only [RunState.step, Option.some.injEq] at h
      split at h
      · rename_i rest
        cases h
        obtain ⟨rfl, h0⟩ := rest
        exact R.endRun F acyclic h0
      · cases h

end Inv

section Progress
variable {G : Sgraph} {s' : RunState} {todo : List Nat}
variable {x : Sched Nat}

lemma work_lt {p : Phase Nat} {t : Nat} (ht : t ∈ G.nodes) (lt : RunState.steps p < RunState.steps (x.phase t)) :
    ∑ u ∈ G.nodes, RunState.steps (update x.phase t p u) < ∑ u ∈ G.nodes, RunState.steps (x.phase u) := by
  have sum := sum_change (f := fun u => RunState.steps (x.phase u))
    (g := fun u => RunState.steps (update x.phase t p u)) ht
    (fun u _ hu => by simp only [update_of_ne hu])
  simp only [Function.update_self] at sum
  omega

lemma Running.shrink {a : Label} {e r} (R : Running G ⟨x, some todo, e, r⟩ todo)
    (h : RunState.step G ⟨x, some todo, e, r⟩ a = some s') :
    s'.toAdd = none ∨ s'.work G < RunState.work G ⟨x, some todo, e, r⟩ := by
  have inside : ∀ t, x.phase t ≠ .waiting → t ∈ G.nodes := R.sched.outside
  cases a with
  | begin => cases h
  | addSource =>
    cases todo with
    | nil => cases h
    | cons t ts =>
      cases h
      obtain ⟨tV, tw, -⟩ := R.sched.first t List.mem_cons_self
      have tw : x.phase t = .waiting := tw
      exact .inr (work_lt tV (by simp [tw, RunState.steps]))
  | execute t =>
    obtain ⟨x', hx, rfl⟩ := map_eq_some_iff.1 h
    unfold Sched.taskExecute at hx
    split at hx <;> cases hx
    rename_i run
    have run : x.phase t = .queued := run
    exact .inr (work_lt (inside t (by simp [run])) (by simp [run, RunState.steps]))
  | finish t =>
    obtain ⟨x', hx, rfl⟩ := map_eq_some_iff.1 h
    unfold Sched.taskFinish at hx
    split at hx <;> cases hx
    rename_i run
    have run : x.phase t = .running := run
    refine .inr (sum_lt_sum ?_ ⟨t, inside t (by simp [run]), ?_⟩)
    · intro u _
      by_cases ne : u = t
      · subst ne
        simp [run, RunState.steps]
      · simp only [update_of_ne ne]
        split
        · rename_i mem
          have waiting : x.phase u = .waiting :=
            (R.sched.collect run Sched.succs_taskReset mem).2
          simp [waiting, RunState.steps]
        · exact le_rfl
    · simp [run, RunState.steps]
  | schedule t =>
    obtain ⟨x', hx, rfl⟩ := map_eq_some_iff.1 h
    unfold Sched.taskSchedule at hx
    split at hx <;> cases hx
    rename_i u us run
    have run : x.phase t = .finishing (u :: us) := run
    have uc : x.phase u = .collected := R.sched.ready t u (by simp [run, Phase.ready])
    have ne : u ≠ t := by
      rintro rfl
      simp [run] at uc
    refine .inr (sum_lt_sum ?_ ⟨u, inside u (by simp [uc]), ?_⟩)
    · intro v _
      by_cases e1 : v = u
      · subst e1
        simp [Sched.schedAddTb, uc, RunState.steps]
      · by_cases e2 : v = t
        · subst e2
          simp [Sched.schedAddTb, e1, run, RunState.steps]
        · simp [Sched.schedAddTb, e1, e2]
    · simp [Sched.schedAddTb, uc, RunState.steps]
  | countSub t =>
    obtain ⟨x', hx, rfl⟩ := map_eq_some_iff.1 h
    unfold Sched.tbCountSub at hx
    split at hx <;> cases hx
    rename_i run
    have run : x.phase t = .finishing [] := run
    exact .inr (work_lt (inside t (by simp [run])) (by simp [run, RunState.steps]))
  | endRun =>
    simp only [RunState.step] at h
    split at h <;> cases h
    exact .inl rfl

lemma Running.progress {e r} (R : Running G ⟨x, some todo, e, r⟩ todo) :
    ∃ a s', RunState.step G ⟨x, some todo, e, r⟩ a = some s' := by
  cases todo with
  | cons t ts => exact ⟨.addSource, _, rfl⟩
  | nil =>
    by_cases h0 : x.count = 0
    · exact ⟨.endRun, _, if_pos ⟨rfl, h0⟩⟩
    · have count : x.count = x.busy G.nodes := R.sched.count
      have busy : 0 < (G.nodes.filter fun p => (x.phase p).isCounted).card := by
        simp only [Sched.busy] at count
        omega
      obtain ⟨t, ht⟩ := card_pos.1 busy
      have counted := (mem_filter.1 ht).2
      cases p : x.phase t with
      | queued => exact ⟨.execute t, _, by simp [RunState.step, Sched.taskExecute, p]; rfl⟩
      | running => exact ⟨.finish t, _, by simp [RunState.step, Sched.taskFinish, p]; rfl⟩
      | finishing ready =>
        cases ready with
        | nil => exact ⟨.countSub t, _, by simp [RunState.step, Sched.tbCountSub, p]; rfl⟩
        | cons u us => exact ⟨.schedule t, _, by simp [RunState.step, Sched.taskSchedule, p]; rfl⟩
      | waiting | collected | done => simp [p, Phase.isCounted] at counted

end Progress

/-- What the runs of a static graph of `n` nodes and the dependencies `deps` do: no node is executed twice in a run,
none before its predecessors have finished, a run goes on until it ends, after at most five steps a node and one more,
and then every node has been executed, the counters are armed and the count is zero. -/
structure RunsOk (n : Nat) (deps : List (Nat × Nat)) (G : Sgraph) (s : RunState) : Prop where
  once : ∀ t, s.executed t ≤ 1
  preds : ∀ p t, (p, t) ∈ deps → s.executed t = 1 → s.executed p = 1 ∧ (s.sched.phase p).isFinished = true
  ended : s.toAdd = none → s.sched.count = 0 ∧
    (∀ t < n, (s.sched.gnode t).nPredecessors = (s.sched.gnode t).nHardPredecessors) ∧
    (0 < s.runs → ∀ t < n, s.executed t = 1)
  progress : s.toAdd ≠ none → ∃ a s', s.step G a = some s'
  shrink : s.toAdd ≠ none → ∀ a s', s.step G a = some s' → s'.toAdd = none ∨ s'.work G < s.work G
  bound : s.work G ≤ 5 * n

/-- Every run of an acyclic static graph executes each node once and in order, and ends armed for the
next. -/
theorem runs_ok {n : Nat} {deps : List (Nat × Nat)} {G : Sgraph} {s : RunState} (built : Built n deps G)
    (acyclic : Acyclic deps) (h : (machine G).Reachable s) : RunsOk n deps G s := by
  obtain rfl := built.taskId_eq
  have F := built.formed
  replace acyclic : G.Acyclic := fun t path => acyclic t (Relation.TransGen.mono (fun _ _ h => built.edge.1 h) _ _ path)
  have I : RunInv G s := h.inv (I := RunInv G) (fun _ h0 => h0 ▸ RunInv.start F)
    fun _ _ _ I _ hs => I.step F acyclic hs
  have bound : s.work G ≤ 5 * G.taskId := by
    have sum := sum_le_card_nsmul G.nodes (fun t => RunState.steps (s.sched.phase t)) 5
      (fun t _ => by cases s.sched.phase t <;> simp [RunState.steps])
    simp only [Sgraph.nodes, card_range, Nat.nsmul_eq_mul] at sum
    simp only [RunState.work, Sgraph.nodes]
    omega
  obtain ⟨x, todo, e, r⟩ := s
  cases todo with
  | none =>
    have I : Idle G ⟨x, none, e, r⟩ := I
    have armed t ht := I.armed t (mem_range.2 ht)
    by_cases hr : 0 < r
    · obtain ⟨ran, rest⟩ := I.ran hr
      refine ⟨?_, ?_, fun _ => ⟨I.count, armed, fun _ t ht => (ran t (mem_range.2 ht)).1⟩, by simp,
        by simp, bound⟩
      · intro t
        by_cases ht : t ∈ G.nodes
        · exact (ran t ht).1.le
        · exact (rest t ht).le.trans (Nat.zero_le 1)
      · intro p t edge _
        obtain ⟨ex, done⟩ := ran p (F.edge p t (built.edge.2 edge)).1
        exact ⟨ex, by simp [show x.phase p = .done from done, Phase.isFinished]⟩
    · have fresh := I.fresh (Nat.eq_zero_of_not_pos hr)
      refine ⟨fun t => ?_, fun p t _ h1 => ?_, fun _ => ⟨I.count, armed, fun h => absurd h hr⟩,
        by simp, by simp, bound⟩
      · exact (fresh t).le.trans (Nat.zero_le 1)
      · rw [fresh t] at h1
        cases h1
  | some todo =>
    have R : Running G ⟨x, some todo, e, r⟩ todo := I
    refine ⟨fun t => ?_, fun p t edge h1 => ?_, by simp, fun _ => R.progress, fun _ _ _ h => R.shrink h, bound⟩
    · rw [R.executed]
      split <;> decide
    · have started : (x.phase t).isStarted = true := by
        by_contra not
        rw [R.executed, if_neg not] at h1
        cases h1
      have fin : (x.phase p).isFinished = true := by
        refine R.sched.preds_finished (t := t) ?_ (by rw [R.succ]; exact built.edge.2 edge)
        intro w
        have w : x.phase t = .waiting := w
        simp [w, Phase.isStarted] at started
      refine ⟨?_, fin⟩
      have startedP : (x.phase p).isStarted = true := by
        cases hp : x.phase p <;> simp_all [Phase.isFinished, Phase.isStarted]
      rw [R.executed, if_pos startedP]

/-- Two nodes, the second behind the first, with the edge repeated. -/
def repeatedEdge : Sgraph :=
  ((Sgraph.create.addNode.addNode.addDep 0 1).bind fun G => G.addDep 0 1).getD .create

lemma repeatedEdge_built : Built 2 [(0, 1), (0, 1)] repeatedEdge :=
  .addDep (p := 0) (t := 1) (.addDep (p := 0) (t := 1) (.addNode (.addNode .create)) rfl) rfl

/-- Two runs of two nodes. -/
theorem runs_ok_repeated : ∃ s, (machine repeatedEdge).Reachable s ∧ s.runs = 2 ∧
    RunsOk 2 [(0, 1), (0, 1)] repeatedEdge s := by
  let run : List Label := [.begin, .addSource, .execute 0, .finish 0, .schedule 0, .countSub 0,
    .execute 1, .finish 1, .countSub 1, .endRun]
  obtain ⟨s, hs, hp⟩ := Machine.reach_of_run (M := machine repeatedEdge) (g := fun _ _ => True)
    (s := .start repeatedEdge) (w := run ++ run) (P := fun s => s.runs = 2) rfl (by decide)
  exact ⟨s, hs, of_decide_eq_true hp, runs_ok repeatedEdge_built (acyclic_of_lt (by decide)) hs⟩

end Kupl.Static
