import Kupl.Graph.Failing

/-!
# What a rejected task leaves behind

`src/mt/kupl_graph.cpp`: a submission that returns `KUPL_ERROR` leaves no trace when the task is never executed and
never stands in an edge, every address has the entry that it had, and every later run is a run without the failed call
in which the tasks do the same and submissions return the same (`NoTrace`). It is so if the error comes before anything
was entered (`Untouched`), and only then.
-/

namespace Kupl.Graph
open Dag Kupl.Task Option
open Function (update update_of_ne update_self)

variable {s s' u u' : PtrGraph} {t x : Nat} {d : Descriptor} {al : TaskAllocs} {a : PtrLabel} {ok : Bool}

/-- Two graphs that differ in counters of `t` and in whether it was submitted. -/
structure Like (t : Nat) (s s' : PtrGraph) : Prop where
  nodes : Apart t s.sched.gnode s'.sched.gnode
  phase : s'.sched.phase = s.sched.phase
  count : s'.sched.count = s.sched.count
  hash : s'.hash = s.hash
  used : ∀ x, x ≠ t → (x ∈ s'.used ↔ x ∈ s.used)

/-- The outcomes of a submission. -/
structure LikeFor (t : Nat) (r r' : PtrGraph × Bool) : Prop where
  graph : Like t r.1 r'.1
  answer : r'.2 = r.2

namespace Like
variable (L : Like t s s')
include L

lemma finished : s'.finished = s.finished := by
  unfold PtrGraph.finished
  rw [L.phase]

lemma insert_used (x : Nat) : ∀ y, y ≠ t → (y ∈ insert x s'.used ↔ y ∈ insert x s.used) := by
  intro y ne
  rw [Finset.mem_insert, Finset.mem_insert, L.used y ne]

lemma newTask : Like t (s.newTask x) (s'.newTask x) := by
  refine ⟨⟨?_, fun y ne => ?_⟩, L.phase, L.count, L.hash, L.insert_used x⟩
  · funext p
    show (update s'.sched.gnode x gnodeInit p).successors = (update s.sched.gnode x gnodeInit p).successors
    by_cases same : p = x
    · rw [same, update_self, update_self]
    · rw [update_of_ne same, update_of_ne same]
      exact congrFun L.nodes.succs p
  · show (update s'.sched.gnode x gnodeInit y).nPredecessors = (update s.sched.gnode x gnodeInit y).nPredecessors
    by_cases same : y = x
    · rw [same, update_self, update_self]
    · rw [update_of_ne same, update_of_ne same]
      exact L.nodes.count y ne

lemma schedAddTb : Like t { s with sched := s.sched.schedAddTb x } { s' with sched := s'.sched.schedAddTb x } := by
  refine ⟨L.nodes, ?_, ?_, L.hash, L.used⟩
  · show update s'.sched.phase x .queued = update s.sched.phase x .queued
    rw [L.phase]
  · show s'.sched.count + 1 = s.sched.count + 1
    rw [L.count]

lemma entered {r r' : PtrDag Nat × AddResult} (same : SameFor t r r') :
    LikeFor t (s.entered x r) (s'.entered x r') := by
  obtain ⟨D, answer⟩ := r
  obtain ⟨D', answer'⟩ := r'
  have isAnswer : answer' = answer := same.answer
  subst isAnswer
  have W : Like t { s with sched := { s.sched with gnode := D.gnode }, hash := D.hash }
      { s' with sched := { s'.sched with gnode := D'.gnode }, hash := D'.hash } :=
    ⟨same.nodes, L.phase, L.count, same.hash, L.used⟩
  cases answer' with
  | error | notReady => exact ⟨W, rfl⟩
  | ready => exact ⟨W.schedAddTb, rfl⟩

lemma addTask (ne : x ≠ t) (d : Descriptor) (al : TaskAllocs) :
    Option.Rel (LikeFor t) (s.addTask x d al) (s'.addTask x d al) := by
  unfold PtrGraph.addTask
  split
  · exact .some ⟨⟨L.nodes, L.phase, L.count, L.hash, L.insert_used x⟩, rfl⟩
  have N := L.newTask (x := x)
  cases d with
  | plain => exact .some ⟨N.schedAddTb, rfl⟩
  | dependent deps junk =>
    cases deps with
    | none => exact .some ⟨N, rfl⟩
    | some ds =>
      have D := N.nodes.dagAddTaskPtr ne al.list al.dep s.finished s.hash junk ds
      dsimp only
      rw [L.finished, L.hash, map_eq_bind, map_eq_bind]
      exact rel_bind D fun _ _ _ same => .some (N.entered same)

lemma step (F : Fresh t s) (other : ¬ a.Submits t) : Option.Rel (Like t) (s.step a) (s'.step a) := by
  cases a with
  | submit x d al =>
    unfold PtrGraph.step
    dsimp only
    by_cases old : x ∈ s.used
    · rw [if_pos old, if_pos ((L.used x other).2 old)]
      exact .none
    rw [if_neg old, if_neg (mt (L.used x other).1 old)]
    rw [map_eq_bind, map_eq_bind]
    exact rel_bind (L.addTask other d al) fun _ _ _ same => .some same.graph
  | execute x =>
    unfold PtrGraph.step Sched.taskExecute
    dsimp only
    rw [L.phase]
    cases s.sched.phase x with
    | queued => exact .some ⟨L.nodes, rfl, L.count, L.hash, L.used⟩
    | waiting | collected | running | finishing ready | done => exact .none
  | finish x =>
    unfold PtrGraph.step Sched.taskFinish
    dsimp only
    rw [L.phase]
    cases s.sched.phase x with
    | running =>
      have same : (s'.sched.gnode x).successors = (s.sched.gnode x).successors := congrFun L.nodes.succs x
      obtain ⟨nodes, ready⟩ := L.nodes.releaseWalk (F.named.edge x)
      have released : gnodeReleaseReady s'.sched.gnode x = releaseWalk s'.sched.gnode (succs s.sched.gnode x) := by
        unfold gnodeReleaseReady
        rw [same]
        rfl
      refine .some ⟨?_, ?_, L.count, L.hash, L.used⟩
      · show Apart t (gnodeReleaseReady s.sched.gnode x).1 (gnodeReleaseReady s'.sched.gnode x).1
        rw [released]
        exact nodes
      · show update (fun y => if y ∈ (gnodeReleaseReady s'.sched.gnode x).2 then Phase.collected
          else s.sched.phase y) x (.finishing (gnodeReleaseReady s'.sched.gnode x).2) = _
        rw [released, ready]
        rfl
    | waiting | collected | queued | finishing ready | done => exact .none
  | schedule x =>
    unfold PtrGraph.step Sched.taskSchedule
    dsimp only
    rw [L.phase]
    cases s.sched.phase x with
    | finishing ready =>
      cases ready with
      | nil => exact .none
      | cons r rs =>
        have W : Like t { s with sched := { s.sched with phase := update s.sched.phase x (.finishing rs) } }
            { s' with sched := { s'.sched with phase := update s.sched.phase x (.finishing rs) } } :=
          ⟨L.nodes, rfl, L.count, L.hash, L.used⟩
        exact .some W.schedAddTb
    | waiting | collected | queued | running | done => exact .none
  | countSub x =>
    unfold PtrGraph.step Sched.tbCountSub
    dsimp only
    rw [L.phase]
    cases s.sched.phase x with
    | finishing ready =>
      cases ready with
      | nil =>
        refine .some ⟨L.nodes, rfl, ?_, L.hash, L.used⟩
        show s'.sched.count - 1 = s.sched.count - 1
        rw [L.count]
      | cons r rs => exact .none
    | waiting | collected | queued | running | done => exact .none

end Like
/-! ### Runs -/

variable {w : List PtrLabel}

lemma run_cons : ptrMachine.run (fun _ _ => True) s (a :: w) =
    (s.step a).bind fun s' => ptrMachine.run (fun _ _ => True) s' w := by
  have isStep : ptrMachine.step s a = s.step a := rfl
  rw [Machine.run, if_pos trivial, isStep]
  cases s.step a with
  | none | some s' => rfl

lemma addTask_used (got : s.addTask x d al = some (s', ok)) : s'.used = insert x s.used := by
  unfold PtrGraph.addTask at got
  split at got
  · cases got
    rfl
  cases d with
  | plain =>
    cases got
    rfl
  | dependent deps junk =>
    cases deps with
    | none =>
      cases got
      rfl
    | some ds =>
      obtain ⟨⟨D, answer⟩, -, isS⟩ := map_eq_some_iff.1 got
      cases answer <;> cases isS <;> rfl

lemma used_step (h : s.step a = some s') : ∀ t, t ∈ s'.used ↔ t ∈ s.used ∨ a.Submits t := by
  cases a with
  | submit x d al =>
    unfold PtrGraph.step at h
    dsimp only at h
    split at h
    · cases h
    obtain ⟨⟨s₁, ok⟩, got, isS⟩ := map_eq_some_iff.1 h
    cases isS
    intro t
    rw [addTask_used got, Finset.mem_insert, or_comm]
    exact or_congr_right eq_comm
  | execute x | finish x | schedule x | countSub x =>
    obtain ⟨y, -, rfl⟩ := map_eq_some_iff.1 h
    exact fun t => (or_iff_left id).symm

lemma not_submits (old : t ∈ s.used) (h : s.step a = some s') : ¬ a.Submits t := by
  cases a with
  | submit x d al =>
    rintro rfl
    unfold PtrGraph.step at h
    dsimp only at h
    rw [if_pos old] at h
    cases h
  | execute x | finish x | schedule x | countSub x => exact id

lemma Fresh.run (F : Fresh t s) (old : t ∈ s.used) (h : ptrMachine.run (fun _ _ => True) s w = some u) :
    Fresh t u := by
  induction w generalizing s with
  | nil =>
    cases h
    exact F
  | cons a w ih =>
    rw [run_cons] at h
    obtain ⟨s₁, first, rest⟩ := bind_eq_some_iff.1 h
    exact ih (F.step (not_submits old first) first) ((used_step first t).2 (.inl old)) rest

lemma Like.run (L : Like t s s') (F : Fresh t s) (other : ∀ a ∈ w, ¬ a.Submits t) :
    Option.Rel (Like t) (ptrMachine.run (fun _ _ => True) s w) (ptrMachine.run (fun _ _ => True) s' w) := by
  induction w generalizing s s' with
  | nil => exact .some L
  | cons a w ih =>
    have here := other a List.mem_cons_self
    rw [run_cons, run_cons]
    exact rel_bind (L.step F here) fun u u' got L' =>
      ih L' (F.step here got) fun b mem => other b (List.mem_cons_of_mem _ mem)

/-- What holds in every state: nothing names a task that was not submitted, and the addresses of the hash differ. -/
structure PtrInv (s : PtrGraph) : Prop where
  fresh : ∀ t, t ∉ s.used → Fresh t s
  unique : (s.hash.map Prod.fst).Nodup

namespace PtrInv

lemma create : PtrInv .create := by
  refine ⟨fun t _ => ⟨⟨fun p mem => ?_, rfl, nofun⟩, rfl, fun f mem => ?_⟩, List.nodup_nil⟩
  · cases mem
  · cases mem

lemma addTask (I : PtrInv s) (got : s.addTask x d al = some (s', ok)) : (s'.hash.map Prod.fst).Nodup := by
  unfold PtrGraph.addTask at got
  split at got
  · cases got
    exact I.unique
  cases d with
  | plain =>
    cases got
    exact I.unique
  | dependent deps junk =>
    cases deps with
    | none =>
      cases got
      exact I.unique
    | some ds =>
      obtain ⟨⟨D, answer⟩, added, isS⟩ := map_eq_some_iff.1 got
      have unique : (D.hash.map Prod.fst).Nodup := by
        unfold dagAddTaskPtr at added
        split at added
        · cases added
          exact I.unique
        · obtain ⟨⟨E, n⟩, processed, isD⟩ := map_eq_some_iff.1 added
          have unique := processPtrs_unique (D := ⟨(s.newTask x).sched.gnode, s.hash⟩) I.unique processed
          cases n with
          | none | some n =>
            cases isD
            exact unique
      cases answer with
      | error | notReady | ready =>
        cases isS
        exact unique

lemma step (I : PtrInv s) (h : s.step a = some s') : PtrInv s' := by
  refine ⟨fun t new => ?_, ?_⟩
  · obtain ⟨new, other⟩ := not_or.1 (mt (used_step h t).2 new)
    exact (I.fresh t new).step other h
  · cases a with
    | submit x d al =>
      unfold PtrGraph.step at h
      dsimp only at h
      split at h
      · cases h
      obtain ⟨⟨s₁, ok⟩, got, isS⟩ := map_eq_some_iff.1 h
      cases isS
      exact I.addTask got
    | execute x | finish x | schedule x | countSub x =>
      obtain ⟨y, -, rfl⟩ := map_eq_some_iff.1 h
      exact I.unique

lemma of_reachable (h : ptrMachine.Reachable s) : PtrInv s := by
  apply h.inv
  · rintro s rfl
    exact create
  · exact fun s a s' I _ step => I.step step

end PtrInv

/-! ### Submissions without a trace -/

/-- What is seen of a graph: what the tasks do, the count, and what submissions return. -/
structure Seen (t : Nat) (s s' : PtrGraph) : Prop where
  phase : s'.sched.phase = s.sched.phase
  count : s'.sched.count = s.sched.count
  answers : ∀ x d al, x ≠ t → (s'.addTask x d al).map (·.2) = (s.addTask x d al).map (·.2)

/-- The submission of `t` that led from `s` to `s'` left no trace: in every later run the task is not executed and
stands in no edge, the hash has the entries that it had, and what is seen later is seen without the call. -/
structure NoTrace (t : Nat) (s s' : PtrGraph) : Prop where
  never : ∀ w u, ptrMachine.run (fun _ _ => True) s' w = some u →
    u.sched.phase t = .waiting ∧ ∀ p, t ∉ succs u.sched.gnode p ∧ p ∉ succs u.sched.gnode t
  hash : ∀ b, s'.hash.lookup b = s.hash.lookup b
  later : ∀ w, (∀ a ∈ w, ¬ a.Submits t) →
    Option.Rel (Seen t) (ptrMachine.run (fun _ _ => True) s w) (ptrMachine.run (fun _ _ => True) s' w)

/-- The error comes before anything was entered: there is no task, the list of dependencies is a null pointer, there is
no memory for it, or it is `Traceless`. -/
def Untouched (s : PtrGraph) (d : Descriptor) (al : TaskAllocs) : Prop :=
  match d with
  | .dependent (some ds) junk => al.task = false ∨ maxLocalDepCount < ds.length ∧ al.list = false ∨
    Traceless s.finished s.hash al.dep (depListRmDup junk ds)
  | _ => True

lemma Like.seen (L : Like t s s') : Seen t s s' := by
  refine ⟨L.phase, L.count, fun x d al ne => ?_⟩
  obtain ⟨no, no'⟩ | ⟨r, r', is, is', same⟩ := rel_cases (L.addTask ne d al)
  · rw [no, no']
  · rw [is, is']
    exact congrArg some same.answer

lemma Like.noTrace (L : Like t s s') (F : Fresh t s) (used : t ∈ s'.used) : NoTrace t s s' := by
  have F' : Fresh t s' := by
    refine ⟨⟨fun p => ?_, ?_, ?_⟩, ?_, fun f => ?_⟩
    · show t ∉ succs s'.sched.gnode p
      rw [L.nodes.succs]
      exact F.named.edge p
    · show succs s'.sched.gnode t = []
      rw [L.nodes.succs]
      exact F.named.start
    · show ∀ kv ∈ s'.hash, _
      rw [L.hash]
      exact F.named.hash
    · rw [L.phase]
      exact F.phase
    · rw [L.phase]
      exact F.ready f
  refine ⟨fun w u h => ?_, fun b => by rw [L.hash], fun w other => ?_⟩
  · have G := F'.run used h
    refine ⟨G.phase, fun p => ⟨G.named.edge p, fun mem => ?_⟩⟩
    have mem : p ∈ succs u.sched.gnode t := mem
    have none : succs u.sched.gnode t = [] := G.named.start
    rw [none] at mem
    cases mem
  · obtain ⟨no, no'⟩ | ⟨u, u', is, is', L'⟩ := rel_cases (L.run F other)
    · rw [no, no']
      exact .none
    · rw [is, is']
      exact .some L'.seen

lemma like_newTask (F : Fresh t s) : Like t s (s.newTask t) := by
  refine ⟨⟨?_, fun y ne => ?_⟩, rfl, rfl, rfl, fun y ne => Finset.mem_insert.trans (or_iff_right ne)⟩
  · funext p
    show (update s.sched.gnode t gnodeInit p).successors = (s.sched.gnode p).successors
    by_cases same : p = t
    · subst same
      rw [update_self]
      exact F.named.start.symm
    · rw [update_of_ne same]
  · show (update s.sched.gnode t gnodeInit y).nPredecessors = _
    rw [update_of_ne ne]

/-- A submission that fails leaves no trace if and only if its error comes before anything was entered. -/
theorem rejected_iff (h : ptrMachine.Reachable s) (new : t ∉ s.used)
    (rejected : s.addTask t d al = some (s', false)) : NoTrace t s s' ↔ Untouched s d al := by
  have I := PtrInv.of_reachable h
  have F := I.fresh t new
  have N := like_newTask F
  have used : t ∈ s'.used := by
    rw [addTask_used rejected]
    exact Finset.mem_insert_self ..
  unfold PtrGraph.addTask at rejected
  by_cases noTask : al.task = false
  · rw [if_pos noTask] at rejected
    cases rejected
    have L : Like t s { s with used := insert t s.used } :=
      ⟨.refl, rfl, rfl, rfl, fun y ne => Finset.mem_insert.trans (or_iff_right ne)⟩
    refine iff_of_true (L.noTrace F used) ?_
    cases d with
    | plain => trivial
    | dependent deps junk =>
      cases deps with
      | none => trivial
      | some ds => exact .inl noTask
  rw [if_neg noTask] at rejected
  cases d with
  | plain => cases rejected
  | dependent deps junk =>
    cases deps with
    | none =>
      cases rejected
      exact iff_of_true (N.noTrace F used) trivial
    | some ds =>
      obtain ⟨⟨D, answer⟩, added, isS⟩ := map_eq_some_iff.1 rejected
      cases answer with
      | notReady | ready => cases isS
      | error =>
        cases isS
        unfold dagAddTaskPtr at added
        split at added
        · rename_i noList
          cases added
          exact iff_of_true (N.noTrace F used) (.inr (.inl noList))
        rename_i room
        obtain ⟨⟨E, n⟩, processed, isD⟩ := map_eq_some_iff.1 added
        cases n with
        | some n =>
          have bad := congrArg Prod.snd isD
          dsimp only at bad
          split at bad <;> cases bad
        | none =>
          cases isD
          have live : s.finished t = false := by
            unfold PtrGraph.finished
            rw [F.phase]
            rfl
          constructor
          · intro none
            by_contra loud
            have loud : ¬ Traceless s.finished s.hash al.dep (depListRmDup junk ds) :=
              fun quiet => loud (.inr (.inr quiet))
            have M := processPtrs_marked (D := ⟨(s.newTask t).sched.gnode, s.hash⟩) I.unique live processed loud
            obtain ⟨a, absent, here⟩ | ⟨a, e, here, names⟩ | ⟨p, edge⟩ := M
            · exact here ((none.hash a).trans absent)
            · have away := F.named.hash _ (pointer_mem ((none.hash a).symm.trans here)) e rfl
              exact names.elim away.1 away.2
            · exact ((none.never [] _ rfl).2 p).1 edge
          · rintro (bad | bad | quiet)
            · exact absurd bad noTask
            · exact absurd bad room
            obtain ⟨isHash, A⟩ := processPtrs_traceless (D := ⟨(s.newTask t).sched.gnode, s.hash⟩)
              I.unique processed
              quiet
            have L : Like t s { s.newTask t with
                sched := { (s.newTask t).sched with gnode := E.gnode }, hash := E.hash } :=
              ⟨⟨A.succs.trans N.nodes.succs, fun y ne => (A.count y ne).trans (N.nodes.count y ne)⟩,
                rfl, rfl, isHash,
                N.used⟩
            exact L.noTrace F used

/-- A task that writes address 4096, and one whose only dependency on that address has no type. -/
theorem rejected_iff_two : ∃ s s' : PtrGraph, s.hash.lookup 4096 = some (some ⟨some 0, []⟩) ∧
    s.addTask 1 (.dependent (some [⟨4096, .other 7⟩]) fun _ => ⟨0, .input⟩) .good = some (s', false) ∧
    NoTrace 1 s s' := by
  obtain ⟨s, h, entry, new, rejected⟩ := Machine.exists_reach (M := ptrMachine) (g := fun _ _ => True)
    (P := fun s => ((s.hash.lookup 4096).any fun e => e.any fun e => decide (e.out = some 0 ∧ e.ins = [])) = true ∧
      1 ∉ s.used ∧
      ((s.addTask 1 (.dependent (some [⟨4096, .other 7⟩]) fun _ => ⟨0, .input⟩) .good).any fun r => !r.2) =
        true)
    [.submit 0 (.dependent (some [⟨4096, .output⟩]) fun _ => ⟨0, .input⟩) .good]
    (rfl : PtrGraph.create = .create)
    (by decide +kernel)
  obtain ⟨e, found, facts⟩ := (any_eq_true _ _).1 entry
  obtain ⟨⟨out, ins⟩, isE, facts⟩ := (any_eq_true _ _).1 facts
  obtain ⟨isOut, isIns⟩ := of_decide_eq_true facts
  obtain ⟨⟨s', ok⟩, got, refused⟩ := (any_eq_true _ _).1 rejected
  cases isE
  cases isOut
  cases isIns
  cases ok with
  | true => cases refused
  | false =>
    refine ⟨s, s', found, got, (rejected_iff h new got).2 (.inr (.inr ?_))⟩
    show Traceless s.finished s.hash _ [⟨4096, .other 7⟩]
    unfold Traceless
    rw [found]
    trivial

/-- A task that was rejected after its first dependency is executed when the task that it follows has finished. -/
theorem rejected_iff_not : ¬ ∀ (s s' : PtrGraph) (t : Nat) (d : Descriptor) (al : TaskAllocs),
    ptrMachine.Reachable s →
    t ∉ s.used → s.addTask t d al = some (s', false) → NoTrace t s s' := by
  intro all
  obtain ⟨s, h, new, rejected⟩ := Machine.exists_reach (M := ptrMachine) (g := fun _ _ => True)
    (P := fun s => 1 ∉ s.used ∧
      ((s.addTask 1 (.dependent (some [⟨4096, .output⟩, ⟨8192, .other 7⟩]) fun _ => ⟨0, .input⟩) .good).any
        fun r : PtrGraph × Bool => !r.2 &&
        (ptrMachine.run (fun _ _ => True) r.1 [.execute 0, .finish 0, .schedule 0, .execute 1]).any fun u : PtrGraph =>
          decide (u.sched.phase 1 = .running)) = true)
    [.submit 0 (.dependent (some [⟨4096, .output⟩]) fun _ => ⟨0, .input⟩) .good]
    (rfl : PtrGraph.create = .create)
    (by decide +kernel)
  obtain ⟨⟨s', ok⟩, got, facts⟩ := (any_eq_true _ _).1 rejected
  obtain ⟨refused, runs⟩ := (Bool.and_eq_true _ _).mp facts
  obtain ⟨u, run, running⟩ := (any_eq_true _ _).1 runs
  cases ok with
  | true => cases refused
  | false =>
    have waits := ((all s s' 1 _ _ h new got).never _ u run).1
    cases waits.symm.trans (of_decide_eq_true running)

end Kupl.Graph
