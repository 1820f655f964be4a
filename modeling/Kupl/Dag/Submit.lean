import Kupl.Dag.Gnode
import Kupl.Machine.Run

/-!
# A submission among the executors

`src/mt/kupl_dag.cpp` and `src/mt/kupl_task.cpp`: one thread submits the task `me` and calls
`kupl_gnode_precede` for a row of earlier tasks while the executors of these tasks finish them. Every
access to a flag, a lock or a counter is a step of its own.

C++ → Lean naming: the loop of `kupl_dag_add_task` with `kupl_gnode_precede` → `submitStep`;
`kupl_task_execute` (setting FINISHED), `kupl_gnode_release_ready_safe` and the loop of
`kupl_task_finish` over `ready_tasks` → `execStep`; `kupl_sched_add_tb` of `me` → `handed`.

The edge is published (`insert`) before it is counted (`count`), and the counter of `me` starts at
zero. `Undisturbed` says when a step is harmless all the same: then `me` is handed to the scheduler
once, after every task it was linked to.
-/

namespace Kupl.Dag
open Function (update update_of_ne update_self)

variable {τ : Type*} [DecidableEq τ]

/-- Where the submitting thread is; `todo` are the tasks still to precede `me`. -/
inductive Submitter (τ : Type*) where
  | next (todo : List (Option τ))
  | lock (p : τ) (todo : List (Option τ))
  | recheck (p : τ) (todo : List (Option τ))
  | insert (p : τ) (todo : List (Option τ))
  | unlock (p : τ) (linked : Bool) (todo : List (Option τ))
  | count (todo : List (Option τ))
  | ready
  | done
  deriving DecidableEq

inductive Exec (τ : Type*) where
  | running
  | finished
  | locked
  | unlocked
  | walk (rest ready : List τ)
  | schedule (ready : List τ)
  | done
  deriving DecidableEq

/-- The submission of `me` and the executors. -/
structure SubmitState (τ : Type*) where
  gnode : τ → Gnode τ
  lock : τ → Bool
  exec : τ → Exec τ
  pc : Submitter τ
  n : Nat
  handed : Nat

inductive Thread (τ : Type*) where
  | submit
  | exec (p : τ)

def Exec.isFinished : Exec τ → Bool
  | .running => false
  | _ => true

namespace SubmitState

/-- The FINISHED bits (C++ `kupl_tb_is_finished`). -/
def finished (s : SubmitState τ) (p : τ) : Bool := (s.exec p).isFinished

/-- One step of `kupl_dag_add_task` for `me`. -/
def submitStep (me : τ) (s : SubmitState τ) : Option (SubmitState τ) :=
  match s.pc with
  | .next [] =>
    if (s.gnode me).nPredecessors + s.n = -s.n then some { s with pc := .ready }
    else some { s with pc := .done }
  | .next (none :: todo) => some { s with pc := .next todo }
  | .next (some p :: todo) =>
    if s.finished p then some { s with pc := .next todo } else some { s with pc := .lock p todo }
  | .lock p todo =>
    if s.lock p then none
    else some { s with lock := update s.lock p true, pc := .recheck p todo }
  | .recheck p todo =>
    if s.finished p then some { s with pc := .unlock p false todo }
    else some { s with pc := .insert p todo }
  | .insert p todo =>
    some { s with gnode := gnodeInsert s.gnode p me, pc := .unlock p true todo }
  | .unlock p linked todo =>
    some { s with
      lock := update s.lock p false
      pc := if linked then .count todo else .next todo }
  | .count todo =>
    some { s with gnode := gnodeCount s.gnode me, n := s.n + 1, pc := .next todo }
  | .ready => some { s with handed := s.handed + 1, pc := .done }
  | .done => none

/-- One step of the executor that finishes the task `p`. -/
def execStep (me : τ) (s : SubmitState τ) (p : τ) : Option (SubmitState τ) :=
  match s.exec p with
  | .running => some { s with exec := update s.exec p .finished }
  | .finished =>
    if s.lock p then none
    else some { s with
      lock := update s.lock p true
      exec := update s.exec p .locked }
  | .locked =>
    some { s with
      lock := update s.lock p false
      exec := update s.exec p .unlocked }
  | .unlocked => some { s with exec := update s.exec p (.walk (succs s.gnode p) []) }
  | .walk (t :: ts) ready =>
    some { s with
      gnode := gnodeRelease s.gnode t
      exec := update s.exec p
        (.walk ts (if (s.gnode t).nPredecessors = 1 then ready ++ [t] else ready)) }
  | .walk [] ready => some { s with exec := update s.exec p (.schedule ready) }
  | .schedule (t :: ready) =>
    some { s with
      handed := s.handed + if t = me then 1 else 0
      exec := update s.exec p (.schedule ready) }
  | .schedule [] => some { s with exec := update s.exec p .done }
  | .done => none

/-- The submission of `me` begins: no edge leads to it yet. The row names tasks of `V`, the earlier
tasks of the graph. -/
structure Init (V : Finset τ) (me : τ) (s : SubmitState τ) : Prop where
  other : me ∉ V
  node : s.gnode me = gnodeInit
  fresh : ∀ p ∈ V, me ∉ succs s.gnode p
  lock : ∀ p, s.lock p = false
  exec : ∀ p, s.exec p = .running
  pc : ∃ todo, s.pc = .next todo ∧ ∀ p, some p ∈ todo → p ∈ V
  n : s.n = 0
  handed : s.handed = 0

end SubmitState
open SubmitState

/-- One submission of `me` and the executors of the tasks of `V`. -/
def submission (V : Finset τ) (me : τ) : Machine (SubmitState τ) (Thread τ) where
  init := Init V me
  step s
    | .submit => submitStep me s
    | .exec p => if p ∈ V then execStep me s p else none

/-- What a submission promises of `me` in a state: it is handed over at most once, only when every task
that it is linked to has finished, and it has been handed over when all have done their part. -/
structure SubmitState.HandedOnce (V : Finset τ) (me : τ) (s : SubmitState τ) : Prop where
  once : s.handed ≤ 1
  after : 0 < s.handed → ∀ p ∈ V, me ∈ succs s.gnode p → s.finished p = true
  handed : s.pc = .done → (∀ p ∈ V, me ∈ succs s.gnode p → s.exec p = .done) → s.handed = 1

/-- The edges to `me` that a walk has still to take. -/
def Exec.rest (me : τ) (edges : Nat) : Exec τ → Nat
  | .walk ts _ => ts.count me
  | .schedule _ | .done => 0
  | _ => edges

/-- How often `me` stands among the ready tasks of a walk. -/
def Exec.got (me : τ) : Exec τ → Nat
  | .walk _ ready | .schedule ready => ready.count me
  | _ => 0

def Submitter.published : Submitter τ → Nat
  | .unlock _ true _ | .count _ => 1
  | _ => 0

/-- The submitting thread is about to hand `me` over. -/
def Submitter.got : Submitter τ → Nat
  | .ready => 1
  | _ => 0

namespace SubmitState

/-- The edges to `me` that are still to be released. -/
def rest (V : Finset τ) (me : τ) (s : SubmitState τ) : Nat :=
  ∑ p ∈ V, (s.exec p).rest me ((succs s.gnode p).count me)

/-- How often `me` has been collected, handed over or not. -/
def taken (V : Finset τ) (me : τ) (s : SubmitState τ) : Nat :=
  s.handed + ∑ p ∈ V, (s.exec p).got me + s.pc.got

/-- A step that does no harm: no edge is published once `me` has been collected; the row does not end
with the counter back at zero and `me` not collected; no walk takes the counter from one to zero while
an edge is published and not counted. -/
def Undisturbed (V : Finset τ) (me : τ) (s : SubmitState τ) : Thread τ → Prop
  | .submit =>
    match s.pc with
    | .insert _ _ => s.taken V me = 0
    | .next [] => (s.gnode me).nPredecessors = 0 → s.n = 0 ∨ 0 < s.taken V me
    | _ => True
  | .exec p =>
    match s.exec p with
    | .walk (t :: _) _ => t = me → (s.gnode me).nPredecessors = 1 → s.pc.published = 0
    | _ => True

instance (V : Finset τ) (me : τ) (s : SubmitState τ) : ∀ a, Decidable (s.Undisturbed V me a)
  | .submit =>
    match h : s.pc with
    | .insert _ _ => decidable_of_iff (s.taken V me = 0) (by simp [Undisturbed, h])
    | .next [] =>
      decidable_of_iff ((s.gnode me).nPredecessors = 0 → s.n = 0 ∨ 0 < s.taken V me)
        (by simp [Undisturbed, h])
    | .next (_ :: _) | .lock _ _ | .recheck _ _ | .unlock _ _ _ | .count _ | .ready | .done =>
      isTrue (by simp [Undisturbed, h])
  | .exec p =>
    match h : s.exec p with
    | .walk (t :: _) _ =>
      decidable_of_iff (t = me → (s.gnode me).nPredecessors = 1 → s.pc.published = 0)
        (by simp [Undisturbed, h])
    | .walk [] _ | .running | .finished | .locked | .unlocked | .schedule _ | .done =>
      isTrue (by simp [Undisturbed, h])

end SubmitState

def Submitter.held : Submitter τ → Option τ
  | .recheck p _ | .insert p _ | .unlock p _ _ => some p
  | _ => none

/-- The tasks that the submitting thread has still to visit. -/
def Submitter.targets : Submitter τ → List (Option τ)
  | .next todo | .count todo => todo
  | .lock p todo | .recheck p todo | .insert p todo | .unlock p _ todo => some p :: todo
  | _ => []

namespace SubmitState
variable {V : Finset τ} {me : τ} {s s' : SubmitState τ}

/-- Who holds the locks; an edge is published only where the executor cannot walk yet. -/
structure LockInv (V : Finset τ) (s : SubmitState τ) : Prop where
  held : ∀ p, s.pc.held = some p → s.lock p = true
  locked : ∀ p, s.exec p = .locked → s.lock p = true ∧ s.pc.held ≠ some p
  insert : ∀ p todo, s.pc = .insert p todo → s.exec p = .running ∨ s.exec p = .finished
  targets : ∀ p, some p ∈ s.pc.targets → p ∈ V

lemma LockInv.submit (I : LockInv V s) (h : submitStep me s = some s') : LockInv V s' := by
  obtain ⟨held, locked, insert, targets⟩ := I
  unfold submitStep at h
  split at h
  case h_4 p todo e =>
    split at h
    · cases h
    · rename_i free
      cases h
      refine ⟨?_, ?_, ?_, ?_⟩
      · rintro q ⟨rfl⟩
        simp
      · intro q hq
        have hl := (locked q hq).1
        have ne : q ≠ p := by
          rintro rfl
          exact free hl
        exact ⟨by simpa [ne] using hl, by simpa [Submitter.held] using ne.symm⟩
      · simp
      · simpa [e, Submitter.targets] using targets
  case h_7 p linked todo e =>
    cases h
    have hp := held p (by simp [e, Submitter.held])
    refine ⟨?_, ?_, ?_, ?_⟩
    · cases linked <;> simp [Submitter.held]
    · intro q hq
      have ne : q ≠ p := by
        rintro rfl
        exact (locked q hq).2 (by simp [e, Submitter.held])
      exact ⟨by simpa [ne] using (locked q hq).1, by cases linked <;> simp [Submitter.held]⟩
    · cases linked <;> simp
    · have rest : ∀ q, some q ∈ todo → q ∈ V := fun q hq =>
        targets q (by simp [e, Submitter.targets, hq])
      cases linked <;> simpa [Submitter.targets] using rest
  case h_5 p todo e =>
    split at h
    · cases h
      refine ⟨?_, ?_, by simp, ?_⟩ <;> simp_all [Submitter.held, Submitter.targets]
    · rename_i run
      cases h
      have hr : s.exec p = .running := by
        simp only [finished] at run
        cases hx : s.exec p <;> simp_all [Exec.isFinished]
      refine ⟨?_, ?_, ?_, ?_⟩
      · simpa [e, Submitter.held] using held
      · simpa [e, Submitter.held] using locked
      · rintro q todo' ⟨rfl, rfl⟩
        exact .inl hr
      · simpa [e, Submitter.targets] using targets
  case h_10 => cases h
  case h_1 | h_3 =>
    split at h <;> cases h <;>
      refine ⟨?_, ?_, by simp, ?_⟩ <;> simp_all [Submitter.held, Submitter.targets]
  all_goals
    cases h
    refine ⟨?_, ?_, by simp, ?_⟩ <;> simp_all [Submitter.held, Submitter.targets]

lemma LockInv.exec {p : τ} (I : LockInv V s) (h : execStep me s p = some s') : LockInv V s' := by
  obtain ⟨held, locked, insert, targets⟩ := I
  -- the state of `p` alone changes, and `p` stays where it may not be walked
  have other : ∀ q, q ≠ p → ∀ x, update s.exec p x q = s.exec q := fun q hq x =>
    update_of_ne hq _ _
  unfold execStep at h
  split at h
  case h_2 e =>
    split at h
    · cases h
    · rename_i free
      cases h
      have notHeld : s.pc.held ≠ some p := fun hp => free (held p hp)
      refine ⟨?_, ?_, ?_, targets⟩
      · intro q hq
        have ne : q ≠ p := by
          rintro rfl
          exact notHeld hq
        simpa [ne] using held q hq
      · intro q hq
        by_cases ne : q = p
        · subst ne
          exact ⟨by simp, notHeld⟩
        · simpa [ne] using locked q (by simpa [ne] using hq)
      · intro q todo hq
        have ne : q ≠ p := by
          rintro rfl
          exact notHeld (by simp [show s.pc = .insert q todo from hq, Submitter.held])
        simpa [ne] using insert q todo hq
  case h_3 e =>
    cases h
    have notHeld : s.pc.held ≠ some p := (locked p e).2
    refine ⟨?_, ?_, ?_, targets⟩
    · intro q hq
      have ne : q ≠ p := by
        rintro rfl
        exact notHeld hq
      simpa [ne] using held q hq
    · intro q hq
      by_cases ne : q = p
      · subst ne
        simp at hq
      · simpa [ne] using locked q (by simpa [ne] using hq)
    · intro q todo hq
      have ne : q ≠ p := by
        rintro rfl
        exact notHeld (by simp [show s.pc = .insert q todo from hq, Submitter.held])
      simpa [ne] using insert q todo hq
  case h_9 => cases h
  case h_1 e =>
    cases h
    refine ⟨held, ?_, ?_, targets⟩
    · intro q hq
      by_cases ne : q = p
      · subst ne
        simp at hq
      · exact locked q (by simpa [ne] using hq)
    · intro q todo hq
      by_cases ne : q = p
      · subst ne
        exact .inr (by simp)
      · simpa [ne] using insert q todo hq
  all_goals
    rename_i e
    cases h
    refine ⟨held, ?_, ?_, targets⟩
    · intro q hq
      by_cases ne : q = p
      · subst ne
        simp at hq
      · exact locked q (by simpa [ne] using hq)
    · intro q todo hq
      have ne : q ≠ p := by
        rintro rfl
        have := insert q todo hq
        simp [e] at this
      simpa [ne] using insert q todo hq

/-- The edges, the edges still to be released and the collections add up. -/
structure CountInv (V : Finset τ) (me : τ) (s : SubmitState τ) : Prop where
  counter : (s.gnode me).nPredecessors + s.pc.published = s.rest V me
  edges : s.n + s.pc.published = ∑ p ∈ V, (succs s.gnode p).count me
  seen : ∀ p ∈ V, (s.exec p).rest me ((succs s.gnode p).count me) + (s.exec p).got me ≤ (succs s.gnode p).count me
  once : s.taken V me ≤ 1
  still : 0 < s.taken V me → s.rest V me = 0
  linked : 0 < s.taken V me → s.pc = .ready ∨ s.pc = .done ∨ 0 < s.n
  ended : s.pc = .done → 0 < s.taken V me ∨ 0 < s.rest V me

section
variable (I : CountInv V me s)
include I

lemma CountInv.move {pc l} (hp : pc.published = s.pc.published) (hg : s.pc.got = 0) (hg' : pc.got = 0)
    (hd : s.pc ≠ .done) (hd' : pc ≠ .done) : CountInv V me { s with lock := l, pc := pc } := by
  have taken_eq : taken V me { s with lock := l, pc := pc } = s.taken V me := by
    simp [taken, hg, hg']
  have rest_eq : rest V me { s with lock := l, pc := pc } = s.rest V me := rfl
  have notReady : s.pc ≠ .ready := by
    intro e
    simp [e, Submitter.got] at hg
  refine ⟨?_, ?_, I.seen, ?_, ?_, ?_, fun h => absurd h hd'⟩
  · rw [rest_eq, ← I.counter, ← hp]
  · rw [← I.edges, ← hp]
  · rw [taken_eq]
    exact I.once
  · rw [taken_eq, rest_eq]
    exact I.still
  · rw [taken_eq]
    intro h
    rcases I.linked h with e | e | e
    · exact absurd e notReady
    · exact absurd e hd
    · exact .inr (.inr e)

lemma CountInv.endRow (e : s.pc = .next []) (hu : (s.gnode me).nPredecessors = 0 → s.n = 0 ∨ 0 < s.taken V me)
    (h : submitStep me s = some s') : CountInv V me s' := by
  have counter := I.counter
  have linked := I.linked
  have once := I.once
  simp only [e, Submitter.published, reduceCtorEq, false_or] at counter linked
  simp only [submitStep, e] at h
  have taken_split : s.taken V me = s.handed + ∑ p ∈ V, (s.exec p).got me := by
    simp [taken, e, Submitter.got]
  split at h
  · cases h
    have n0 : s.n = 0 := by omega
    have rest0 : s.rest V me = 0 := by omega
    have taken0 : s.taken V me = 0 := by omega
    have taken1 : taken V me { s with pc := .ready } = 1 := by
      simp only [taken, Submitter.got]
      omega
    refine ⟨?_, ?_, I.seen, taken1.le, fun _ => rest0, fun _ => .inl rfl, by simp⟩
    · simpa [Submitter.published, rest] using counter
    · simpa [e, Submitter.published] using I.edges
  · cases h
    have taken_eq : taken V me { s with pc := .done } = s.taken V me := by
      simp [taken, e, Submitter.got]
    refine ⟨?_, ?_, I.seen, ?_, ?_, fun _ => .inr (.inl rfl), fun _ => ?_⟩
    · simpa [Submitter.published, rest] using counter
    · simpa [e, Submitter.published] using I.edges
    · rw [taken_eq]
      exact once
    · rw [taken_eq]
      exact I.still
    · rw [taken_eq]
      change 0 < s.taken V me ∨ 0 < s.rest V me
      by_contra none
      obtain ⟨t0, r0⟩ := not_or.1 none
      have n0 := (hu (by omega)).resolve_right t0
      omega

lemma CountInv.publish {p todo} (e : s.pc = .insert p todo) (hp : p ∈ V)
    (hx : s.exec p = .running ∨ s.exec p = .finished) (hu : s.taken V me = 0) :
    CountInv V me { s with gnode := gnodeInsert s.gnode p me, pc := .unlock p true todo } := by
  have succs_p : (succs (gnodeInsert s.gnode p me) p).count me = (succs s.gnode p).count me + 1 := by
    simp [succs_insert]
  have succs_ne : ∀ q, q ≠ p → succs (gnodeInsert s.gnode p me) q = succs s.gnode q := by
    intro q hq
    simp [succs_insert, hq]
  have rest_p : ∀ c, (s.exec p).rest me c = c := by
    intro c
    rcases hx with hx | hx <;> rw [hx] <;> rfl
  have got_p : (s.exec p).got me = 0 := by
    rcases hx with hx | hx <;> rw [hx] <;> rfl
  have sumE := Prec.sum_change (f := fun q => (succs s.gnode q).count me)
    (g := fun q => (succs (gnodeInsert s.gnode p me) q).count me) hp
    (fun q _ hq => by simp only [succs_ne q hq])
  have sumR := Prec.sum_change (f := fun q => (s.exec q).rest me ((succs s.gnode q).count me))
    (g := fun q => (s.exec q).rest me ((succs (gnodeInsert s.gnode p me) q).count me)) hp
    (fun q _ hq => by simp only [succs_ne q hq])
  simp only [rest_p, succs_p] at sumE sumR
  have counter := I.counter
  have edges := I.edges
  simp only [e, Submitter.published, rest] at counter edges
  have taken0 : taken V me { s with gnode := gnodeInsert s.gnode p me,
                                    pc := .unlock p true todo } = 0 := by
    simpa [taken, e, Submitter.got] using hu
  refine ⟨?_, ?_, ?_, by omega, by omega, by omega, by simp⟩
  · simp only [rest, nPredecessors_insert, Submitter.published]
    omega
  · simp only [Submitter.published]
    omega
  · intro q hq
    by_cases ne : q = p
    · subst ne
      simp only [rest_p, got_p]
      omega
    · simpa only [succs_ne q ne] using I.seen q hq

lemma CountInv.count {todo} (e : s.pc = .count todo) :
    CountInv V me { s with gnode := gnodeCount s.gnode me, n := s.n + 1, pc := .next todo } := by
  have counter := I.counter
  have edges := I.edges
  simp only [e, Submitter.published, rest] at counter edges
  have taken_eq : taken V me { s with gnode := gnodeCount s.gnode me, n := s.n + 1,
                                      pc := .next todo } = s.taken V me := by
    simp [taken, e, Submitter.got]
  refine ⟨?_, ?_, ?_, ?_, ?_, fun _ => .inr (.inr (Nat.succ_pos _)), by simp⟩
  · simp only [rest, nPredecessors_count, succs_count, if_true, Submitter.published]
    omega
  · simp only [succs_count, Submitter.published]
    omega
  · simpa only [succs_count] using I.seen
  · rw [taken_eq]
    exact I.once
  · rw [taken_eq]
    simpa only [rest, succs_count] using I.still

lemma CountInv.submit (L : LockInv V s) (hu : s.Undisturbed V me .submit)
    (h : submitStep me s = some s') : CountInv V me s' := by
  cases e : s.pc with
  | next todo =>
    cases todo with
    | nil => exact I.endRow e (by simpa [Undisturbed, e] using hu) h
    | cons p todo =>
      cases p with
      | none =>
        simp only [submitStep, e, Option.some.injEq] at h
        subst h
        exact I.move (by simp [e, Submitter.published]) (by simp [e, Submitter.got]) rfl
          (by simp [e]) (by simp)
      | some p =>
        simp only [submitStep, e] at h
        split at h <;> cases h <;>
          exact I.move (by simp [e, Submitter.published]) (by simp [e, Submitter.got]) rfl
            (by simp [e]) (by simp)
  | lock p todo =>
    simp only [submitStep, e] at h
    split at h
    · cases h
    · cases h
      exact I.move (by simp [e, Submitter.published]) (by simp [e, Submitter.got]) rfl
        (by simp [e]) (by simp)
  | recheck p todo =>
    simp only [submitStep, e] at h
    split at h <;> cases h <;>
      exact I.move (by simp [e, Submitter.published]) (by simp [e, Submitter.got]) rfl
        (by simp [e]) (by simp)
  | insert p todo =>
    simp only [submitStep, e, Option.some.injEq] at h
    subst h
    exact I.publish e (L.targets p (by simp [e, Submitter.targets])) (L.insert p todo e)
      (by simpa [Undisturbed, e] using hu)
  | unlock p linked todo =>
    simp only [submitStep, e, Option.some.injEq] at h
    subst h
    cases linked <;>
      exact I.move (by simp [e, Submitter.published]) (by simp [e, Submitter.got]) rfl
        (by simp [e]) (by simp)
  | count todo =>
    simp only [submitStep, e, Option.some.injEq] at h
    subst h
    exact I.count e
  | ready =>
    simp only [submitStep, e, Option.some.injEq] at h
    subst h
    have taken_eq : taken V me { s with handed := s.handed + 1, pc := .done } = s.taken V me := by
      simp only [taken, e, Submitter.got]
      omega
    have taken_pos : 0 < s.taken V me := by
      simp only [taken, e, Submitter.got]
      omega
    refine ⟨?_, ?_, I.seen, taken_eq ▸ I.once, fun _ => I.still taken_pos,
      fun _ => .inr (.inl rfl), fun _ => .inl (taken_eq ▸ taken_pos)⟩
    · simpa [e, Submitter.published, rest] using I.counter
    · simpa [e, Submitter.published] using I.edges
  | done => simp [submitStep, e] at h

end

section Walk
variable {p : τ} {x : Exec τ}

lemma rest_update (me : τ) (x : Exec τ) {g : τ → Gnode τ} (hp : p ∈ V) (hg : succs g = succs s.gnode) (l h) :
    rest V me { s with gnode := g, lock := l, exec := update s.exec p x, handed := h } +
        (s.exec p).rest me ((succs s.gnode p).count me) =
      s.rest V me + x.rest me ((succs s.gnode p).count me) := by
  have sum := Prec.sum_change (f := fun q => (s.exec q).rest me ((succs s.gnode q).count me))
    (g := fun q => (update s.exec p x q).rest me ((succs s.gnode q).count me)) hp
    (fun q _ hq => by simp only [update_of_ne hq])
  simpa only [rest, hg, update_self] using sum

lemma got_update (s : SubmitState τ) (me : τ) (x : Exec τ) (hp : p ∈ V) :
    ∑ q ∈ V, (update s.exec p x q).got me + (s.exec p).got me = ∑ q ∈ V, (s.exec q).got me + x.got me := by
  have sum := Prec.sum_change (f := fun q => (s.exec q).got me)
    (g := fun q => (update s.exec p x q).got me) hp
    (fun q _ hq => by simp only [update_of_ne hq])
  simpa only [update_self] using sum

lemma CountInv.pass {g : τ → Gnode τ} {l h} (I : CountInv V me s) (hp : p ∈ V) (hg : succs g = succs s.gnode)
    (hn : (g me).nPredecessors = (s.gnode me).nPredecessors)
    (hr : x.rest me ((succs s.gnode p).count me) = (s.exec p).rest me ((succs s.gnode p).count me))
    (hh : h + x.got me = s.handed + (s.exec p).got me) (hx : x.got me ≤ (s.exec p).got me) :
    CountInv V me
      { s with gnode := g, lock := l, exec := update s.exec p x, handed := h } := by
  have rest_eq := rest_update me x hp hg l h
  have got_eq := got_update s me x hp
  rw [hr, Nat.add_right_cancel_iff] at rest_eq
  have taken_eq : taken V me { s with gnode := g, lock := l, exec := update s.exec p x,
                                      handed := h } = s.taken V me := by
    simp only [taken]
    omega
  refine ⟨?_, ?_, ?_, taken_eq ▸ I.once, ?_, ?_, ?_⟩
  · rw [rest_eq, ← I.counter, ← hn]
  · simp only [hg]
    exact I.edges
  · intro q hq
    by_cases ne : q = p
    · subst ne
      have := I.seen q hq
      simp only [hg, update_self]
      omega
    · simpa only [hg, update_of_ne ne] using I.seen q hq
  · rw [taken_eq, rest_eq]
    exact I.still
  · rw [taken_eq]
    exact I.linked
  · rw [taken_eq, rest_eq]
    exact I.ended

lemma CountInv.release {ts ready} (I : CountInv V me s) (hp : p ∈ V) (e : s.exec p = .walk (me :: ts) ready)
    (hu : (s.gnode me).nPredecessors = 1 → s.pc.published = 0) :
    CountInv V me
      { s with
        gnode := gnodeRelease s.gnode me
        exec := update s.exec p
          (.walk ts (if (s.gnode me).nPredecessors = 1 then ready ++ [me] else ready)) } := by
  generalize hx : Exec.walk ts
    (if (s.gnode me).nPredecessors = 1 then ready ++ [me] else ready) = x
  have x_rest : ∀ c, x.rest me c = ts.count me := by
    intro c
    rw [← hx]
    rfl
  have x_got : x.got me = ready.count me + if (s.gnode me).nPredecessors = 1 then 1 else 0 := by
    rw [← hx]
    by_cases h : (s.gnode me).nPredecessors = 1 <;> simp [Exec.got, h]
  have p_rest : ∀ c, (s.exec p).rest me c = ts.count me + 1 := by
    intro c
    simp [e, Exec.rest]
  have p_got : (s.exec p).got me = ready.count me := by
    rw [e]
    rfl
  have rest_eq := rest_update me x hp (succs_release (g := s.gnode) (t := me))
    s.lock s.handed
  have got_eq := got_update s me x hp
  rw [x_rest, p_rest] at rest_eq
  rw [x_got, p_got] at got_eq
  have counter := I.counter
  have edges := I.edges
  have ended := I.ended
  -- an edge to `me` is still to be released, so `me` has not been collected
  have taken0 : s.taken V me = 0 := by
    by_contra pos
    have := I.still (by omega)
    omega
  have taken_eq : taken V me { s with gnode := gnodeRelease s.gnode me,
                                      exec := update s.exec p x } =
      if (s.gnode me).nPredecessors = 1 then 1 else 0 := by
    simp only [taken] at taken0 ⊢
    omega
  have edge_pos : 0 < ∑ q ∈ V, (succs s.gnode q).count me := by
    have h1 := I.seen p hp
    have h2 := Finset.single_le_sum (f := fun q => (succs s.gnode q).count me)
      (fun _ _ => Nat.zero_le _) hp
    rw [p_rest] at h1
    omega
  refine ⟨?_, ?_, ?_, ?_, ?_, ?_, ?_⟩
  · simp only [nPredecessors_release, if_true]
    omega
  · simpa only [succs_release] using edges
  · intro q hq
    by_cases ne : q = p
    · subst ne
      have := I.seen q hq
      simp only [succs_release, update_self, x_rest, x_got]
      rw [p_rest, p_got] at this
      split <;> omega
    · simpa only [succs_release, update_of_ne ne] using I.seen q hq
  · rw [taken_eq]
    split <;> omega
  · rw [taken_eq]
    intro pos
    split at pos
    · omega
    · omega
  · rw [taken_eq]
    intro pos
    split at pos
    · refine .inr (.inr ?_)
      change 0 < s.n
      omega
    · omega
  · rw [taken_eq]
    intro done
    have hpc : s.pc = .done := done
    simp only [hpc, Submitter.published] at counter
    split
    · exact .inl Nat.one_pos
    · exact .inr (by omega)

lemma CountInv.exec (I : CountInv V me s) (hp : p ∈ V) (hu : s.Undisturbed V me (.exec p))
    (h : execStep me s p = some s') : CountInv V me s' := by
  cases e : s.exec p with
  | running | locked | unlocked =>
    simp only [execStep, e, Option.some.injEq] at h
    subst h
    exact I.pass hp rfl rfl (by simp [e, Exec.rest]) (by simp [e, Exec.got]) (by simp [Exec.got])
  | finished =>
    simp only [execStep, e] at h
    split at h
    · cases h
    · cases h
      exact I.pass hp rfl rfl (by simp [e, Exec.rest]) (by simp [e, Exec.got]) (by simp [Exec.got])
  | walk ts ready =>
    cases ts with
    | nil =>
      simp only [execStep, e, Option.some.injEq] at h
      subst h
      exact I.pass hp rfl rfl (by simp [e, Exec.rest]) (by simp [e, Exec.got])
        (by simp [e, Exec.got])
    | cons t ts =>
      simp only [execStep, e, Option.some.injEq] at h
      subst h
      by_cases ht : t = me
      · subst ht
        exact I.release hp e (by simpa [Undisturbed, e] using hu)
      · have got_eq : (Exec.walk ts (if (s.gnode t).nPredecessors = 1 then ready ++ [t] else ready)).got me =
            (s.exec p).got me := by
          by_cases h1 : (s.gnode t).nPredecessors = 1 <;> simp [e, Exec.got, h1, ht]
        exact I.pass hp succs_release (by simp [nPredecessors_release, ht])
          (by simp [e, Exec.rest, ht]) (by rw [got_eq]) got_eq.le
  | schedule ready =>
    cases ready with
    | nil =>
      simp only [execStep, e, Option.some.injEq] at h
      subst h
      exact I.pass hp rfl rfl (by simp [e, Exec.rest]) (by simp [e, Exec.got]) (by simp [Exec.got])
    | cons t ready =>
      simp only [execStep, e, Option.some.injEq] at h
      subst h
      refine I.pass hp rfl rfl (by simp [e, Exec.rest]) ?_ (by simp [e, Exec.got, List.count_cons])
      simp only [e, Exec.got, List.count_cons, beq_iff_eq]
      omega
  | done => simp [execStep, e] at h

end Walk

omit [DecidableEq τ] in
lemma Init.lockInv (h : Init V me s) : LockInv V s := by
  obtain ⟨todo, pc, mem⟩ := h.pc
  refine ⟨?_, ?_, ?_, ?_⟩
  · simp [pc, Submitter.held]
  · simp [h.exec]
  · simp [pc]
  · simpa [pc, Submitter.targets] using mem

lemma Init.countInv (h : Init V me s) : CountInv V me s := by
  obtain ⟨todo, pc, -⟩ := h.pc
  have edges : ∀ p ∈ V, (succs s.gnode p).count me = 0 := fun p hp =>
    List.count_eq_zero_of_not_mem (h.fresh p hp)
  have rest0 : s.rest V me = 0 :=
    Finset.sum_eq_zero fun p hp => by simp [h.exec, Exec.rest, edges p hp]
  have taken0 : s.taken V me = 0 := by
    simp [taken, h.handed, h.exec, Exec.got, pc, Submitter.got]
  refine ⟨?_, ?_, ?_, by omega, by omega, by omega, by simp [pc]⟩
  · simp [h.node, gnodeInit, pc, Submitter.published, rest0]
  · rw [Finset.sum_eq_zero edges, h.n, pc]
    rfl
  · intro p _
    simp [h.exec, Exec.rest, Exec.got]

lemma CountInv.handedOnce (I : CountInv V me s) : HandedOnce V me s := by
  have rest_zero : s.rest V me = 0 → ∀ p ∈ V, (s.exec p).rest me ((succs s.gnode p).count me) = 0 := fun h =>
    Finset.sum_eq_zero_iff.1 h
  refine ⟨?_, ?_, ?_⟩
  · have := I.once
    simp only [taken] at this
    omega
  · intro pos p hp mem
    have still := rest_zero (I.still (by simp only [taken]; omega)) p hp
    have edge := List.count_pos_iff.2 mem
    simp only [finished]
    cases e : s.exec p <;> simp only [e, Exec.rest, Exec.isFinished] at still ⊢
    omega
  · intro pc all
    have cleared : ∀ p ∈ V, (s.exec p).rest me ((succs s.gnode p).count me) + (s.exec p).got me = 0 := by
      intro p hp
      by_cases mem : me ∈ succs s.gnode p
      · simp [all p hp mem, Exec.rest, Exec.got]
      · have seen := I.seen p hp
        rw [List.count_eq_zero_of_not_mem mem] at seen ⊢
        omega
    have rest0 : s.rest V me = 0 := Finset.sum_eq_zero fun p hp => by
      have := cleared p hp
      omega
    have got0 : ∑ p ∈ V, (s.exec p).got me = 0 := Finset.sum_eq_zero fun p hp => by
      have := cleared p hp
      omega
    have ended := (I.ended pc).resolve_right (by omega)
    have once := I.once
    simp only [taken, pc, Submitter.got] at ended once
    omega

end SubmitState

/-- In every run whose steps are all undisturbed the new task is handed over once and not early. -/
theorem submission_handedOnce {V : Finset τ} {me : τ} {s : SubmitState τ}
    (h : (submission V me).Reach (SubmitState.Undisturbed V me) s) : s.HandedOnce V me := by
  have inv : s.LockInv V ∧ s.CountInv V me := by
    refine h.inv (I := fun s => s.LockInv V ∧ s.CountInv V me)
      (fun s h0 => ⟨h0.lockInv, h0.countInv⟩) ?_
    rintro s (_ | p) s' ⟨L, I⟩ hu hs
    · exact ⟨L.submit hs, I.submit L hu hs⟩
    · simp only [submission] at hs
      split at hs
      · rename_i hp
        exact ⟨L.exec hs, I.exec hp hu hs⟩
      · cases hs
  exact inv.2.handedOnce

/-- A row of running tasks without edges is about to precede `me`. -/
def submitStart (row : List τ) : SubmitState τ where
  gnode := fun _ => gnodeInit
  lock := fun _ => false
  exec := fun _ => .running
  pc := .next (row.map some)
  n := 0
  handed := 0

lemma submitStart_init {V : Finset τ} {me : τ} {row : List τ} (h : me ∉ V)
    (hr : ∀ p ∈ row, p ∈ V) : (submission V me).init (submitStart row) :=
  ⟨h, rfl, fun _ _ => List.not_mem_nil, fun _ => rfl, fun _ => rfl, ⟨_, rfl, by simpa using hr⟩, rfl, rfl⟩

/-- An executor finishes its task and releases `k` successors, `r` of them ready. -/
def finishSteps (p : τ) (k r : Nat) : List (Thread τ) := List.replicate (6 + k + r) (.exec p)

/-- One edge, counted before its release. -/
theorem submission_handedOnce_single : ∃ s, (submission {0} 1).Reach (SubmitState.Undisturbed {0} 1) s ∧
      s.handed = 1 ∧ s.HandedOnce {0} 1 := by
  refine Machine.shown_and (s := submitStart [0]) (List.replicate 6 .submit ++ finishSteps 0 1 1 ++ [.submit])
    (submitStart_init (by decide) (by decide)) (by decide) fun s h _ => ?_
  exact submission_handedOnce h

/-- Of one edge that is released before it is counted the task is lost; of two edges, the first
released before the second is published, it is handed over twice. -/
theorem submission_lost_twice : (∃ s, (submission {0} 1).Reachable s ∧ ¬ s.HandedOnce {0} 1 ∧
      s.pc = .done ∧ s.exec 0 = .done ∧ s.handed = 0) ∧
    (∃ s, (submission {0, 1} 2).Reachable s ∧ ¬ s.HandedOnce {0, 1} 2 ∧ s.handed = 2) := by
  constructor
  · refine Machine.shown (P := fun s => s.pc = .done ∧ s.exec 0 = .done ∧ s.handed = 0) (s := submitStart [0])
      (List.replicate 5 .submit ++ finishSteps 0 1 0 ++ [.submit, .submit]) (submitStart_init (by decide) (by decide))
      (by decide) fun s _ facts => ?_
    obtain ⟨pc, ex, lost⟩ := facts
    refine ⟨fun h => ?_, pc, ex, lost⟩
    have := h.handed pc (by simp [ex])
    omega
  · refine Machine.shown (P := fun s => s.handed = 2) (s := submitStart [0, 1]) (List.replicate 6 .submit ++
      finishSteps 0 1 1 ++ List.replicate 6 .submit ++ finishSteps 1 1 1) (submitStart_init (by decide) (by decide))
      (by decide) fun s _ twice => ?_
    refine ⟨fun h => ?_, twice⟩
    have := h.once
    omega

end Kupl.Dag
