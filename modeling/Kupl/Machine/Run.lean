import Mathlib.Logic.Function.Basic

/-!
# Machines and their runs

A machine is a set of initial states and a partial step function on labels. `Machine.Reach g` are the
states reached by the runs in which every step meets the guard `g`, a condition on the state before
the step and on the label; `Machine.Reachable` are the states of all runs. `Machine.run` follows a
list of labels under a guard.
-/

namespace Kupl

variable {σ α : Type*}

/-- Initial states and labelled steps; `none` where a label is not enabled. -/
structure Machine (σ α : Type*) where
  init : σ → Prop
  step : σ → α → Option σ

namespace Machine
variable {M : Machine σ α} {g g' : σ → α → Prop}

/-- The states of the runs whose steps all meet a guard. -/
inductive Reach (M : Machine σ α) (g : σ → α → Prop) : σ → Prop where
  | init {s} : M.init s → M.Reach g s
  | step {s a s'} : M.Reach g s → g s a → M.step s a = some s' → M.Reach g s'

/-- The states of all runs. -/
def Reachable (M : Machine σ α) : σ → Prop := M.Reach fun _ _ => True

/-- What holds initially and is kept by every guarded step holds in every state reached. -/
lemma Reach.inv {I : σ → Prop} {s} (h : M.Reach g s) (h0 : ∀ s, M.init s → I s)
    (hs : ∀ s a s', I s → g s a → M.step s a = some s' → I s') : I s := by
  induction h with
  | init hi => exact h0 _ hi
  | step _ hg hst ih => exact hs _ _ _ ih hg hst

/-- A weaker guard allows more runs. -/
lemma Reach.mono {s} (h : M.Reach g s) (le : ∀ s a, g s a → g' s a) : M.Reach g' s := by
  induction h with
  | init hi => exact .init hi
  | step _ hg hst ih => exact .step ih (le _ _ hg) hst

/-- A guarded run is a run. -/
lemma Reach.reachable {s} (h : M.Reach g s) : M.Reachable s := h.mono fun _ _ _ => trivial

/-- Follows a list of labels as long as the guard allows it. -/
def run (M : Machine σ α) (g : σ → α → Prop) [∀ s a, Decidable (g s a)] : σ → List α → Option σ
  | s, [] => some s
  | s, a :: as =>
    if g s a then
      match M.step s a with
      | none => none
      | some s' => M.run g s' as
    else none

section Run
variable [∀ s a, Decidable (g s a)]

/-- Following labels from a state reached reaches a state. -/
lemma Reach.run {s s'} (h : M.Reach g s) {as} (hr : M.run g s as = some s') : M.Reach g s' := by
  induction as generalizing s with
  | nil => cases hr; exact h
  | cons a as ih =>
    unfold Machine.run at hr
    split at hr
    · rename_i hg
      split at hr
      · cases hr
      · rename_i hst
        exact ih (.step h hg hst) hr
    · cases hr

/-- A list of labels that can be followed shows a state that is reached. -/
lemma reach_of_run {s w} {P : σ → Bool} (h0 : M.init s) (hr : (M.run g s w).any P = true) :
    ∃ s', M.Reach g s' ∧ P s' = true := by
  obtain ⟨s', hs, hp⟩ := (Option.any_eq_true _ _).1 hr
  exact ⟨s', (Reach.init h0).run hs, hp⟩

/-- The same from the state some input begins with. -/
lemma reach_of_begin {o : Option σ} {w} {P : σ → Bool} (h0 : ∀ s, o = some s → M.init s)
    (hr : (o.bind fun s => M.run g s w).any P = true) : ∃ s', M.Reach g s' ∧ P s' = true := by
  obtain ⟨s', hs, hp⟩ := (Option.any_eq_true _ _).1 hr
  obtain ⟨s, ho, hs⟩ := Option.bind_eq_some_iff.1 hs
  exact ⟨s', (Reach.init (h0 s ho)).run hs, hp⟩

section Shown
variable {s : σ} {P P' Q : σ → Prop} [DecidablePred P] [DecidablePred P']

/-- A list of labels that can be followed to a state of some kind shows that one is reached. -/
lemma exists_reach (w : List α) (h0 : M.init s) (hr : (M.run g s w).any (fun s => decide (P s)) = true) :
    ∃ s, M.Reach g s ∧ P s := by
  obtain ⟨s, h, hp⟩ := reach_of_run h0 hr
  exact ⟨s, h, of_decide_eq_true hp⟩

/-- What holds of all such states holds of that one. -/
lemma shown (w : List α) (h0 : M.init s) (hr : (M.run g s w).any (fun s => decide (P s)) = true)
    (all : ∀ s, M.Reach g s → P s → Q s) : ∃ s, M.Reach g s ∧ Q s := by
  obtain ⟨s, h, hp⟩ := exists_reach w h0 hr
  exact ⟨s, h, all s h hp⟩

lemma shown_and (w : List α) (h0 : M.init s) (hr : (M.run g s w).any (fun s => decide (P s)) = true)
    (all : ∀ s, M.Reach g s → P s → Q s) : ∃ s, M.Reach g s ∧ P s ∧ Q s :=
  shown w h0 hr fun s h hp => ⟨hp, all s h hp⟩

lemma shown_and₂ (w : List α) (h0 : M.init s) (hr : (M.run g s w).any (fun s => decide (P s ∧ P' s)) = true)
    (all : ∀ s, M.Reach g s → P s → P' s → Q s) : ∃ s, M.Reach g s ∧ P s ∧ P' s ∧ Q s :=
  shown w h0 hr fun s h hp => ⟨hp.1, hp.2, all s h hp.1 hp.2⟩

end Shown

/-- Where every state but those looked for has a step that brings it nearer to them, one of them can be reached. -/
lemma run_to {P Q : σ → Prop} (m : σ → Nat)
    (go : ∀ s, P s → ¬ Q s → ∃ a s', g s a ∧ M.step s a = some s' ∧ P s' ∧ m s' < m s) {s} (h : P s) :
    ∃ as s', M.run g s as = some s' ∧ Q s' := by
  induction isM : m s using Nat.strongRecOn generalizing s with
  | ind k ih =>
    by_cases there : Q s
    · exact ⟨[], s, rfl, there⟩
    · obtain ⟨a, s', allowed, st, h', less⟩ := go s h there
      obtain ⟨as, t, run, there⟩ := ih (m s') (by omega) h' rfl
      refine ⟨a :: as, t, ?_, there⟩
      rw [Machine.run, if_pos allowed, st]
      exact run

end Run
end Machine

/-! ## Steps side by side -/

section Rel
variable {β γ δ : Type*} {r : α → β → Prop} {r' : γ → δ → Prop} {x : Option α} {y : Option β}
  {f : α → Option γ}
  {g : β → Option δ}

lemma rel_cases (rel : Option.Rel r x y) : (x = none ∧ y = none) ∨ ∃ a b, x = some a ∧
    y = some b ∧ r a b := by
  cases rel with
  | some same => exact .inr ⟨_, _, rfl, rfl, same⟩
  | none => exact .inl ⟨rfl, rfl⟩

lemma rel_bind (rel : Option.Rel r x y) (next : ∀ a b, x = some a → r a b → Option.Rel r' (f a) (g b)) :
    Option.Rel r' (x.bind f) (y.bind g) := by
  cases rel with
  | some same => exact next _ _ rfl same
  | none => exact .none

end Rel
end Kupl
