import Mathlib.Algebra.BigOperators.Group.Finset.Basic
import Mathlib.Data.Fintype.Basic

/-!
# Ledgers

What finitely many places hold, up to order. `Stays`, `Enters`, `Leaves` and `Moves` say how a ledger
changes; `total` counts an item over all places, and each kind of change has a lemma on it.
-/

namespace Kupl.Sched
open Function (update update_of_ne update_self)

variable {P α : Type*} {f g : P → List α} {x y : α} {a b : P}

/-- Nothing changes but the order. -/
def Stays (f g : P → List α) : Prop := ∀ p, (g p).Perm (f p)

/-- `x` comes to `a`. -/
structure Enters (x : α) (a : P) (f g : P → List α) : Prop where
  here : (g a).Perm (x :: f a)
  others : ∀ p, p ≠ a → (g p).Perm (f p)

/-- `x` goes away from `a`. -/
def Leaves (x : α) (a : P) (f g : P → List α) : Prop := Enters x a g f

/-- `x` goes from `a` to `b`. -/
structure Moves (x : α) (a b : P) (f g : P → List α) : Prop where
  ne : a ≠ b
  source : (f a).Perm (x :: g a)
  target : (g b).Perm (x :: f b)
  others : ∀ p, p ≠ a → p ≠ b → (g p).Perm (f p)

lemma Stays.trans {h : P → List α} (s : Stays f g) (t : Stays g h) : Stays f h := fun p => (t p).trans (s p)

lemma Stays.of_eq (h : g = f) : Stays f g := fun _ => by rw [h]

variable [DecidableEq P]

lemma stays_update {v : List α} (h : v.Perm (f a)) : Stays f (update f a v) := by
  intro p
  by_cases same : p = a
  · rw [same, update_self]
    exact h
  · rw [update_of_ne same]

lemma enters_update {v : List α} (h : v.Perm (x :: f a)) : Enters x a f (update f a v) := by
  refine ⟨?_, fun p ne => ?_⟩
  · rw [update_self]
    exact h
  · rw [update_of_ne ne]

lemma leaves_update {v : List α} (h : (f a).Perm (x :: v)) : Leaves x a f (update f a v) := by
  refine ⟨?_, fun p ne => ?_⟩
  · rw [update_self]
    exact h
  · rw [update_of_ne ne]

lemma moves_update {v w : List α} (ne : a ≠ b) (h : (f a).Perm (x :: v)) (h' : w.Perm (x :: f b)) :
    Moves x a b f (update (update f b w) a v) := by
  refine ⟨ne, ?_, ?_, fun p na nb => ?_⟩
  · rw [update_self]
    exact h
  · rw [update_of_ne ne.symm, update_self]
    exact h'
  · rw [update_of_ne na, update_of_ne nb]

lemma Moves.split (h : Moves x a b f g) : Leaves x a f (update f a (g a)) ∧ Enters x b (update f a (g a)) g := by
  refine ⟨⟨?_, fun p ne => ?_⟩, ?_, fun p ne => ?_⟩
  · rw [update_self]
    exact h.source
  · rw [update_of_ne ne]
  · rw [update_of_ne h.ne.symm]
    exact h.target
  · by_cases same : p = a
    · rw [same, update_self]
    · rw [update_of_ne same]
      exact h.others p same ne

variable [Fintype P] [DecidableEq α]

/-- How often an item is held. -/
def total (f : P → List α) (y : α) : Nat := ∑ p, (f p).count y

omit [DecidableEq P] in
lemma Stays.total (h : Stays f g) : total g y = total f y :=
  Finset.sum_congr rfl fun p _ => (h p).count_eq y

lemma Enters.total (h : Enters x a f g) : total g y = total f y + [x].count y := by
  have rest : ∑ p ∈ Finset.univ.erase a, (g p).count y = ∑ p ∈ Finset.univ.erase a, (f p).count y :=
    Finset.sum_congr rfl fun p mem => (h.others p (Finset.ne_of_mem_erase mem)).count_eq y
  have one : (g a).count y = (f a).count y + [x].count y := by
    rw [h.here.count_eq y, List.count_cons, List.count_singleton]
  rw [Sched.total, Sched.total, ← Finset.add_sum_erase _ _ (Finset.mem_univ a), rest, one,
    ← Finset.add_sum_erase _ (fun p => (f p).count y) (Finset.mem_univ a)]
  omega

lemma Leaves.total (h : Leaves x a f g) : total f y = total g y + [x].count y := Enters.total h

lemma Moves.total (h : Moves x a b f g) : total g y = total f y := by
  have out := h.split.1.total (y := y)
  have into := h.split.2.total (y := y)
  omega

end Kupl.Sched
