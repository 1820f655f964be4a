import Mathlib.Algebra.Order.BigOperators.Group.Finset
import Mathlib.Data.Fintype.EquivFin

/-!
# Precedence edges and the predecessors still to come

A precedence graph is a function from a node to the list of its successors; a successor listed twice
is two edges. `pending V succ live t` counts the edges into `t` from the nodes of `V` that are still
live, which is what a node's predecessor counter is meant to hold. The lemmas say how that number
moves when an edge is added, when a node is added and when a live node ends.
-/

namespace Kupl.Prec
open Finset

variable {τ : Type*} [DecidableEq τ]

lemma sum_change {V : Finset τ} {f g : τ → Nat} {p : τ} (hp : p ∈ V)
    (h : ∀ q ∈ V, q ≠ p → g q = f q) : ∑ q ∈ V, g q + f p = ∑ q ∈ V, f q + g p := by
  rw [← add_sum_erase V f hp, ← add_sum_erase V g hp]
  have rest : ∑ q ∈ V.erase p, g q = ∑ q ∈ V.erase p, f q :=
    sum_congr rfl fun q hq => h q (mem_of_mem_erase hq) (ne_of_mem_erase hq)
  omega

/-- The edges into `t` from the live nodes of `V`. -/
def pending (V : Finset τ) (succ : τ → List τ) (live : τ → Bool) (t : τ) : Nat :=
  ∑ p ∈ V, if live p then (succ p).count t else 0

section Pending
variable {V : Finset τ} {succ succ' : τ → List τ} {live live' : τ → Bool} {p t : τ}

lemma pending_eq_zero : pending V succ live t = 0 ↔ ∀ p ∈ V, live p = true → t ∉ succ p := by
  unfold pending
  rw [sum_eq_zero_iff]
  refine forall₂_congr fun p _ => ?_
  cases live p <;> simp [List.count_eq_zero]

lemma pending_congr (hs : ∀ p ∈ V, live p = true → succ p = succ' p)
    (hl : ∀ p ∈ V, live p = live' p) : pending V succ live t = pending V succ' live' t := by
  refine sum_congr rfl fun p hp => ?_
  by_cases h : live p = true
  · rw [if_pos h, if_pos (hl p hp ▸ h), hs p hp h]
  · rw [if_neg h, if_neg (hl p hp ▸ h)]

lemma pending_finish (hp : p ∈ V) (hl : live p = true) : pending V succ live t =
      (succ p).count t + pending V succ (Function.update live p false) t := by
  unfold pending
  rw [← add_sum_erase V _ hp, ← add_sum_erase V _ hp, if_pos hl]
  simp only [Function.update_self, Bool.false_eq_true, if_false, Nat.zero_add]
  congr 1
  refine sum_congr rfl fun q hq => ?_
  rw [Function.update_of_ne (ne_of_mem_erase hq)]

lemma pending_link (hp : p ∈ V) (hl : live p = true) (x : τ) :
    pending V (Function.update succ p (x :: succ p)) live t =
      pending V succ live t + if x = t then 1 else 0 := by
  unfold pending
  rw [← add_sum_erase V _ hp, ← add_sum_erase V _ hp, if_pos hl, if_pos hl,
    Function.update_self, List.count_cons]
  have rest : ∑ q ∈ V.erase p, (if live q then ((Function.update succ p (x :: succ p)) q).count t else 0) =
      ∑ q ∈ V.erase p, if live q then (succ q).count t else 0 :=
    sum_congr rfl fun q hq => by
      rw [Function.update_of_ne (ne_of_mem_erase hq)]
  rw [rest]
  simp only [beq_iff_eq]
  omega

lemma pending_insert (hp : p ∉ V) : pending (insert p V) succ live t =
      (if live p then (succ p).count t else 0) + pending V succ live t :=
  sum_insert hp

lemma count_le_pending (hp : p ∈ V) (hl : live p = true) : (succ p).count t ≤ pending V succ live t := by
  rw [pending_finish hp hl]
  exact Nat.le_add_right _ _

end Pending

/-- A chain of edges. -/
def Path (succ : τ → List τ) : τ → τ → Prop := Relation.TransGen fun p t => t ∈ succ p

section Path
variable {succ succ' : τ → List τ} {p q t : τ}

omit [DecidableEq τ]

lemma Path.single (h : t ∈ succ p) : Path succ p t := Relation.TransGen.single h

lemma Path.trans (h1 : Path succ p q) (h2 : Path succ q t) : Path succ p t :=
  Relation.TransGen.trans h1 h2

lemma Path.mono (h : Path succ p t) (sub : ∀ p t, t ∈ succ p → t ∈ succ' p) : Path succ' p t :=
  Relation.TransGen.mono sub _ _ h

lemma Path.finished (started fin : τ → Prop) (h : Path succ p t)
    (wait : ∀ p t, t ∈ succ p → started t → fin p)
    (le : ∀ t, fin t → started t) (ht : started t) : fin p := by
  induction h with
  | single e => exact wait _ _ e ht
  | tail _ e ih => exact ih (le _ (wait _ _ e ht))

lemma wellFounded_of_acyclic {V : Finset τ} (edge : ∀ p t, t ∈ succ p → p ∈ V ∧ t ∈ V)
    (acyclic : ∀ t, ¬ Path succ t t) : WellFounded fun p t => t ∈ succ p := by
  let chain : V → V → Prop := fun p t => Path succ p t
  have : IsTrans V chain := ⟨fun _ _ _ h1 h2 => Path.trans h1 h2⟩
  have : Std.Irrefl chain := ⟨fun t => acyclic t⟩
  have wf : WellFounded chain := Finite.wellFounded_of_trans_of_irrefl chain
  have acc : ∀ t : V, Acc (fun p t => t ∈ succ p) t.1 := by
    intro t
    induction t using wf.induction with
    | h t ih => exact .intro _ fun p e => ih ⟨p, (edge p t e).1⟩ (.single e)
  refine ⟨fun t => .intro _ fun p e => ?_⟩
  exact acc ⟨p, (edge p t e).1⟩

end Path

end Kupl.Prec
