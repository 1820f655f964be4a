import Mathlib.Data.Set.Lattice
import Mathlib.Data.Finset.Card
import Mathlib.Order.CompletePartialOrder

/-!
# Trees of cuts

A region of points is cut in two, each half is cut again, and so on; the leaves of the resulting
tree are handed out one by one. The cuts considered here never lose a point of the region they cut
and always separate the two halves (`CutTree.Separating`), but a half may reach outside of the
region it was cut from. `CutTree.partition_iff_nested` says when the leaves partition the root:
exactly when no half ever does.

The leaves are counted rather than compared pairwise: `CutTree.count x t` is the number of leaves
of `t` holding `x`, and a partition is a count that is `1` inside of the root and `0` outside.
-/

namespace Kupl.Cut
open List

variable {α : Type*}

inductive CutTree (α : Type*) where
  | leaf (s : Set α)
  | node (s : Set α) (l r : CutTree α)

def CutTree.region : CutTree α → Set α
  | .leaf s => s
  | .node s _ _ => s

def CutTree.leaves : CutTree α → List (Set α)
  | .leaf s => [s]
  | .node _ l r => l.leaves ++ r.leaves

/-- Every cut keeps all points of its region and separates the two halves. -/
def CutTree.Separating : CutTree α → Prop
  | .leaf _ => True
  | .node s l r =>
    s ⊆ l.region ∪ r.region ∧ Disjoint l.region r.region ∧ l.Separating ∧ r.Separating

/-- No half reaches outside of the region it was cut from. -/
def CutTree.Nested : CutTree α → Prop
  | .leaf _ => True
  | .node s l r => l.region ⊆ s ∧ r.region ⊆ s ∧ l.Nested ∧ r.Nested

open Classical in
/-- `1` on the points of a region and `0` elsewhere. -/
noncomputable def ind (s : Set α) (x : α) : Nat := if x ∈ s then 1 else 0

open Classical in
/-- The number of leaves that hold a point. -/
noncomputable def CutTree.count (x : α) (t : CutTree α) : Nat := t.leaves.countP (x ∈ ·)

variable {s : Set α} {t : CutTree α}

@[simp] lemma ind_of_mem {x} (h : x ∈ s) : ind s x = 1 := if_pos h

@[simp] lemma ind_of_not_mem {x} (h : x ∉ s) : ind s x = 0 := if_neg h

lemma ind_eq_one {x} : ind s x = 1 ↔ x ∈ s := by
  by_cases h : x ∈ s <;> simp [h]

lemma ind_mono {s t : Set α} (h : s ⊆ t) (x : α) : ind s x ≤ ind t x := by
  by_cases hx : x ∈ s
  · rw [ind_of_mem hx, ind_of_mem (h hx)]
  · rw [ind_of_not_mem hx]; exact Nat.zero_le _

lemma ind_union {s t : Set α} (h : Disjoint s t) (x : α) : ind (s ∪ t) x = ind s x + ind t x := by
  by_cases hs : x ∈ s
  · have ht : x ∉ t := Set.disjoint_left.mp h hs
    simp [hs, ht]
  · by_cases ht : x ∈ t <;> simp [hs, ht]

@[simp] lemma CutTree.count_leaf (x : α) (s : Set α) : (CutTree.leaf s).count x = ind s x := by
  by_cases h : x ∈ s <;> simp [CutTree.count, CutTree.leaves, h]

@[simp] lemma CutTree.count_node (x : α) (s : Set α) (l r : CutTree α) :
    (CutTree.node s l r).count x = l.count x + r.count x := by
  simp [CutTree.count, CutTree.leaves]

/-- No point of the root is lost, however the halves overlap. -/
lemma CutTree.ind_le_count (sep : t.Separating) (x : α) : ind t.region x ≤ t.count x := by
  induction t with
  | leaf s => simp [CutTree.region]
  | node s l r ihl ihr =>
    obtain ⟨cov, dis, sepl, sepr⟩ := sep
    calc ind s x ≤ ind (l.region ∪ r.region) x := ind_mono cov x
      _ = ind l.region x + ind r.region x := ind_union dis x
      _ ≤ l.count x + r.count x := Nat.add_le_add (ihl sepl) (ihr sepr)
      _ = _ := (count_node x s l r).symm

/-- Nested cuts hand out every point of the root once, and nothing else. -/
lemma CutTree.Nested.count_eq (nst : t.Nested) (sep : t.Separating) (x : α) : t.count x = ind t.region x := by
  induction t with
  | leaf s => simp [CutTree.region]
  | node s l r ihl ihr =>
    obtain ⟨cov, dis, sepl, sepr⟩ := sep
    obtain ⟨subl, subr, nstl, nstr⟩ := nst
    have e : l.region ∪ r.region = s := Set.Subset.antisymm (Set.union_subset subl subr) cov
    rw [count_node, ihl nstl sepl, ihr nstr sepr, ← ind_union dis, e, CutTree.region]

/-- A tree whose leaves hand out every point of the root once, and nothing else, has nested cuts. -/
lemma CutTree.nested_of_count_eq (sep : t.Separating) (h : ∀ x, t.count x = ind t.region x) : t.Nested := by
  induction t with
  | leaf s => trivial
  | node s l r ihl ihr =>
    obtain ⟨cov, dis, sepl, sepr⟩ := sep
    -- the counts below are squeezed between the region and its halves
    have squeeze (x) : l.count x = ind l.region x ∧ r.count x = ind r.region x ∧
        ind (l.region ∪ r.region) x = ind s x := by
      have h1 := h x
      have h2 := ind_mono cov x
      have h3 := ind_union dis x
      have h4 := ind_le_count sepl x
      have h5 := ind_le_count sepr x
      rw [count_node, CutTree.region] at h1
      omega
    have sub : l.region ∪ r.region ⊆ s := fun x hx => by
      rw [← ind_eq_one, ← (squeeze x).2.2]; exact ind_of_mem hx
    exact ⟨(Set.subset_union_left).trans sub, (Set.subset_union_right).trans sub,
      ihl sepl fun x => (squeeze x).1, ihr sepr fun x => (squeeze x).2.1⟩

/-- The leaves partition the root if and only if no half reaches outside of its region. -/
theorem CutTree.partition_iff_nested {t : CutTree α} (sep : t.Separating) :
    (∀ x, t.count x = ind t.region x) ↔ t.Nested :=
  ⟨nested_of_count_eq sep, fun nst => nst.count_eq sep⟩

/-- A list counts a property once if and only if exactly one position has it. -/
lemma countP_eq_one_iff {p : α → Bool} {l : List α} :
    l.countP p = 1 ↔ ∃! i : Nat, ∃ a, l[i]? = some a ∧ p a = true := by
  induction l with
  | nil => simp [ExistsUnique]
  | cons b l ih =>
    by_cases hb : p b = true
    · have none : l.countP p = 0 ↔ ∀ i : Nat, ¬∃ a, l[i]? = some a ∧ p a = true := by
        rw [countP_eq_zero]
        constructor
        · rintro h i ⟨a, ha, hp⟩
          exact h a (mem_of_getElem? ha) hp
        · intro h a ha hp
          obtain ⟨i, hi⟩ := mem_iff_getElem?.mp ha
          exact h i ⟨a, hi, hp⟩
      rw [countP_cons_of_pos hb, Nat.add_eq_right, none]
      constructor
      · intro h
        refine ⟨0, ⟨b, rfl, hb⟩, ?_⟩
        rintro (_ | i) hi
        · rfl
        · exact absurd hi (h i)
      · rintro ⟨i, _, uniq⟩ j hj
        exact absurd ((uniq 0 ⟨b, rfl, hb⟩).trans (uniq (j + 1) hj).symm) (Nat.zero_ne_add_one j)
    · rw [countP_cons_of_neg hb, ih]
      constructor
      · rintro ⟨i, hi, uniq⟩
        refine ⟨i + 1, hi, ?_⟩
        rintro (_ | j) hj
        · obtain ⟨a, e, hp⟩ := hj
          cases e; exact absurd hp hb
        · exact congrArg (· + 1) (uniq j hj)
      · rintro ⟨_ | i, hi, uniq⟩
        · obtain ⟨a, e, hp⟩ := hi
          cases e; exact absurd hp hb
        · exact ⟨i, hi, fun j hj => Nat.succ.inj (uniq (j + 1) hj)⟩

/-- A list without repetitions counts a property once where one of its elements has it. -/
lemma countP_unique_iff {P : Prop} {p : Nat → Prop} [Decidable P] [DecidablePred p] {l : List Nat}
    (nodup : l.Nodup) : l.countP (fun t => decide (p t)) = (if P then 1 else 0) ↔
      (P → ∃! t, t ∈ l ∧ p t) ∧ ∀ t ∈ l, p t → P := by
  split
  · rename_i h
    simp only [h, true_imp_iff, imp_true_iff, and_true]
    rw [countP_eq_length_filter, ← toFinset_card_of_nodup (nodup.filter _),
      Finset.card_eq_one_iff_existsUnique]
    simp only [mem_toFinset, mem_filter, decide_eq_true_eq]
  · rename_i not
    rw [countP_eq_zero]
    simp only [decide_eq_true_eq, not, false_imp_iff, true_and, imp_false]

/-- What one number below `n` has where any has it is counted once. -/
lemma countP_range_unique {P : Prop} {p : Nat → Prop} [Decidable P] [DecidablePred p] {n : Nat}
    (unique : P → ∃! t, t < n ∧ p t) (inside : ∀ t < n, p t → P) :
    (List.range n).countP (fun t => decide (p t)) = if P then 1 else 0 := by
  rw [countP_unique_iff nodup_range]
  simp only [mem_range]
  exact ⟨unique, inside⟩

end Kupl.Cut
