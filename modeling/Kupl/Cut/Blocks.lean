import Mathlib.Algebra.BigOperators.Intervals
import Kupl.Prec.Pending

/-!
# Lists cut into blocks

A list given by its positions, cut at ascending positions: the blocks, one behind the other, are the
list (`flatMap_cut`). `share n k` cuts `n` positions into `k` blocks, the first ones larger by one.
-/

namespace Kupl.Cut

section Blocks
variable {β : Type*} {f : Nat → β} {a : Nat → Nat} {n k t : Nat}

/-- Blocks between ascending positions are one behind the other what lies between the first and the
last position. -/
lemma flatMap_cut (mono : ∀ t < n, a t ≤ a (t + 1)) :
    (List.range n).flatMap (fun t => (List.range' (a t) (a (t + 1) - a t)).map f) =
      (List.range' (a 0) (a n - a 0)).map f := by
  induction n with
  | zero => simp
  | succ n ih =>
    have up : ∀ m ≤ n, a 0 ≤ a m := by
      intro m hm
      induction m with
      | zero => exact le_rfl
      | succ m ihm => exact (ihm (by omega)).trans (mono m (by omega))
    have le := up n le_rfl
    have step := mono n (by omega)
    have join : a (n + 1) - a 0 = (a n - a 0) + (a (n + 1) - a n) := by omega
    have start : a n = a 0 + (a n - a 0) := by omega
    rw [List.range_succ, List.flatMap_append, ih fun t ht => mono t (by omega), join,
      ← List.range'_append_1, List.map_append, ← start]
    simp

/-- A position between the first and the last one is in a block. -/
lemma exists_block {x : Nat} (low : a 0 ≤ x) (high : x < a n) : ∃ t < n, a t ≤ x ∧ x < a (t + 1) := by
  induction n with
  | zero => omega
  | succ n ih =>
    obtain lt | le := Nat.lt_or_ge x (a n)
    · obtain ⟨t, below, here⟩ := ih lt
      exact ⟨t, by omega, here⟩
    · exact ⟨n, n.lt_succ_self, le, high⟩

/-- Where block `t` of `k` begins when `n` positions are shared. -/
def share (n k t : Nat) : Nat := t * (n / k) + min (n % k) t

@[simp] lemma share_zero : share n k 0 = 0 := by simp [share]

lemma share_last (pos : 0 < k) : share n k k = n := by
  rw [share, min_eq_left (Nat.mod_lt n pos).le]
  exact Nat.div_add_mod n k

/-- Every block has its share, the first ones one more. -/
lemma share_succ : share n k (t + 1) = share n k t + (n / k + if t < n % k then 1 else 0) := by
  rw [share, share, Nat.succ_mul]
  split <;> omega

lemma share_mono : Monotone (share n k) := by
  refine monotone_nat_of_le_succ fun t => ?_
  rw [share_succ]
  exact Nat.le_add_right _ _

/-- Every position is in a block. -/
lemma exists_share {x : Nat} (pos : 0 < k) (lt : x < n) : ∃ t < k, share n k t ≤ x ∧ x < share n k (t + 1) := by
  apply exists_block
  · rw [share_zero]
    exact Nat.zero_le x
  · rwa [share_last pos]

/-- A position is in one block only. -/
lemma share_unique {x u : Nat} (at_t : share n k t ≤ x ∧ x < share n k (t + 1))
    (at_u : share n k u ≤ x ∧ x < share n k (u + 1)) : t = u := by
  by_contra ne
  obtain lt | gt := Nat.lt_or_gt_of_ne ne
  · have : share n k (t + 1) ≤ share n k u := share_mono lt
    omega
  · have : share n k (u + 1) ≤ share n k t := share_mono gt
    omega

lemma share_le (le : t ≤ k) (pos : 0 < k) : share n k t ≤ n :=
  (share_mono le).trans (share_last pos).le

end Blocks

/-!
## Numbers handed out by counters

Consecutive intervals of numbers, `first i` up to `first (i + 1)`, each handed out by a counter of its
own that starts at the beginning of its interval and may be pushed past the end. `claimed` counts the
numbers handed out so far; when every counter is past its interval these are all numbers
(`claimed_all`).
-/

section Claim
open Finset

variable {n i : Nat} {p : Nat → Bool}

/-- How many of the numbers handed out have a property. -/
def claimed (first value : Nat → Nat) (n : Nat) (p : Nat → Bool) : Nat :=
  ∑ i ∈ range n, (List.range' (first i) (min (value i) (first (i + 1)) - first i)).countP p

variable {first value : Nat → Nat}

/-- Nothing is handed out while the counters are where they start. -/
lemma claimed_start : claimed first first n p = 0 := by
  refine sum_eq_zero fun i _ => ?_
  have : min (first i) (first (i + 1)) - first i = 0 := by omega
  rw [this]
  rfl

/-- A counter inside of its interval hands out its number. -/
lemma claimed_bump (hi : i < n) (low : first i ≤ value i) (inside : value i < first (i + 1)) :
    claimed first (Function.update value i (value i + 1)) n p =
      claimed first value n p + if p (value i) then 1 else 0 := by
  have change := Prec.sum_change
    (f := fun j => (List.range' (first j) (min (value j) (first (j + 1)) - first j)).countP p)
    (g := fun j => (List.range' (first j)
      (min (Function.update value i (value i + 1) j) (first (j + 1)) - first j)).countP p)
    (mem_range.2 hi) fun j _ ne => by simp only [Function.update_of_ne ne]
  have grow : min (value i + 1) (first (i + 1)) - first i = (min (value i) (first (i + 1)) - first i) + 1 := by omega
  have place : first i + (min (value i) (first (i + 1)) - first i) = value i := by omega
  simp only [Function.update_self, grow, List.range'_1_concat, place, List.countP_append,
    List.countP_singleton] at change
  unfold claimed
  omega

/-- A counter past its interval hands out nothing. -/
lemma claimed_past (past : first (i + 1) ≤ value i) :
    claimed first (Function.update value i (value i + 1)) n p = claimed first value n p := by
  refine sum_congr rfl fun j _ => ?_
  by_cases e : j = i
  · subst e
    have same : min (value j + 1) (first (j + 1)) = min (value j) (first (j + 1)) := by omega
    rw [Function.update_self, same]
  · rw [Function.update_of_ne e]

/-- Counters past their intervals have handed out every number once. -/
lemma claimed_all (mono : ∀ i < n, first i ≤ first (i + 1)) (past : ∀ i < n, first (i + 1) ≤ value i) :
    claimed first value n p = (List.range' (first 0) (first n - first 0)).countP p := by
  have whole : claimed first value n p = ∑ i ∈ range n,
    (List.range' (first i) (first (i + 1) - first i)).countP p :=
    sum_congr rfl fun i hi => by rw [min_eq_right (past i (mem_range.1 hi))]
  have blocks := congrArg (List.countP p) (flatMap_cut (f := id) mono)
  simp only [List.map_id] at blocks
  rw [whole, ← blocks, List.countP_flatMap]
  rfl

end Claim

/-!
## Gathering partial results

Contributions are combined under a key, each key with an accumulator of its own that starts with a
neutral value, and the accumulators are combined at the end. Where the operation is commutative and
associative, and every key is gathered once, the result is that of all contributions one after the
other (`gather_eq`), whichever keys they were combined under.
-/

section Gather
variable {α κ : Type*}

section Fold
variable {op : α → α → α} [Std.Associative op] {e : α}

/-- A list is folded into a value by folding it first. -/
lemma foldl_eq (neutral : ∀ x, op x e = x) (x : α) (l : List α) : l.foldl op x = op x (l.foldl op e) :=
  calc l.foldl op x = l.foldl op (op x e) := by rw [neutral]
    _ = op x (l.foldl op e) := List.foldl_assoc

/-- Gathering the accumulators of some keys is gathering their contributions. -/
lemma gather_flatMap (neutral : ∀ x, op x e = x) (f : κ → List α) (ks : List κ) (x : α) :
    ks.foldl (fun x k => op x ((f k).foldl op e)) x = (ks.flatMap f).foldl op x := by
  induction ks generalizing x with
  | nil => rfl
  | cons k ks ih => rw [List.foldl_cons, ih, List.flatMap_cons, List.foldl_append, ← foldl_eq neutral]

end Fold

variable [DecidableEq κ]

def under (log : List (κ × α)) (k : κ) : List α := (log.filter (·.1 = k)).map Prod.snd

/-- A new contribution comes behind the ones under its own key. -/
lemma under_append (log : List (κ × α)) (k k' : κ) (x : α) :
    under (log ++ [(k', x)]) k = if k' = k then under log k ++ [x] else under log k := by
  unfold under
  by_cases eq : k' = k <;> simp [eq]

variable {log : List (κ × α)}

/-- Nothing is under a key without contributions. -/
lemma under_eq_nil {k : κ} (h : ∀ p ∈ log, p.1 ≠ k) : under log k = [] := by
  unfold under
  rw [List.map_eq_nil_iff, List.filter_eq_nil_iff]
  exact fun p hp => by simpa using h p hp

/-- The contributions, gathered key by key, are those of the log. -/
lemma flatMap_under_perm {ks : List κ} (nodup : ks.Nodup)
    (all : ∀ p ∈ log, p.1 ∈ ks) : (ks.flatMap (under log)).Perm (log.map Prod.snd) := by
  induction log with
  | nil => simp [under]
  | cons p log ih =>
    have ih := ih fun q hq => all q (List.mem_cons_of_mem _ hq)
    have head : ∀ k, under (p :: log) k = if p.1 = k then p.2 :: under log k else under log k := by
      intro k
      unfold under
      by_cases eq : p.1 = k <;> simp [eq]
    obtain ⟨before, behind, rfl⟩ := List.append_of_mem (all p List.mem_cons_self)
    have other : ∀ k ∈ before ++ behind, p.1 ≠ k := by
      intro k hk eq
      have once := List.perm_middle.nodup_iff.1 nodup
      rw [List.nodup_cons] at once
      exact once.1 (eq ▸ hk)
    have same : ∀ l : List κ, (∀ k ∈ l, p.1 ≠ k) → l.flatMap (under (p :: log)) = l.flatMap (under log) :=
      fun l hl => List.flatMap_congr fun k hk => by rw [head, if_neg (hl k hk)]
    rw [List.flatMap_append, List.flatMap_cons, head, if_pos rfl,
      same before fun k hk => other k (List.mem_append_left _ hk),
      same behind fun k hk => other k (List.mem_append_right _ hk), List.map_cons]
    rw [List.flatMap_append, List.flatMap_cons] at ih
    exact List.perm_middle.trans (ih.cons _)

/-- Gathering every key once combines all contributions. -/
lemma gather_eq {op : α → α → α} [Std.Associative op] [Std.Commutative op] {e : α} (neutral : ∀ x, op x e = x)
    {ks : List κ} (nodup : ks.Nodup) (all : ∀ p ∈ log, p.1 ∈ ks) (x : α) :
    ks.foldl (fun x k => op x ((under log k).foldl op e)) x = (log.map Prod.snd).foldl op x := by
  rw [gather_flatMap neutral]
  exact (flatMap_under_perm nodup all).foldl_eq _

end Gather
end Kupl.Cut
