import Mathlib.Tactic.Positivity
import Kupl.Cut.Blocks
import Kupl.Range.Divide

/-!
# The iterates of a dimension in their order

A loop over one dimension of a range visits `lower`, `lower + step` and so on before `upper`:
`KuplRange.iterates`. The sub-ranges that the policies of `mt/kupl_parallel_for.cpp` hand out begin at
an iterate and end before another one or at `upper`, whichever comes first: `KuplRange.cut`.
-/

namespace Kupl.Range
open Kupl.Cut

/-- The number of iterates. -/
def KuplRange.size (r : KuplRange) : Nat :=
  if 0 < r.step then ((r.upper - r.lower + r.step - 1) / r.step).toNat
  else ((r.lower - r.upper - r.step - 1) / -r.step).toNat

def KuplRange.iterates (r : KuplRange) : List Int :=
  (List.range r.size).map fun k : Nat => r.lower + k * r.step

/-- The nearer of `upper` and a bound (C++ the clamp of `kupl_static_policy_impl` and
`kupl_compute_chunk_range`). -/
def KuplRange.clamp (r : KuplRange) (chunksize bound : Int) : Int :=
  if chunksize > 0 then min bound r.upper else max bound r.upper

/-- The iterates from number `a` on and before number `b`. -/
def KuplRange.cut (r : KuplRange) (a b : Nat) : KuplRange where
  lower := r.lower + a * r.step
  upper := r.clamp r.step (r.lower + b * r.step)
  step := r.step
  blocksize := r.blocksize

variable {r : KuplRange} {x : Int} {a b k : Nat}

lemma KuplRange.lt_size (ne : r.step ≠ 0) : k < r.size ↔ r.Before (r.lower + k * r.step) r.upper := by
  unfold KuplRange.size KuplRange.Before
  by_cases pos : 0 < r.step
  · have neg : ¬r.step < 0 := by omega
    rw [if_pos pos]
    rw [Int.lt_toNat, ← Int.add_one_le_iff, Int.le_ediv_iff_mul_le pos]
    have : ((k : Int) + 1) * r.step = k * r.step + r.step := by ring
    omega
  · have neg : r.step < 0 := by omega
    rw [if_neg pos]
    rw [Int.lt_toNat, ← Int.add_one_le_iff, Int.le_ediv_iff_mul_le (by omega)]
    have : ((k : Int) + 1) * -r.step = -(k * r.step) - r.step := by ring
    omega

lemma KuplRange.Before.step_ne {y : Int} (h : r.Before x y) : r.step ≠ 0 := by
  rcases h with ⟨pos, -⟩ | ⟨neg, -⟩ <;> omega

lemma KuplRange.mem_iterates (ne : r.step ≠ 0) : x ∈ r.iterates ↔ r.Mem x := by
  unfold KuplRange.iterates
  rw [List.mem_map]
  constructor
  · rintro ⟨k, hk, rfl⟩
    exact ⟨k, rfl, (r.lt_size ne).1 (List.mem_range.1 hk)⟩
  · rintro ⟨k, rfl, before⟩
    exact ⟨k, List.mem_range.2 ((r.lt_size ne).2 before), rfl⟩

lemma KuplRange.iterates_nodup (ne : r.step ≠ 0) : r.iterates.Nodup := by
  refine List.Nodup.map (fun a b h => ?_) List.nodup_range
  have : (a : Int) * r.step = b * r.step := by omega
  exact_mod_cast Int.eq_of_mul_eq_mul_right ne this

lemma KuplRange.iterates_step_zero (h : r.step = 0) : r.iterates = [] := by
  simp [KuplRange.iterates, KuplRange.size, h]

lemma KuplRange.count_iterates : r.iterates.count x = if r.Mem x then 1 else 0 := by
  by_cases ne : r.step = 0
  · rw [KuplRange.iterates_step_zero ne, if_neg]
    · rfl
    · rintro ⟨k, -, before⟩
      exact before.step_ne ne
  · rw [(KuplRange.iterates_nodup ne).count]
    simp only [KuplRange.mem_iterates ne]

lemma count_iterates_flatMap {α : Type*} {l : List α} {f : α → KuplRange} :
    (l.flatMap fun a => (f a).iterates).count x = l.countP fun a => decide ((f a).Mem x) := by
  induction l with
  | nil => rfl
  | cons a l ih =>
    rw [List.flatMap_cons, List.count_append, ih, KuplRange.count_iterates, List.countP_cons]
    simp only [decide_eq_true_eq]
    omega

lemma perm_iterates_iff {α : Type*} {l : List α} {f : α → KuplRange} :
    (l.flatMap fun a => (f a).iterates).Perm r.iterates ↔
      ∀ x, l.countP (fun a => decide ((f a).Mem x)) = if r.Mem x then 1 else 0 := by
  rw [List.perm_iff_count]
  refine forall_congr' fun x => ?_
  rw [count_iterates_flatMap, KuplRange.count_iterates]

lemma KuplRange.before_clamp {bound : Int} :
    r.Before x (r.clamp r.step bound) ↔ r.Before x r.upper ∧ r.Before x bound := by
  unfold KuplRange.Before KuplRange.clamp
  split <;> omega

lemma KuplRange.size_cut (ne : r.step ≠ 0) : (r.cut a b).size = min r.size b - a := by
  have number : ∀ k, k < (r.cut a b).size ↔ k < min r.size b - a := by
    intro k
    have ne' : (r.cut a b).step ≠ 0 := ne
    have place : (r.cut a b).lower + k * (r.cut a b).step = r.lower + (a + k : Nat) * r.step := by
      simp only [KuplRange.cut]
      push_cast
      ring
    have before : (r.cut a b).Before (r.lower + (a + k : Nat) * r.step) (r.cut a b).upper ↔
        r.Before (r.lower + (a + k : Nat) * r.step) (r.clamp r.step (r.lower + b * r.step)) := Iff.rfl
    have index : r.Before (r.lower + (a + k : Nat) * r.step) (r.lower + b * r.step) ↔ a + k < b := by
      rw [KuplRange.before_iff ne]
      omega
    rw [KuplRange.lt_size ne', place, before, KuplRange.before_clamp, index, ← r.lt_size ne]
    omega
  exact Nat.le_antisymm (le_of_not_gt fun h => absurd ((number _).1 h) (lt_irrefl _))
    (le_of_not_gt fun h => absurd ((number _).2 h) (lt_irrefl _))

lemma KuplRange.iterates_cut (ne : r.step ≠ 0) : (r.cut a b).iterates =
    (List.range' a (min r.size b - a)).map fun k : Nat => r.lower + k * r.step := by
  unfold KuplRange.iterates
  rw [KuplRange.size_cut ne, List.range'_eq_map_range, List.map_map]
  refine List.map_congr_left fun k _ => ?_
  simp only [KuplRange.cut, Function.comp_apply]
  push_cast
  linarith

lemma calcChunk_size (one : r.blocksize = 1) (dir : r.Before r.lower r.upper) : (calcChunk r).chunks = r.size := by
  unfold calcChunk KuplRange.size divup
  simp only [one, mul_one]
  rcases dir with ⟨pos, lt⟩ | ⟨neg, lt⟩
  · rw [if_pos pos, if_pos pos, Int.tdiv_eq_ediv_of_nonneg (by omega), Int.toNat_of_nonneg]
    exact Int.ediv_nonneg (by omega) pos.le
  · have : ¬r.step > 0 := by omega
    rw [if_neg this, if_neg this, Int.tdiv_eq_ediv_of_nonneg (by omega), Int.toNat_of_nonneg]
    · rfl
    · exact Int.ediv_nonneg (by omega) (by omega)

end Kupl.Range
