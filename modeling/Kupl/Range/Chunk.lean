import Kupl.Range.Divide

/-!
# Chunks of a range

The chunk of a task of a loop under `KUPL_LOOP_POLICY_TASK`, as `task_policy_loop_func` of
`mt/kupl_parallel_for.cpp` computes it from the number of the task.

The upper bound of a chunk is the minimum of two bounds whatever the direction of the range, so the
chunks of a range that runs down overlap (`KuplRange.ChunksFit`).
-/

namespace Kupl.Range
open Kupl.Cut

/-- The chunk of one task (C++ the bounds in `task_policy_loop_func`). -/
def taskChunk (range : KuplRange) (chunksize taskId : Int) : KuplRange where
  lower := range.lower + taskId * chunksize
  upper := min range.upper (range.lower + (taskId + 1) * chunksize)
  step := range.step
  blocksize := range.blocksize

/-- The range runs up, or it has one chunk and that chunk is full. -/
def KuplRange.ChunksFit (r : KuplRange) : Prop :=
  0 < r.step ∨ ((calcChunk r).chunks = 1 ∧ r.Before (r.lower + (r.blocksize - 1) * r.step) r.upper)

instance (r : KuplRange) : Decidable r.ChunksFit := inferInstanceAs (Decidable (_ ∨ _))

variable {r : KuplRange} {x t c : Int}

lemma divup_eq {a b : Int} (ha : 0 ≤ a) (hb : 0 < b) : divup a b = (a + b - 1) / b := by
  unfold divup
  rw [Int.tdiv_eq_ediv_of_nonneg (by omega)]

lemma calcChunk_nonneg (hb : 1 ≤ r.blocksize) (dir : r.Before r.lower r.upper) : 0 ≤ (calcChunk r).chunks := by
  unfold calcChunk
  simp only
  split
  · rename_i pos
    have up : r.lower < r.upper := by
      rcases dir with ⟨-, lt⟩ | ⟨neg, -⟩
      · exact lt
      · exact absurd pos (not_lt.2 (mul_nonpos_of_nonpos_of_nonneg neg.le (by omega)))
    rw [divup_eq (by omega) pos]
    exact Int.ediv_nonneg (by omega) pos.le
  · rename_i npos
    obtain ⟨neg, down⟩ : r.step < 0 ∧ r.upper < r.lower := by
      rcases dir with ⟨pos, -⟩ | down
      · exact absurd (mul_pos pos (by omega)) npos
      · exact down
    have : r.step * r.blocksize < 0 := mul_neg_of_neg_of_pos neg (by omega)
    rw [divup_eq (by omega) (by omega)]
    exact Int.ediv_nonneg (by omega) (by omega)

lemma taskChunk_bounds (hs : 0 < r.step) (h : (taskChunk r c t).Mem x) :
    t * c ≤ x - r.lower ∧ x - r.lower < (t + 1) * c := by
  obtain ⟨j, rfl, before⟩ := h
  simp only [taskChunk, KuplRange.Before] at before ⊢
  have : 0 ≤ (j : Int) * r.step := by positivity
  constructor
  · linarith
  · rcases before with ⟨-, lt⟩ | ⟨neg, -⟩
    · have := lt.trans_le (min_le_right _ _)
      linarith
    · omega

lemma taskChunk_cover_up (hb : 1 ≤ r.blocksize) (hs : 0 < r.step) :
    (r.Mem x → ∃! t : Nat, (t : Int) < (calcChunk r).chunks ∧ (taskChunk r (r.step * r.blocksize) t).Mem x) ∧
    ∀ t : Nat, (taskChunk r (r.step * r.blocksize) t).Mem x → r.Mem x := by
  obtain ⟨b, hbn⟩ := Int.eq_ofNat_of_zero_le (by omega : 0 ≤ r.blocksize)
  have pos : 0 < r.step * r.blocksize := by positivity
  constructor
  · rintro ⟨k, hx, before⟩
    have lt : x < r.upper := by
      rcases before with ⟨-, lt⟩ | ⟨neg, -⟩
      · exact lt
      · omega
    have bpos : 0 < b := by omega
    have split : (k : Int) = (k / b : Nat) * r.blocksize + (k % b : Nat) := by
      rw [hbn]
      exact_mod_cast (Nat.div_add_mod' k b).symm
    have mem : (taskChunk r (r.step * r.blocksize) (k / b : Nat)).Mem x := by
      refine ⟨k % b, ?_, .inl ⟨hs, lt_min lt ?_⟩⟩
      · simp only [taskChunk]
        rw [hx, split]
        ring
      · have : ((k % b : Nat) : Int) * r.step < r.blocksize * r.step := by
          refine mul_lt_mul_of_pos_right ?_ hs
          rw [hbn]
          exact_mod_cast Nat.mod_lt k bpos
        rw [hx, split]
        linarith
    refine ⟨k / b, ⟨?_, mem⟩, fun t' ht' => ?_⟩
    · have le := (taskChunk_bounds hs mem).1
      have chunks : (calcChunk r).chunks = (r.upper - r.lower + r.step * r.blocksize - 1) / (r.step * r.blocksize) := by
        simp only [calcChunk, gt_iff_lt, pos, if_true]
        refine divup_eq ?_ pos
        have : 0 ≤ (k : Int) * r.step := by positivity
        omega
      rw [chunks]
      refine Int.lt_of_add_one_le (Int.le_ediv_of_mul_le pos ?_)
      linarith
    · obtain ⟨l1, u1⟩ := taskChunk_bounds hs mem
      obtain ⟨l2, u2⟩ := taskChunk_bounds hs ht'.2
      have h1 := lt_of_mul_lt_mul_right (l1.trans_lt u2) pos.le
      have h2 := lt_of_mul_lt_mul_right (l2.trans_lt u1) pos.le
      omega
  · rintro t ⟨j, hx, before⟩
    refine ⟨t * b + j, ?_, ?_⟩
    · simp only [taskChunk] at hx
      rw [hx, hbn]
      push_cast
      ring
    · rcases before with ⟨-, lt⟩ | ⟨neg, -⟩
      · exact .inl ⟨hs, lt.trans_le (min_le_left _ _)⟩
      · simp only [taskChunk] at neg
        omega

lemma taskChunk_cover_down (hs : r.step < 0) (hb : 1 ≤ r.blocksize) (one : (calcChunk r).chunks = 1)
    (full : r.Before (r.lower + (r.blocksize - 1) * r.step) r.upper) :
    (taskChunk r (r.step * r.blocksize) 0).Mem x ↔ r.Mem x := by
  have neg : r.step * r.blocksize < 0 := mul_neg_of_neg_of_pos hs (by omega)
  have last : r.upper < r.lower + (r.blocksize - 1) * r.step := by
    rcases full with ⟨pos, -⟩ | ⟨-, lt⟩
    · omega
    · exact lt
  have beyond : r.lower + r.step * r.blocksize ≤ r.upper := by
    have not : ¬r.step * r.blocksize > 0 := by omega
    simp only [calcChunk, not, if_false] at one
    rw [divup_eq ?_ (by omega)] at one
    · have := Int.lt_ediv_add_one_mul_self (r.lower - r.upper + -(r.step * r.blocksize) - 1)
        (by omega : 0 < -(r.step * r.blocksize))
      rw [one] at this
      linarith
    · have : (r.blocksize - 1) * r.step ≤ 0 := mul_nonpos_of_nonneg_of_nonpos (by omega) hs.le
      omega
  have upper : min r.upper (r.lower + (0 + 1) * (r.step * r.blocksize)) = r.lower + r.step * r.blocksize := by
    rw [zero_add, one_mul]
    exact min_eq_right beyond
  constructor
  · rintro ⟨k, hx, before⟩
    simp only [taskChunk, upper, zero_mul, add_zero] at hx before
    refine ⟨k, hx, .inr ⟨hs, ?_⟩⟩
    rcases before with ⟨pos, -⟩ | ⟨-, lt⟩
    · exact absurd pos (by simpa using hs.le)
    · have h : r.step * r.blocksize < r.step * k := by linarith
      have kb : (k : Int) < r.blocksize := (mul_lt_mul_left_of_neg hs).1 h
      have : (r.blocksize - 1) * r.step ≤ k * r.step :=
        mul_le_mul_of_nonpos_right (by omega) hs.le
      linarith
  · rintro ⟨k, hx, before⟩
    refine ⟨k, by simpa [taskChunk] using hx, .inr ⟨hs, ?_⟩⟩
    simp only [taskChunk, upper]
    rcases before with ⟨pos, -⟩ | ⟨-, lt⟩
    · omega
    · linarith

lemma taskChunk_cover (hb : 1 ≤ r.blocksize) (dir : r.Before r.lower r.upper) (fit : r.ChunksFit) :
    (r.Mem x → ∃! t : Nat, (t : Int) < (calcChunk r).chunks ∧ (taskChunk r (r.step * r.blocksize) t).Mem x) ∧
    ∀ t : Nat, (t : Int) < (calcChunk r).chunks → (taskChunk r (r.step * r.blocksize) t).Mem x → r.Mem x := by
  by_cases hs : 0 < r.step
  · obtain ⟨h1, h2⟩ := taskChunk_cover_up (x := x) hb hs
    exact ⟨h1, fun t _ => h2 t⟩
  · have down : r.step < 0 := by
      rcases dir with ⟨pos, -⟩ | ⟨neg, -⟩
      · exact absurd pos hs
      · exact neg
    obtain pos | ⟨one, full⟩ := fit
    · exact absurd pos hs
    have iff := taskChunk_cover_down (x := x) down hb one full
    refine ⟨fun mem => ⟨0, ⟨by rw [one]; decide, iff.2 mem⟩, fun t ht => ?_⟩, fun t ht mem => ?_⟩
    · omega
    · have : t = 0 := by omega
      subst this
      exact iff.1 mem

lemma taskChunk_count (hb : 1 ≤ r.blocksize) (dir : r.Before r.lower r.upper) (fit : r.ChunksFit) (x : Int) :
    (List.range (calcChunk r).chunks.toNat).countP
      (fun t : Nat => decide ((taskChunk r (r.step * r.blocksize) t).Mem x)) =
        if r.Mem x then 1 else 0 := by
  obtain ⟨h1, h2⟩ := taskChunk_cover (x := x) hb dir fit
  refine countP_range_unique (fun mem => ?_) fun t ht => h2 t (Int.lt_toNat.1 ht)
  simpa only [Int.lt_toNat] using h1 mem

end Kupl.Range
