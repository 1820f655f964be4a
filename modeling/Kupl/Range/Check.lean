import Mathlib.Tactic.Linarith
import Mathlib.Tactic.Ring

/-!
# Ranges and their check

The loop ranges of `kupl.h` (`kupl_range_t`, `kupl_nd_range_t`), the macros of
`utils/sys/kupl_math.h`, and `kupl_check_range` of `mt/kupl_check.cpp`, the gate every range passes
before a loop is divided. The `int64_t` fields are `Int`: a signed overflow is undefined in the
source, so the model says nothing beyond the mathematical value. `/` on `int64_t` truncates
(`Int.tdiv`).

An iterate of a dimension is `lower + k * step` before `upper` in the direction of `step`
(`KuplRange.Mem`); a point of a range picks one iterate in each of its dimensions (`NdRange.Mem`).
-/

namespace Kupl.Range

/-- `INT64_MAX` -/
def int64Max : Int := 2 ^ 63 - 1

/-- `INT64_MIN` -/
def int64Min : Int := -2 ^ 63

/-- `KUPL_MAX_CHUNK` -/
def maxChunk : Int := int64Max - 1

/-- `KUPL_MAX_DIM_SIZE` -/
def maxDimSize : Int := 3

/-- `kupl_divup` -/
def divup (a b : Int) : Int := (a + b - 1).tdiv b

/-- `kupl_loop_policy_type_t` -/
inductive LoopPolicy where
  | static
  | dynamic
  | task
  deriving DecidableEq, Repr

/-- One dimension of a range (C++ `kupl_range_t`). -/
structure KuplRange where
  lower : Int
  upper : Int
  step : Int
  blocksize : Int
  deriving DecidableEq, Repr

/-- A range (C++ `kupl_nd_range_t`); the entries from `dim` on are never read. -/
structure NdRange where
  dim : Int
  ndRange : Nat → KuplRange

def NdRange.set (range : NdRange) (d : Nat) (r : KuplRange) : NdRange :=
  { range with ndRange := Function.update range.ndRange d r }

@[simp] lemma NdRange.set_same (range : NdRange) (d r) : (range.set d r).ndRange d = r := by
  simp [NdRange.set]

lemma NdRange.set_other {range : NdRange} {d e r} (h : e ≠ d) : (range.set d r).ndRange e = range.ndRange e := by
  simp [NdRange.set, h]

def realBlocksize (blocksize : Int) : Int := if blocksize = 0 then 1 else blocksize

/-- The blocksize and the chunksize of a dimension under a policy (C++ the `switch` of
`kupl_check_range`). -/
def checkBlock (policy : LoopPolicy) (r : KuplRange) : Option (KuplRange × Int) :=
  match policy with
  | .static => some ({ r with blocksize := 1 }, r.step)
  | .dynamic | .task =>
    let blocksize := realBlocksize r.blocksize
    if (r.step > 0 ∧ maxChunk.tdiv blocksize < r.step) ∨
      (r.step < 0 ∧ maxChunk.tdiv blocksize < -r.step) then none
    else
      let chunksize := blocksize * r.step
      if (chunksize > 0 ∧ int64Max - chunksize < r.upper) ∨
        (chunksize < 0 ∧ int64Min - chunksize > r.upper) then none
      else some ({ r with blocksize := blocksize }, chunksize)

/-- The checks of one dimension (C++ the loop body of `kupl_check_range`). -/
def checkDim (policy : LoopPolicy) (r : KuplRange) : Option (KuplRange × Int) :=
  if (r.upper ≤ r.lower ∧ r.step > 0) ∨ (r.upper ≥ r.lower ∧ r.step < 0) ∨ r.step = 0 then none
  else
    match checkBlock policy r with
    | none => none
    | some (r, chunksize) =>
      if r.step > 0 ∧ ((r.upper ≥ 0 ∧ r.lower < 0 ∧ r.upper > int64Max + r.lower) ∨
          r.upper - r.lower - 1 > int64Max - r.step * r.blocksize) then none
      else if r.step < 0 ∧ ((r.lower ≥ 0 ∧ r.upper < 0 ∧ r.lower > int64Max + r.upper) ∨
          r.lower - r.upper > int64Max - (-r.step * r.blocksize - 1)) then none
      else some (r, chunksize)

/-- One round of the loop of `kupl_check_range`: the range, and the chunks that remain. -/
def checkRound (policy : LoopPolicy) (s : NdRange × Int) (i : Nat) : Option (NdRange × Int) :=
  match checkDim policy (s.1.ndRange i) with
  | none => none
  | some (r, chunksize) =>
    some (s.1.set i r, s.2.tdiv (divup (r.upper - r.lower) chunksize))

/-- `none` where the range is rejected, else the range with its blocksizes settled (C++
`kupl_check_range`). -/
def checkRange (range : NdRange) (policy : LoopPolicy) : Option NdRange :=
  if range.dim < 1 ∨ range.dim > maxDimSize then none
  else
    match (List.range range.dim.toNat).foldlM (checkRound policy) (range, maxChunk) with
    | none => none
    | some (range, remainChunks) => if remainChunks = 0 then none else some range

/-- `a` comes before `b` in the direction of the step. -/
def KuplRange.Before (r : KuplRange) (a b : Int) : Prop :=
  (0 < r.step ∧ a < b) ∨ (r.step < 0 ∧ b < a)

instance (r : KuplRange) (a b : Int) : Decidable (r.Before a b) :=
  inferInstanceAs (Decidable (_ ∨ _))

lemma KuplRange.before_iff {r : KuplRange} (ne : r.step ≠ 0) (p a b : Int) :
    r.Before (p + a * r.step) (p + b * r.step) ↔ a < b := by
  unfold KuplRange.Before
  rcases lt_or_gt_of_ne ne with neg | pos
  · simp only [neg, not_lt_of_gt neg, false_and, true_and, false_or, add_lt_add_iff_left]
    exact Int.mul_lt_mul_right_of_neg neg
  · simp only [pos, not_lt_of_gt pos, false_and, true_and, or_false, add_lt_add_iff_left]
    exact Int.mul_lt_mul_right pos

/-- The iterates of a dimension. -/
def KuplRange.Mem (r : KuplRange) (x : Int) : Prop :=
  ∃ k : Nat, x = r.lower + k * r.step ∧ r.Before x r.upper

lemma KuplRange.mem_iff {r : KuplRange} {x : Int} :
    r.Mem x ↔ r.Before x r.upper ∧ r.step ∣ x - r.lower ∧ 0 ≤ (x - r.lower) / r.step := by
  constructor
  · rintro ⟨k, rfl, before⟩
    have ne : r.step ≠ 0 := by
      rcases before with ⟨pos, -⟩ | ⟨neg, -⟩ <;> omega
    rw [add_sub_cancel_left, Int.mul_ediv_cancel _ ne]
    exact ⟨before, Dvd.intro_left _ rfl, Int.natCast_nonneg k⟩
  · rintro ⟨before, dvd, nonneg⟩
    refine ⟨((x - r.lower) / r.step).toNat, ?_, before⟩
    rw [Int.toNat_of_nonneg nonneg, Int.ediv_mul_cancel dvd]
    ring

instance (r : KuplRange) (x : Int) : Decidable (r.Mem x) := decidable_of_iff _ r.mem_iff.symm

def NdRange.Mem (range : NdRange) (x : Nat → Int) : Prop :=
  ∀ d : Nat, d < range.dim → (range.ndRange d).Mem (x d)

/-- Whether a point is in a range is checked dimension by dimension. -/
instance (range : NdRange) (x : Nat → Int) : Decidable (range.Mem x) :=
  decidable_of_iff (∀ d < range.dim.toNat, (range.ndRange d).Mem (x d))
    (forall_congr' fun _ => imp_congr_left Int.lt_toNat)

def NdRange.points (range : NdRange) : Set (Nat → Int) := { x | range.Mem x }

lemma checkBlock_bounds {policy r r' c} (h : checkBlock policy r = some (r', c)) :
    r'.lower = r.lower ∧ r'.upper = r.upper ∧ r'.step = r.step := by
  cases policy with
  | static => cases h; exact ⟨rfl, rfl, rfl⟩
  | dynamic | task =>
    simp only [checkBlock] at h
    split at h
    · cases h
    · split at h
      · cases h
      · cases h; exact ⟨rfl, rfl, rfl⟩

lemma checkDim_bounds {policy r r' c} (h : checkDim policy r = some (r', c)) :
    r'.lower = r.lower ∧ r'.upper = r.upper ∧ r'.step = r.step := by
  unfold checkDim at h
  split at h
  · cases h
  · split at h
    · cases h
    · rename_i blk
      split at h
      · cases h
      · split at h
        · cases h
        · cases h
          exact checkBlock_bounds blk

lemma checkDim_before {policy r r' c} (h : checkDim policy r = some (r', c)) : r'.Before r'.lower r'.upper := by
  unfold checkDim at h
  split at h
  · cases h
  · split at h
    · cases h
    · rename_i r1 c1 blk
      obtain ⟨el, eu, es⟩ := checkBlock_bounds blk
      split at h
      · cases h
      · split at h
        · cases h
        · cases h
          simp only [KuplRange.Before, el, eu, es]
          omega

lemma checkDim_static {r r' c} (h : checkDim .static r = some (r', c)) : r'.blocksize = 1 := by
  unfold checkDim at h
  split at h
  · cases h
  · simp only [checkBlock] at h
    split at h
    · cases h
    · split at h
      · cases h
      · cases h; rfl

lemma checkDim_blocksize {r r' c} {policy : LoopPolicy} (h : checkDim policy r = some (r', c)) :
    1 ≤ r'.blocksize := by
  cases policy with
  | static => exact (checkDim_static h).ge
  | dynamic | task =>
    unfold checkDim at h
    split at h
    · cases h
    · simp only [checkBlock] at h
      split at h
      · cases h
      · rename_i blk
        split at blk
        · cases blk
        · have pos : 1 ≤ realBlocksize r.blocksize := by
            by_contra neg
            have ne : realBlocksize r.blocksize ≠ 0 := by
              unfold realBlocksize
              split <;> omega
            have : maxChunk.tdiv (realBlocksize r.blocksize) ≤ 0 :=
              Int.tdiv_nonpos_of_nonneg_of_nonpos (by decide) (by omega)
            omega
          split at blk
          · cases blk
          · cases blk
            split at h
            · cases h
            · split at h
              · cases h
              · cases h
                exact pos

lemma checkRounds_frame {policy range m s} (n : Nat) (h : (List.range n).foldlM (checkRound policy) (range, m) = some s)
    {d : Nat} (hd : n ≤ d) : s.1.ndRange d = range.ndRange d := by
  induction n generalizing s with
  | zero => cases h; rfl
  | succ n ih =>
    rw [List.range_succ, List.foldlM_append] at h
    obtain ⟨s1, h1, h2⟩ := Option.bind_eq_some_iff.mp h
    simp only [List.foldlM_cons, List.foldlM_nil, checkRound] at h2
    split at h2
    · cases h2
    · cases h2
      rw [NdRange.set_other (by omega)]
      exact ih h1 (by omega)

lemma checkRounds_spec {policy range m s} (n : Nat)
    (h : (List.range n).foldlM (checkRound policy) (range, m) = some s) :
    s.1.dim = range.dim ∧ ∀ d, d < n → ∃ c, checkDim policy (range.ndRange d) = some (s.1.ndRange d, c) := by
  induction n generalizing s with
  | zero => cases h; exact ⟨rfl, nofun⟩
  | succ n ih =>
    rw [List.range_succ, List.foldlM_append] at h
    obtain ⟨s1, h1, h2⟩ := Option.bind_eq_some_iff.mp h
    obtain ⟨edim, es⟩ := ih h1
    simp only [List.foldlM_cons, List.foldlM_nil, checkRound] at h2
    split at h2
    · cases h2
    · rename_i r c hd
      cases h2
      rw [checkRounds_frame n h1 (le_refl n)] at hd
      refine ⟨edim, fun d hlt => ?_⟩
      cases Nat.lt_succ_iff_lt_or_eq.1 hlt with
      | inl lt => rw [NdRange.set_other (by omega)]; exact es d lt
      | inr e => subst e; exact ⟨c, by rw [NdRange.set_same]; exact hd⟩

lemma checkRange_spec {range policy r} (h : checkRange range policy = some r) :
    1 ≤ r.dim ∧ r.dim ≤ maxDimSize ∧ r.dim = range.dim ∧
      ∀ d : Nat, d < r.dim → ∃ c, checkDim policy (range.ndRange d) = some (r.ndRange d, c) := by
  unfold checkRange at h
  split at h
  · cases h
  · split at h
    · cases h
    · rename_i r1 m hm
      split at h
      · cases h
      · cases h
        obtain ⟨edim, hd⟩ := checkRounds_spec _ hm
        simp only at edim hd
        exact ⟨by omega, by omega, edim, fun d hlt => hd d (by omega)⟩

lemma checkRange_before {range policy r} (h : checkRange range policy = some r) {d : Nat}
    (hd : d < r.dim) : (r.ndRange d).Before (r.ndRange d).lower (r.ndRange d).upper := by
  obtain ⟨_, _, _, all⟩ := checkRange_spec h
  obtain ⟨c, hc⟩ := all d hd
  exact checkDim_before hc

end Kupl.Range
