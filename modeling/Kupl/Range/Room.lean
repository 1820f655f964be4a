import Kupl.Range.Int64

/-!
# Room in `int64_t`

Where the computations of `Kupl.Range.Int64` stay in `int64_t` on a range that the check accepts. The
check bounds the length of a dimension and its chunk together by `INT64_MAX + 1`; `kupl_divup` adds the
two before it takes away the `1`, so a dimension that uses up the bound overflows (`KuplRange.Roomy`).
Under `KUPL_LOOP_POLICY_STATIC` the check does not look at what lies behind `upper`, and the block of
the last thread is computed up to the end of its last chunk.
-/

namespace Kupl.Range
open Word

/-- The fields are `int64_t`. -/
structure KuplRange.Typed (r : KuplRange) : Prop where
  lower : Fits 64 r.lower
  upper : Fits 64 r.upper
  step : Fits 64 r.step
  blocksize : Fits 64 r.blocksize

/-- The length of a dimension and its chunk fit in `int64_t` together. -/
def KuplRange.Roomy (r : KuplRange) : Prop :=
  |r.upper - r.lower| + |r.step * r.blocksize| ≤ int64Max

instance (r : KuplRange) : Decidable r.Roomy := inferInstanceAs (Decidable (_ ≤ _))

/-- What the check establishes of a dimension, with its chunk. -/
structure DimOk (policy : LoopPolicy) (r : KuplRange) (c : Int) : Prop where
  chunksize : c = r.step * r.blocksize
  blocksize : 1 ≤ r.blocksize
  before : r.Before r.lower r.upper
  wide : |r.upper - r.lower| + |c| ≤ int64Max + 1
  far : policy ≠ .static → (0 < c → r.upper + c ≤ int64Max) ∧ (c < 0 → int64Min ≤ r.upper + c)
  single : policy = .static → r.blocksize = 1

lemma checkBlock_far {policy r r' c} (h : checkBlock policy r = some (r', c)) :
    c = r'.step * r'.blocksize ∧ (policy ≠ .static →
      (0 < c → r'.upper + c ≤ int64Max) ∧ (c < 0 → int64Min ≤ r'.upper + c)) := by
  cases policy with
  | static =>
    cases h
    exact ⟨by simp, fun ne => absurd rfl ne⟩
  | dynamic | task =>
    simp only [checkBlock] at h
    split at h
    · cases h
    · split at h
      · cases h
      · rename_i far
        cases h
        simp only at far ⊢
        exact ⟨mul_comm _ _, fun _ => ⟨fun pos => by omega, fun neg => by omega⟩⟩

lemma checkDim_ok {policy r r' c} (h : checkDim policy r = some (r', c)) : DimOk policy r' c := by
  have before := checkDim_before h
  have blocksize := checkDim_blocksize h
  have single : policy = .static → r'.blocksize = 1 := by
    intro eq
    subst eq
    exact checkDim_static h
  unfold checkDim at h
  split at h
  · cases h
  · split at h
    · cases h
    · rename_i blk
      obtain ⟨chunksize, far⟩ := checkBlock_far blk
      split at h
      · cases h
      · rename_i up
        split at h
        · cases h
        · rename_i down
          cases h
          refine ⟨chunksize, blocksize, before, ?_, far, single⟩
          rcases before with ⟨pos, lt⟩ | ⟨neg, lt⟩
          · have cpos : 0 < r'.step * r'.blocksize := mul_pos pos (by omega)
            rw [chunksize, abs_of_pos cpos, abs_of_pos (by omega)]
            omega
          · have cneg : r'.step * r'.blocksize < 0 := mul_neg_of_neg_of_pos neg (by omega)
            rw [chunksize, abs_of_neg cneg, abs_of_neg (by omega)]
            have : -r'.step * r'.blocksize = -(r'.step * r'.blocksize) := by ring
            rw [this] at down
            omega

lemma int64Max_eq : int64Max = 9223372036854775807 := rfl

lemma int64Min_eq : int64Min = -9223372036854775808 := rfl

lemma maxChunk_eq : maxChunk = 9223372036854775806 := rfl

section Dimension
variable {policy : LoopPolicy} {r r' : KuplRange} {c : Int}

section
variable (ok : DimOk policy r c)
include ok

lemma DimOk.dir : (0 < r.step ∧ r.step ≤ c ∧ r.lower < r.upper ∧ r.upper - r.lower + c ≤ int64Max + 1) ∨
      (r.step < 0 ∧ c ≤ r.step ∧ r.upper < r.lower ∧ r.lower - r.upper - c ≤ int64Max + 1) := by
  have wide := ok.wide
  have hb := ok.blocksize
  rcases ok.before with ⟨pos, lt⟩ | ⟨neg, lt⟩
  · have step : r.step ≤ c := by
      rw [ok.chunksize]
      exact le_mul_of_one_le_right pos.le hb
    rw [abs_of_pos (by omega), abs_of_pos (by omega)] at wide
    exact .inl ⟨pos, step, lt, wide⟩
  · have step : c ≤ r.step := by
      rw [ok.chunksize]
      exact mul_le_of_one_le_right neg.le hb
    rw [abs_of_neg (by omega), abs_of_neg (by omega)] at wide
    exact .inr ⟨neg, step, lt, by omega⟩

omit ok in
lemma tooLong64_ok {step b : Int} (hb : 1 ≤ b) (hs : Fits 64 (-step))
    (h : ¬((step > 0 ∧ maxChunk.tdiv b < step) ∨ (step < 0 ∧ maxChunk.tdiv b < -step))) :
    tooLong64 step b = some false := by
  have q : div 64 maxChunk b = some (maxChunk.tdiv b) :=
    div_eq (by omega) (Fits.tdiv (by decide) (by decide) (by omega))
  unfold tooLong64
  split
  · rename_i pos
    simp [q]
    omega
  · split
    · rename_i neg
      simp [q, neg_eq hs]
      omega
    · rfl

omit ok in
lemma tooFar64_ok {upper : Int} (hc : Fits 64 c)
    (h : ¬((c > 0 ∧ int64Max - c < upper) ∨ (c < 0 ∧ int64Min - c > upper))) :
      tooFar64 upper c = some false := by
  rw [fits64_iff] at hc
  unfold tooFar64
  split
  · have fit : Fits 64 (int64Max - c) := by
      rw [fits64_iff, int64Max_eq]
      omega
    simp [sub_eq fit]
    omega
  · split
    · have fit : Fits 64 (int64Min - c) := by
        rw [fits64_iff, int64Min_eq]
        omega
      simp [sub_eq fit]
      omega
    · rfl

lemma tooWideUp64_ok (hl : Fits 64 r.lower) : tooWideUp64 r = some false := by
  have chunk := ok.chunksize
  rw [fits64_iff] at hl
  unfold tooWideUp64
  split
  · rename_i pos
    obtain ⟨-, step, lt, wide⟩ : 0 < r.step ∧ r.step ≤ c ∧ r.lower < r.upper ∧
        r.upper - r.lower + c ≤ int64Max + 1 := by
      rcases ok.dir with up | ⟨neg, -⟩
      · exact up
      · omega
    rw [int64Max_eq] at wide
    have length : Fits 64 (r.upper - r.lower) := by rw [fits64_iff]; omega
    have last : Fits 64 (r.upper - r.lower - 1) := by rw [fits64_iff]; omega
    have chunk64 : Fits 64 (r.step * r.blocksize) := by rw [← chunk, fits64_iff]; omega
    have room : Fits 64 (int64Max - r.step * r.blocksize) := by
      rw [← chunk, fits64_iff, int64Max_eq]
      omega
    have enough : ¬r.upper - r.lower - 1 > int64Max - r.step * r.blocksize := by
      rw [← chunk, int64Max_eq]
      omega
    split
    · have sum : Fits 64 (int64Max + r.lower) := by rw [fits64_iff, int64Max_eq]; omega
      have below : ¬r.upper > int64Max + r.lower := by rw [int64Max_eq]; omega
      simp [add_eq sum, below, sub_eq length, sub_eq last, mul_eq chunk64, sub_eq room, enough]
    · simp [sub_eq length, sub_eq last, mul_eq chunk64, sub_eq room, enough]
  · rfl

lemma tooWideDown64_ok (hu : Fits 64 r.upper) : tooWideDown64 r = some false := by
  have chunk := ok.chunksize
  rw [fits64_iff] at hu
  unfold tooWideDown64
  split
  · rename_i neg
    obtain ⟨-, step, lt, wide⟩ : r.step < 0 ∧ c ≤ r.step ∧ r.upper < r.lower ∧
        r.lower - r.upper - c ≤ int64Max + 1 := by
      rcases ok.dir with ⟨pos, -⟩ | down
      · omega
      · exact down
    rw [int64Max_eq] at wide
    have flip : -r.step * r.blocksize = -c := by rw [chunk]; ring
    have length : Fits 64 (r.lower - r.upper) := by rw [fits64_iff]; omega
    have step64 : Fits 64 (-r.step) := by rw [fits64_iff]; omega
    have chunk64 : Fits 64 (-r.step * r.blocksize) := by rw [flip, fits64_iff]; omega
    have last : Fits 64 (-r.step * r.blocksize - 1) := by rw [flip, fits64_iff]; omega
    have room : Fits 64 (int64Max - (-r.step * r.blocksize - 1)) := by
      rw [flip, fits64_iff, int64Max_eq]
      omega
    have enough : ¬r.lower - r.upper > int64Max - (-r.step * r.blocksize - 1) := by
      rw [flip, int64Max_eq]
      omega
    split
    · have sum : Fits 64 (int64Max + r.upper) := by rw [fits64_iff, int64Max_eq]; omega
      have below : ¬r.lower > int64Max + r.upper := by rw [int64Max_eq]; omega
      simp [-neg_mul, add_eq sum, below, sub_eq length, neg_eq step64, mul_eq chunk64, sub_eq last, sub_eq room, enough]
    · simp [-neg_mul, sub_eq length, neg_eq step64, mul_eq chunk64, sub_eq last, sub_eq room, enough]
  · rfl

omit ok in
lemma checkDim64_eq (typed : r.Typed) (h : checkDim policy r = some (r', c)) :
    checkDim64 policy r = some (some (r', c)) := by
  have ok := checkDim_ok h
  obtain ⟨lower, upper, step⟩ := checkDim_bounds h
  have hl : Fits 64 r'.lower := lower ▸ typed.lower
  have hu : Fits 64 r'.upper := upper ▸ typed.upper
  have hup := tooWideUp64_ok ok hl
  have hdown := tooWideDown64_ok ok hu
  have hc : Fits 64 c := by
    have := ok.dir
    rw [int64Max_eq] at this
    rw [fits64_iff]
    omega
  have hs : Fits 64 (-r.step) := by
    have := ok.dir
    rw [int64Max_eq, step] at this
    rw [fits64_iff]
    omega
  unfold checkDim at h
  unfold checkDim64
  split at h
  · cases h
  · rename_i dir
    rw [if_neg dir]
    split at h
    · cases h
    · rename_i r1 c1 blk
      have same : r1 = r' ∧ c1 = c := by
        split at h
        · cases h
        · split at h
          · cases h
          · cases h
            exact ⟨rfl, rfl⟩
      obtain ⟨rfl, rfl⟩ := same
      have block : checkBlock64 policy r = some (some (r1, c1)) := by
        cases policy with
        | static =>
          cases blk
          rfl
        | dynamic | task =>
          simp only [checkBlock] at blk
          split at blk
          · cases blk
          · rename_i long
            split at blk
            · cases blk
            · rename_i far
              cases blk
              have hb := ok.blocksize
              simp only at hb
              simp [checkBlock64, tooLong64_ok hb hs long, mul_eq hc, tooFar64_ok hc far]
      simp [block, hup, hdown]

lemma DimOk.roomy_iff : r.Roomy ↔ (0 < r.step ∧ r.upper - r.lower + c ≤ int64Max) ∨
      (r.step < 0 ∧ r.lower - r.upper - c ≤ int64Max) := by
  rw [KuplRange.Roomy, ← ok.chunksize]
  rcases ok.dir with ⟨pos, step, lt, -⟩ | ⟨neg, step, lt, -⟩
  · rw [abs_of_pos (by omega), abs_of_pos (by omega)]
    omega
  · rw [abs_of_neg (by omega), abs_of_neg (by omega)]
    omega

lemma divup64_eq (fit : Fits 64 (divup (r.upper - r.lower) c)) : divup64 (r.upper - r.lower) c =
      if r.Roomy then some (divup (r.upper - r.lower) c) else none := by
  have dir := ok.dir
  have roomy := ok.roomy_iff
  rw [int64Max_eq] at dir roomy
  split
  · rename_i hr
    rw [roomy] at hr
    have sum : Fits 64 (r.upper - r.lower + c) := by rw [fits64_iff]; omega
    have last : Fits 64 (r.upper - r.lower + c - 1) := by rw [fits64_iff]; omega
    have ne : c ≠ 0 := by omega
    simp only [divup64, add_eq sum, sub_eq last, Option.bind_eq_bind, Option.bind_some]
    exact div_eq ne fit
  · rename_i hr
    rw [roomy] at hr
    rcases dir with ⟨pos, step, lt, -⟩ | ⟨neg, step, lt, wide⟩
    · have sum : ¬Fits 64 (r.upper - r.lower + c) := by rw [fits64_iff]; omega
      simp [divup64, add_none sum]
    · have sum : Fits 64 (r.upper - r.lower + c) := by rw [fits64_iff]; omega
      have last : ¬Fits 64 (r.upper - r.lower + c - 1) := by rw [fits64_iff]; omega
      simp [divup64, add_eq sum, sub_none last]

lemma DimOk.chunks_le : 1 ≤ (calcChunk r).chunks ∧ (calcChunk r).chunks ≤ divup (r.upper - r.lower) c := by
  have pos : 0 < (calcChunk r).chunks := by
    have first := (lt_chunks (i := 0) ok.blocksize ok.before).2 (by
      rw [Nat.zero_mul, KuplRange.lt_size ok.before.step_ne]
      simpa using ok.before)
    exact_mod_cast first
  refine ⟨pos, ?_⟩
  have chunk : (calcChunk r).chunks = if c > 0 then divup (r.upper - r.lower) c
      else divup (r.lower - r.upper) (-c) := by
    rw [ok.chunksize]
    rfl
  rw [chunk]
  split
  · exact le_rfl
  · rename_i neg
    obtain ⟨down, cneg, lt, -⟩ : r.step < 0 ∧ c ≤ r.step ∧ r.upper < r.lower ∧
        r.lower - r.upper - c ≤ int64Max + 1 := by
      rcases ok.dir with ⟨spos, le, -⟩ | down
      · omega
      · exact down
    have flip : divup (r.upper - r.lower) c = (r.lower - r.upper - c + 1).tdiv (-c) := by
      rw [divup, ← Int.neg_tdiv_neg]
      congr 1
      ring
    rw [flip, divup, Int.tdiv_eq_ediv_of_nonneg (by omega), Int.tdiv_eq_ediv_of_nonneg (by omega)]
    exact Int.ediv_le_ediv (by omega) (by omega)

end

end Dimension

/-- The number of chunks in the first `n` dimensions. -/
def prefixChunks (range : NdRange) (n : Nat) : Int :=
  (List.range n).foldl (fun t d => t * (calcChunk (range.ndRange d)).chunks) 1

lemma prefixChunks_succ {range : NdRange} {n : Nat} : prefixChunks range (n + 1) =
    prefixChunks range n * (calcChunk (range.ndRange n)).chunks := by
  simp [prefixChunks, List.range_succ]

lemma prefixChunks_congr {r r' : NdRange} {n : Nat} (h : ∀ d < n, r.ndRange d = r'.ndRange d) :
    prefixChunks r n = prefixChunks r' n :=
  List.foldl_ext _ _ _ fun t d hd => by rw [h d (List.mem_range.1 hd)]

lemma checkRounds64 {policy range s} (n : Nat)
    (h : (List.range n).foldlM (checkRound policy) (range, maxChunk) = some s) (ne : s.2 ≠ 0)
    (typed : ∀ d < n, (range.ndRange d).Typed) :
    1 ≤ s.2 ∧ 1 ≤ prefixChunks s.1 n ∧ s.2 * prefixChunks s.1 n ≤ maxChunk ∧
      (∀ d < n, ∃ c, DimOk policy (s.1.ndRange d) c ∧
        divup ((s.1.ndRange d).upper - (s.1.ndRange d).lower) c ≤ maxChunk) ∧
      (List.range n).foldlM (checkRound64 policy) (some (range, maxChunk)) =
        if ∀ d < n, (s.1.ndRange d).Roomy then some (some s) else none := by
  induction n generalizing s with
  | zero =>
    cases h
    simp [prefixChunks, maxChunk_eq]
  | succ n ih =>
    rw [List.range_succ, List.foldlM_append] at h
    obtain ⟨s1, h1, h2⟩ := Option.bind_eq_some_iff.mp h
    simp only [List.foldlM_cons, List.foldlM_nil, checkRound] at h2
    split at h2
    · cases h2
    · rename_i r c hd
      cases h2
      have same : s1.1.ndRange n = range.ndRange n := checkRounds_frame n h1 (le_refl n)
      have ok := checkDim_ok hd
      obtain ⟨low, le⟩ := ok.chunks_le
      obtain ⟨q, hq⟩ : ∃ q, q = divup (r.upper - r.lower) c := ⟨_, rfl⟩
      rw [← hq] at ne le ⊢
      have ne1 : s1.2 ≠ 0 := by
        intro zero
        rw [zero, Int.zero_tdiv] at ne
        exact ne rfl
      obtain ⟨pos, one, bound, counts, run⟩ := ih h1 ne1 fun d hd => typed d (by omega)
      have start : s1.2 ≤ maxChunk := (le_mul_of_one_le_right (by omega) one).trans bound
      have quot : s1.2.tdiv q = s1.2 / q := Int.tdiv_eq_ediv_of_nonneg (by omega)
      have pos' : 1 ≤ s1.2.tdiv q := by
        have := Int.tdiv_nonneg (by omega : 0 ≤ s1.2) (by omega : 0 ≤ q)
        omega
      have below : q ≤ s1.2 := by
        by_contra lt
        rw [quot, Int.ediv_eq_zero_of_lt (by omega) (by omega)] at ne
        exact ne rfl
      have cut : ∀ d < n, (s1.1.set n r).ndRange d = s1.1.ndRange d := fun d hd =>
        NdRange.set_other (by omega)
      have chunks : prefixChunks (s1.1.set n r) (n + 1) = prefixChunks s1.1 n * (calcChunk r).chunks := by
        rw [prefixChunks_succ, prefixChunks_congr cut, NdRange.set_same]
      refine ⟨pos', ?_, ?_, fun d hd => ?_, ?_⟩
      · rw [chunks]
        exact one_le_mul_of_one_le_of_one_le one low
      · rw [chunks]
        calc s1.2.tdiv q * (prefixChunks s1.1 n * (calcChunk r).chunks)
            ≤ s1.2.tdiv q * (prefixChunks s1.1 n * q) := by gcongr
          _ = q * (s1.2 / q) * prefixChunks s1.1 n := by rw [quot]; ring
          _ ≤ s1.2 * prefixChunks s1.1 n := by gcongr; exact Int.mul_ediv_self_le (by omega)
          _ ≤ maxChunk := bound
      · cases Nat.lt_succ_iff_lt_or_eq.1 hd with
        | inl lt => rw [cut d lt]; exact counts d lt
        | inr e =>
          rw [e, NdRange.set_same]
          exact ⟨c, ok, hq ▸ below.trans start⟩
      · have roomy : (∀ d < n + 1, ((s1.1.set n r).ndRange d).Roomy) ↔
          (∀ d < n, (s1.1.ndRange d).Roomy) ∧ r.Roomy := by
          constructor
          · intro all
            exact ⟨fun d hd => cut d hd ▸ all d (by omega), NdRange.set_same s1.1 n r ▸ all n (by omega)⟩
          · rintro ⟨before, last⟩ d hd
            cases Nat.lt_succ_iff_lt_or_eq.1 hd with
            | inl lt => rw [cut d lt]; exact before d lt
            | inr e => rw [e, NdRange.set_same]; exact last
        have fit : Fits 64 q := by
          rw [maxChunk_eq] at start
          rw [fits64_iff]
          omega
        have dim : checkDim64 policy (s1.1.ndRange n) = some (some (r, c)) :=
          checkDim64_eq (same ▸ typed n (by omega)) hd
        have length : sub 64 r.upper r.lower = some (r.upper - r.lower) := by
          have := ok.dir
          rw [int64Max_eq] at this
          exact sub_eq (by rw [fits64_iff]; omega)
        have chunks64 := divup64_eq ok (hq ▸ fit)
        have quot64 : div 64 s1.2 q = some (s1.2.tdiv q) :=
          div_eq (by omega) (Fits.tdiv (by
            rw [maxChunk_eq] at start
            rw [fits64_iff]
            omega) (by omega) (by omega))
        simp only [List.range_succ, List.foldlM_append, run, roomy]
        by_cases before : ∀ d < n, (s1.1.ndRange d).Roomy
        · by_cases last : r.Roomy
          · rw [if_pos last] at chunks64
            rw [if_pos before, if_pos ⟨before, last⟩]
            simp [checkRound64, dim, length, chunks64, ← hq, quot64]
          · rw [if_neg last] at chunks64
            rw [if_pos before, if_neg (fun all => last all.2)]
            simp [checkRound64, dim, length, chunks64]
        · rw [if_neg before, if_neg (fun all => before all.1)]
          rfl

lemma checkRange64_eq {range policy r} (h : checkRange range policy = some r)
    (typed : ∀ d < range.dim.toNat, (range.ndRange d).Typed) :
    (calcChunkInfo r).totalChunks ≤ maxChunk ∧ (∀ d < r.dim.toNat, ∃ c, DimOk policy (r.ndRange d) c ∧
        divup ((r.ndRange d).upper - (r.ndRange d).lower) c ≤ maxChunk) ∧
      checkRange64 range policy =
        if ∀ d < r.dim.toNat, (r.ndRange d).Roomy then some (some r) else none := by
  obtain ⟨-, -, edim, -⟩ := checkRange_spec h
  unfold checkRange at h
  split at h
  · cases h
  · rename_i dims
    split at h
    · cases h
    · rename_i r1 m rounds
      split at h
      · cases h
      · rename_i ne
        cases h
        obtain ⟨pos, one, bound, counts, run⟩ := checkRounds64 _ rounds ne typed
        simp only at pos one bound counts run
        have total : (calcChunkInfo r).totalChunks = prefixChunks r range.dim.toNat := by
          rw [← edim]
          rfl
        refine ⟨?_, edim ▸ counts, ?_⟩
        · rw [total]
          exact (le_mul_of_one_le_left (by omega) pos).trans bound
        · rw [edim]
          unfold checkRange64
          rw [if_neg dims, run]
          split
          · simp [ne]
          · rfl

end Kupl.Range
