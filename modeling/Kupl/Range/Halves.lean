import Kupl.Range.Bounds
import Kupl.Range.Partition

/-!
# Cuts in `int64_t`

`divide_range` of `mt/kupl_parallel_for.cpp` on a roomy range. A cut among three threads or more falls
between the bounds of its dimension. The last cut, between two threads, may fall behind `upper`, by
less than a chunk, where the dimension runs down: `kupl_divup` of a negative length counts a chunk too
many.
-/

namespace Kupl.Range
open Word Option

/-- A place between two bounds, whichever of them is lower. -/
def Between (a b x : Int) : Prop := (a ≤ x ∧ x ≤ b) ∨ (b ≤ x ∧ x ≤ a)

/-- A box whose bounds lie between the bounds of the range it was cut from. -/
structure Inside (whole box : NdRange) : Prop where
  dim : box.dim = whole.dim
  step : ∀ d < whole.dim.toNat, (box.ndRange d).step = (whole.ndRange d).step
  lower : ∀ d < whole.dim.toNat, Between (whole.ndRange d).lower (whole.ndRange d).upper (box.ndRange d).lower
  upper : ∀ d < whole.dim.toNat, Between (whole.ndRange d).lower (whole.ndRange d).upper (box.ndRange d).upper

section Cut
variable {policy : LoopPolicy} {r : KuplRange} {c : Int} {n : Nat}

def leftOf (r : KuplRange) (c : Int) (n : Nat) : Int :=
  (divup (r.upper - r.lower) c).tdiv n * (n / 2 : Nat)

lemma leftOf_half (ok : DimOk policy r c) : 0 ≤ leftOf r c n ∧ 2 * leftOf r c n ≤ divup (r.upper - r.lower) c ∧
      (divup (r.upper - r.lower) c < n → leftOf r c n = 0) := by
  obtain ⟨one, le⟩ := ok.chunks_le
  obtain ⟨T, hT⟩ := Int.eq_ofNat_of_zero_le (by omega : 0 ≤ divup (r.upper - r.lower) c)
  have eq : leftOf r c n = (T / n * (n / 2) : Nat) := by
    rw [leftOf, hT, ← Int.ofNat_tdiv]
    rfl
  have half : 2 * (T / n * (n / 2)) ≤ T := by
    calc 2 * (T / n * (n / 2)) = T / n * (n / 2 * 2) := by ring
      _ ≤ T / n * n := Nat.mul_le_mul_left _ (Nat.div_mul_le_self n 2)
      _ ≤ T := Nat.div_mul_le_self T n
  refine ⟨by omega, by omega, fun lt => ?_⟩
  rw [eq, Nat.div_eq_of_lt (by omega), Nat.zero_mul]
  rfl

lemma divup_count (ok : DimOk policy r c) :
    (0 < c ∧ r.lower < r.upper ∧ divup (r.upper - r.lower) c = (calcChunk r).chunks ∧
      (calcChunk r).chunks * c ≤ r.upper - r.lower + c - 1) ∨
    (c < 0 ∧ r.upper < r.lower ∧ divup (r.upper - r.lower) c ≤ (calcChunk r).chunks + 2 ∧
      divup (r.upper - r.lower) c * -c ≤ r.lower - r.upper + -c + 1) := by
  have chunk : (calcChunk r).chunks = if c > 0 then divup (r.upper - r.lower) c
      else divup (r.lower - r.upper) (-c) := by
    rw [ok.chunksize]
    rfl
  rcases ok.dir with ⟨up, le, lt, -⟩ | ⟨down, le, lt, -⟩
  · left
    rw [if_pos (by omega)] at chunk
    refine ⟨by omega, lt, chunk.symm, ?_⟩
    rw [chunk, divup, Int.tdiv_eq_ediv_of_nonneg (by omega)]
    exact Int.ediv_mul_le _ (by omega)
  · right
    rw [if_neg (by omega), divup, Int.tdiv_eq_ediv_of_nonneg (by omega)] at chunk
    have flip : divup (r.upper - r.lower) c = (r.lower - r.upper + -c + 1) / -c := by
      rw [divup, ← Int.neg_tdiv_neg, Int.tdiv_eq_ediv_of_nonneg (by omega)]
      congr 1
      ring
    refine ⟨by omega, lt, ?_, ?_⟩
    · rw [flip, chunk]
      have shift : (r.lower - r.upper + -c - 1) / -c + 2 = (r.lower - r.upper + -c - 1 + 2 * -c) / -c :=
        (Int.add_mul_ediv_right _ _ (by omega)).symm
      rw [shift]
      exact Int.ediv_le_ediv (by omega) (by omega)
    · rw [flip]
      exact Int.ediv_mul_le _ (by omega)

lemma leftOf_le (ok : DimOk policy r c) : leftOf r c n ≤ (calcChunk r).chunks := by
  have one := ok.chunks_le.1
  obtain ⟨-, half, -⟩ := leftOf_half (n := n) ok
  rcases divup_count ok with ⟨-, -, eq, -⟩ | ⟨-, -, le, -⟩ <;> omega

lemma leftOf_between (ok : DimOk policy r c) (three : 3 ≤ n) :
    Between r.lower r.upper (r.lower + leftOf r c n * c) := by
  obtain ⟨nonneg, half, zero⟩ := leftOf_half (n := n) ok
  by_cases few : divup (r.upper - r.lower) c < n
  · rw [zero few, zero_mul, add_zero]
    rcases ok.dir with ⟨-, -, lt, -⟩ | ⟨-, -, lt, -⟩
    · exact .inl ⟨le_rfl, lt.le⟩
    · exact .inr ⟨lt.le, le_rfl⟩
  · generalize leftOf r c n = L at *
    rcases divup_count ok with ⟨pos, lt, eq, len⟩ | ⟨neg, lt, -, len⟩
    · left
      rw [← eq] at len
      generalize divup (r.upper - r.lower) c = T at *
      have h1 : 2 * L * c ≤ T * c := mul_le_mul_of_nonneg_right half (by omega)
      have h2 : 2 * c ≤ T * c := mul_le_mul_of_nonneg_right (by omega) (by omega)
      have h3 : 0 ≤ L * c := mul_nonneg nonneg (by omega)
      have h4 : 2 * L * c = 2 * (L * c) := by ring
      omega
    · right
      generalize divup (r.upper - r.lower) c = T at *
      have h1 : 2 * L * -c ≤ T * -c := mul_le_mul_of_nonneg_right half (by omega)
      have h2 : 3 * -c ≤ T * -c := mul_le_mul_of_nonneg_right (by omega) (by omega)
      have h3 : 0 ≤ L * -c := mul_nonneg nonneg (by omega)
      have h4 : 2 * L * -c = 2 * (L * -c) := by ring
      have h5 : L * c = -(L * -c) := by ring
      rw [h5]
      omega

/-- A dimension of one iterate that runs down to the least value and steps one further than its length,
so that `divide_range` counts two chunks. -/
def KuplRange.Edge (r : KuplRange) : Prop :=
  r.upper = int64Min ∧ r.lower + r.step = int64Min - 1

instance (r : KuplRange) : Decidable r.Edge := inferInstanceAs (Decidable (_ ∧ _))

lemma leftOf_two (ok : DimOk policy r r.step) (hl : Fits 64 r.lower) (hu : Fits 64 r.upper) :
    Fits 64 (r.lower + leftOf r r.step 2 * r.step) ↔ ¬r.Edge := by
  obtain ⟨nonneg, half, -⟩ := leftOf_half (n := 2) ok
  unfold KuplRange.Edge
  rw [int64Min_eq]
  rw [fits64_iff] at hl hu ⊢
  rcases divup_count ok with ⟨pos, lt, -, len⟩ | ⟨neg, lt, -, len⟩
  · rw [← (divup_count ok).elim (fun up => up.2.2.1) (fun down => by omega)] at len
    generalize leftOf r r.step 2 = L at *
    have h1 : 2 * L * r.step ≤ divup (r.upper - r.lower) r.step * r.step :=
      mul_le_mul_of_nonneg_right half pos.le
    have h2 : 2 * L * r.step = 2 * (L * r.step) := by ring
    have h3 : 0 ≤ L * r.step := mul_nonneg nonneg pos.le
    have h4 : L = 0 ∨ r.step ≤ L * r.step := by
      cases nonneg.lt_or_eq with
      | inl lt => exact .inr (le_mul_of_one_le_left pos.le lt)
      | inr eq => exact .inl eq.symm
    obtain zero | more := h4
    · rw [zero, zero_mul]
      omega
    · omega
  · have edge : r.lower + r.step = -9223372036854775809 → r.upper = -9223372036854775808 →
        leftOf r r.step 2 = 1 := by
      intro h1 h2
      have two : divup (r.upper - r.lower) r.step = 2 := by
        have sum : r.upper - r.lower + r.step - 1 = r.step * 2 := by omega
        rw [divup, sum, Int.mul_tdiv_cancel_left _ (by omega)]
      rw [leftOf, two]
      rfl
    generalize divup (r.upper - r.lower) r.step = T at *
    generalize leftOf r r.step 2 = L at *
    have h1 : 2 * L * -r.step ≤ T * -r.step := mul_le_mul_of_nonneg_right half (by omega)
    have h2 : 2 * L * -r.step = 2 * (L * -r.step) := by ring
    have h3 : L * r.step = -(L * -r.step) := by ring
    have h4 : L = 0 ∨ L = 1 ∨ 2 * -r.step ≤ L * -r.step := by
      cases le_or_gt L 1 with
      | inl le => omega
      | inr gt => exact .inr (.inr (mul_le_mul_of_nonneg_right (by omega) (by omega)))
    rw [h3]
    obtain zero | one | more := h4
    · rw [zero, zero_mul]
      omega
    · rw [h2, one, one_mul] at h1
      rw [one, one_mul]
      omega
    · omega

end Cut

section Halves
variable {whole box : NdRange} {policy : LoopPolicy} {d n : Nat}

lemma Between.refl_left {a b : Int} : Between a b a := by
  unfold Between
  omega

lemma Between.refl_right {a b : Int} : Between a b b := by
  unfold Between
  omega

lemma Inside.refl (whole : NdRange) : Inside whole whole :=
  ⟨rfl, fun _ _ => rfl, fun _ _ => .refl_left, fun _ _ => .refl_right⟩

lemma Inside.setUpper {mid : Int} (inside : Inside whole box)
    (between : Between (whole.ndRange d).lower (whole.ndRange d).upper mid) :
    Inside whole (box.setUpper d mid) where
  dim := inside.dim
  step e he := by
    by_cases eq : e = d
    · subst eq; rw [NdRange.setUpper, NdRange.set_same]; exact inside.step e he
    · rw [NdRange.setUpper, NdRange.set_other eq]; exact inside.step e he
  lower e he := by
    by_cases eq : e = d
    · subst eq; rw [NdRange.setUpper, NdRange.set_same]; exact inside.lower e he
    · rw [NdRange.setUpper, NdRange.set_other eq]; exact inside.lower e he
  upper e he := by
    by_cases eq : e = d
    · subst eq; rw [NdRange.setUpper, NdRange.set_same]; exact between
    · rw [NdRange.setUpper, NdRange.set_other eq]; exact inside.upper e he

lemma Inside.setLower {mid : Int} (inside : Inside whole box)
    (between : Between (whole.ndRange d).lower (whole.ndRange d).upper mid) :
    Inside whole (box.setLower d mid) where
  dim := inside.dim
  step e he := by
    by_cases eq : e = d
    · subst eq; rw [NdRange.setLower, NdRange.set_same]; exact inside.step e he
    · rw [NdRange.setLower, NdRange.set_other eq]; exact inside.step e he
  lower e he := by
    by_cases eq : e = d
    · subst eq; rw [NdRange.setLower, NdRange.set_same]; exact between
    · rw [NdRange.setLower, NdRange.set_other eq]; exact inside.lower e he
  upper e he := by
    by_cases eq : e = d
    · subst eq; rw [NdRange.setLower, NdRange.set_same]; exact inside.upper e he
    · rw [NdRange.setLower, NdRange.set_other eq]; exact inside.upper e he

lemma length64 (ok : RangeOk policy whole) (roomy : whole.Roomy) (inside : Inside whole box)
    (hd : d < whole.dim.toNat) :
    sub 64 (box.ndRange d).upper (box.ndRange d).lower = some ((box.ndRange d).upper - (box.ndRange d).lower) ∧
      divup64 ((box.ndRange d).upper - (box.ndRange d).lower) (box.ndRange d).step =
        some (divup ((box.ndRange d).upper - (box.ndRange d).lower) (box.ndRange d).step) := by
  obtain ⟨c, hc, count⟩ := ok.dims d hd
  have dir := hc.roomy_dir (roomy d hd)
  have lower := inside.lower d hd
  have upper := inside.upper d hd
  have lo := ok.lower d hd
  have hi := ok.upper d hd
  rw [inside.step d hd]
  obtain ⟨a, ha⟩ : ∃ a, a = (box.ndRange d).upper - (box.ndRange d).lower := ⟨_, rfl⟩
  rw [← ha]
  unfold Between at lower upper
  rw [int64Max_eq] at dir
  have length : Fits 64 a := by rw [fits64_iff]; omega
  have sum : Fits 64 (a + (whole.ndRange d).step) := by rw [fits64_iff]; omega
  have last : Fits 64 (a + (whole.ndRange d).step - 1) := by rw [fits64_iff]; omega
  have quot : Fits 64 ((a + (whole.ndRange d).step - 1).tdiv (whole.ndRange d).step) := by
    refine last.tdiv_of_ne ?_
    by_contra least
    obtain ⟨one, least⟩ := not_or.1 least
    have one : (whole.ndRange d).step = -1 := not_not.1 one
    have least : a + (whole.ndRange d).step - 1 = -9223372036854775808 := by
      have := not_not.1 least
      norm_num at this
      omega
    -- a dimension this long has more chunks than the check admits
    have big : (whole.ndRange d).lower - (whole.ndRange d).upper = 9223372036854775806 ∧ c = -1 := by
      omega
    have many : divup ((whole.ndRange d).upper - (whole.ndRange d).lower) c =
        9223372036854775808 := by
      have len : (whole.ndRange d).upper - (whole.ndRange d).lower = -9223372036854775806 := by omega
      rw [big.2, len]
      decide
    rw [many, maxChunk_eq] at count
    omega
  refine ⟨by rw [ha]; exact sub_eq (ha ▸ length), ?_⟩
  simp only [divup64, add_eq sum, sub_eq last, bind_eq_bind, bind_some]
  exact div_eq (by omega) quot

lemma getMaxRangeDim64_eq (ok : RangeOk policy whole) (roomy : whole.Roomy)
    (inside : Inside whole box) : getMaxRangeDim64 box = some (getMaxRangeDim box) := by
  have rounds : ∀ (l : List Nat) (s : Int × Nat), (∀ d ∈ l, d < whole.dim.toNat) →
    l.foldlM (fun (s : Int × Nat) i => do
        let r := box.ndRange i
        let a ← sub 64 r.upper r.lower
        let currentChunks ← divup64 a r.step
        return if currentChunks > s.1 then (currentChunks, i) else s) s =
      some (l.foldl (fun (s : Int × Nat) i =>
        let r := box.ndRange i
        let currentChunks := divup (r.upper - r.lower) r.step
        if currentChunks > s.1 then (currentChunks, i) else s) s) := by
    intro l
    induction l with
    | nil => exact fun _ _ => rfl
    | cons d l ih =>
      intro s mem
      obtain ⟨length, chunks⟩ := length64 ok roomy inside (mem d List.mem_cons_self)
      rw [List.foldlM_cons, List.foldl_cons, ← ih _ fun e he => mem e (List.mem_cons_of_mem _ he)]
      simp only [length, chunks, bind_eq_bind, bind_some]
      rfl
  unfold getMaxRangeDim64 getMaxRangeDim
  rw [rounds _ _ fun d hd => by
    rw [← inside.dim]
    exact List.mem_range.1 hd]
  rfl

lemma divideMid64_eq (ok : RangeOk .static whole) (roomy : whole.Roomy) (hd : d < whole.dim.toNat) (two : 2 ≤ n) :
    divideMid64 (calcChunkInfo whole) d n =
      if n = 2 ∧ (whole.ndRange d).Edge then none else some (divideMid (calcChunkInfo whole) d n) := by
  obtain ⟨c, hc, count⟩ := ok.dims d hd
  have step : c = (whole.ndRange d).step := by rw [hc.chunksize, hc.single rfl, mul_one]
  subst step
  have info : ((calcChunkInfo whole).chunkInfo d).chunksize = (whole.ndRange d).step :=
    hc.chunksize.symm
  have mid : divideMid (calcChunkInfo whole) d n = (whole.ndRange d).lower +
      leftOf (whole.ndRange d) (whole.ndRange d).step n * (whole.ndRange d).step := by
    rw [divideMid, leftChunks, info]
    rfl
  obtain ⟨one, more⟩ := hc.chunks_le
  obtain ⟨nonneg, half, -⟩ := leftOf_half (n := n) hc
  have whole_ := (length64 ok roomy (Inside.refl whole) hd)
  have fitT : Fits 64 (divup ((whole.ndRange d).upper - (whole.ndRange d).lower) (whole.ndRange d).step) := by
    rw [maxChunk_eq] at count
    rw [fits64_iff]
    omega
  have q := div_eq (b := (n : Int)) (by omega) (fitT.tdiv (by omega) (by omega))
  have left : Fits 64 (leftOf (whole.ndRange d) (whole.ndRange d).step n) := by
    rw [fits64_iff] at fitT ⊢
    omega
  have l := mul_eq left
  have p := mul_eq (hc.coef (roomy d hd) nonneg (leftOf_le hc))
  have range_ : (calcChunkInfo whole).range = whole := rfl
  have run : divideMid64 (calcChunkInfo whole) d n = checked 64 (divideMid (calcChunkInfo whole) d n) := by
    unfold divideMid64
    simp only [info, range_, whole_.1, whole_.2, q, bind_eq_bind, bind_some]
    rw [show mul 64 ((divup ((whole.ndRange d).upper - (whole.ndRange d).lower)
        (whole.ndRange d).step).tdiv n) (n / 2 : Nat) =
      some (leftOf (whole.ndRange d) (whole.ndRange d).step n) from l, bind_some, p,
      bind_some, mid]
    rfl
  have edge : Fits 64 (divideMid (calcChunkInfo whole) d n) ↔ ¬(n = 2 ∧ (whole.ndRange d).Edge) := by
    rw [mid]
    obtain rfl | three := two.eq_or_lt
    · rw [leftOf_two hc (ok.lower d hd) (ok.upper d hd)]
      simp
    · have between := leftOf_between (n := n) hc three
      refine iff_of_true ?_ (fun h => by omega)
      cases between with
      | inl up => exact (ok.lower d hd).between (ok.upper d hd) up.1 up.2
      | inr down => exact (ok.upper d hd).between (ok.lower d hd) down.1 down.2
  rw [run]
  split
  · rename_i bad
    exact checked_none fun fit => edge.1 fit bad
  · rename_i good
    exact checked_eq (edge.2 good)

lemma divideMid_between (ok : RangeOk .static whole) (hd : d < whole.dim.toNat) (three : 3 ≤ n) :
    Between (whole.ndRange d).lower (whole.ndRange d).upper (divideMid (calcChunkInfo whole) d n) := by
  obtain ⟨c, hc, -⟩ := ok.dims d hd
  have between := leftOf_between (n := n) hc three
  rw [hc.chunksize] at between
  exact between

end Halves

/-- No cut between two threads, where the interval of threads is halved, is that of an edge. -/
def CutsFit (pf : PfRange) : Nat → NdRange → Nat → Prop
  | 0, _, _ => True
  | depth + 1, range, numThreads =>
    if numThreads ≤ 1 then True
    else
      let divideDim := getMaxRangeDim range
      let leftThreads := numThreads / 2
      let mid := divideMid pf divideDim numThreads
      ¬(numThreads = 2 ∧ (pf.range.ndRange divideDim).Edge) ∧
        CutsFit pf depth (range.setUpper divideDim mid) leftThreads ∧
        CutsFit pf depth (range.setLower divideDim mid) (numThreads - leftThreads)

lemma divideRange64_isSome {whole : NdRange} (ok : RangeOk .static whole) (roomy : whole.Roomy)
    {depth box head n} (pos : 1 ≤ n) (inside : 2 ≤ n → Inside whole box) :
    (∀ tid, head ≤ tid → tid < head + n → (divideRange64 (calcChunkInfo whole) tid depth box head n).isSome) ↔
        CutsFit (calcChunkInfo whole) depth box n := by
  induction depth generalizing box head n with
  | zero => exact iff_of_true (fun _ _ _ => rfl) trivial
  | succ depth ih =>
    rw [CutsFit]
    split
    · refine iff_of_true (fun tid lo hi => ?_) trivial
      rw [divideRange64, if_pos ⟨by omega, by omega⟩]
      rfl
    · have in_ := inside (by omega)
      have dim := @getMaxRangeDim_lt box (by rw [in_.dim]; exact ok.pos)
      rw [in_.dim] at dim
      have mid := divideMid64_eq (n := n) ok roomy (d := getMaxRangeDim box) (by omega) (by omega)
      have run : ∀ tid, divideRange64 (calcChunkInfo whole) tid (depth + 1) box head n =
          if n = 2 ∧ (whole.ndRange (getMaxRangeDim box)).Edge then none
          else if head + n / 2 > tid then
            divideRange64 (calcChunkInfo whole) tid depth
              (box.setUpper (getMaxRangeDim box) (divideMid (calcChunkInfo whole) (getMaxRangeDim box) n))
              head (n / 2)
          else
            divideRange64 (calcChunkInfo whole) tid depth
              (box.setLower (getMaxRangeDim box) (divideMid (calcChunkInfo whole) (getMaxRangeDim box) n))
              (head + n / 2) (n - n / 2) := by
        intro tid
        rw [divideRange64, if_neg (by omega), getMaxRangeDim64_eq ok roomy in_]
        simp only [bind_eq_bind, bind_some, mid]
        split <;> rfl
      have between : 3 ≤ n → Between (whole.ndRange (getMaxRangeDim box)).lower
          (whole.ndRange (getMaxRangeDim box)).upper
            (divideMid (calcChunkInfo whole) (getMaxRangeDim box) n) :=
        divideMid_between ok (by omega)
      have left := @ih (box.setUpper (getMaxRangeDim box)
        (divideMid (calcChunkInfo whole) (getMaxRangeDim box) n)) head (n / 2)
        (by omega) (fun _ => in_.setUpper (between (by omega)))
      have right := @ih (box.setLower (getMaxRangeDim box)
        (divideMid (calcChunkInfo whole) (getMaxRangeDim box) n)) (head + n / 2)
        (n - n / 2) (by omega) (fun _ => in_.setLower (between (by omega)))
      simp only [run, ← left, ← right]
      constructor
      · intro all
        have good : ¬(n = 2 ∧ (whole.ndRange (getMaxRangeDim box)).Edge) := by
          intro bad
          have first := all head le_rfl (by omega)
          rw [if_pos bad] at first
          cases first
        simp only [if_neg good] at all
        refine ⟨good, fun tid lo hi => ?_, fun tid lo hi => ?_⟩
        · have := all tid lo (by omega)
          rwa [if_pos (by omega)] at this
        · have := all tid (by omega) (by omega)
          rwa [if_neg (by omega)] at this
      · intro ⟨good, hl, hr⟩ tid lo hi
        have good : ¬(n = 2 ∧ (whole.ndRange (getMaxRangeDim box)).Edge) := good
        rw [if_neg good]
        split
        · exact hl tid lo (by omega)
        · exact hr tid (by omega) (by omega)

end Kupl.Range
