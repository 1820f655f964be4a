import Kupl.Range.Chunk
import Kupl.Range.Room

/-!
# Bounds in `int64_t`

The numbers of chunks and the bounds of threads, chunks and tasks on a roomy range: the checked
computations of `Kupl.Range.Int64` return what the unchecked ones do. All of them are `lower` plus a
whole number of chunks; up to the last chunk these lie between the bounds of the range
(`DimOk.place`), and a chunk further they fit where the check has looked behind `upper`
(`DimOk.next`).
-/

namespace Kupl.Range
open Word Cut Option List

section Dimension
variable {policy : LoopPolicy} {r : KuplRange} {c j : Int}

lemma divup64_pos {a b : Int} (ha : 1 ≤ a) (hb : 1 ≤ b) (h : a + b ≤ int64Max) :
    divup64 a b = some (divup a b) := by
  rw [int64Max_eq] at h
  have sum : Fits 64 (a + b) := by rw [fits64_iff]; omega
  have last : Fits 64 (a + b - 1) := by rw [fits64_iff]; omega
  simp only [divup64, add_eq sum, sub_eq last, bind_eq_bind, bind_some]
  exact div_eq (by omega) (last.tdiv (by omega) (by omega))

section
variable (ok : DimOk policy r c)
include ok

lemma DimOk.roomy_dir (roomy : r.Roomy) :
    (0 < r.step ∧ r.step ≤ c ∧ r.lower < r.upper ∧ r.upper - r.lower + c ≤ int64Max) ∨
      (r.step < 0 ∧ c ≤ r.step ∧ r.upper < r.lower ∧ r.lower - r.upper - c ≤ int64Max) := by
  have dir := ok.dir
  have := ok.roomy_iff.1 roomy
  omega

lemma DimOk.calcChunk64_eq (roomy : r.Roomy) : calcChunk64 r = some (calcChunk r) := by
  have chunk := ok.chunksize
  have dir := ok.roomy_dir roomy
  have room := dir
  rw [int64Max_eq] at dir
  have chunk64 : Fits 64 (r.step * r.blocksize) := by
    rw [← chunk, fits64_iff]
    omega
  simp only [calcChunk64, mul_eq chunk64, bind_eq_bind, bind_some, ← chunk]
  split
  · rename_i pos
    have length : Fits 64 (r.upper - r.lower) := by rw [fits64_iff]; omega
    have chunks : divup64 (r.upper - r.lower) c = some (divup (r.upper - r.lower) c) :=
      divup64_pos (by omega) (by omega) (by omega)
    simp [sub_eq length, chunks, calcChunk, ← chunk, pos]
  · have length : Fits 64 (r.lower - r.upper) := by rw [fits64_iff]; omega
    have flip : Fits 64 (-c) := by rw [fits64_iff]; omega
    have chunks : divup64 (r.lower - r.upper) (-c) = some (divup (r.lower - r.upper) (-c)) :=
      divup64_pos (by omega) (by omega) (by omega)
    have not : ¬0 < c := by omega
    simp [sub_eq length, neg_eq flip, chunks, calcChunk, ← chunk, not]

lemma DimOk.dimChunks64_eq (roomy : r.Roomy) : dimChunks64 r = some (calcChunk r).chunks := by
  have chunk := ok.chunksize
  have hb := ok.blocksize
  have dir := ok.roomy_dir roomy
  have room := dir
  rw [int64Max_eq] at dir
  unfold dimChunks64
  split
  · have pos : c > 0 := by omega
    have chunk64 : Fits 64 (r.blocksize * r.step) := by
      rw [mul_comm, ← chunk, fits64_iff]
      omega
    have length : Fits 64 (r.upper - r.lower) := by rw [fits64_iff]; omega
    have chunks : divup64 (r.upper - r.lower) c = some (divup (r.upper - r.lower) c) :=
      divup64_pos (by omega) (by omega) (by omega)
    have same : r.blocksize * r.step = c := by rw [chunk, mul_comm]
    simp [sub_eq length, mul_eq chunk64, same, chunks, calcChunk, ← chunk, pos]
  · have neg : c < 0 := by omega
    have bound : r.blocksize ≤ -c := by
      rw [chunk]
      have : r.step * r.blocksize ≤ -1 * r.blocksize :=
        mul_le_mul_of_nonneg_right (by omega) (by omega)
      omega
    have flip : -r.blocksize * r.step = -c := by rw [chunk]; ring
    have chunk64 : Fits 64 (-r.blocksize * r.step) := by rw [flip, fits64_iff]; omega
    have minus : Fits 64 (-r.blocksize) := by rw [fits64_iff]; omega
    have length : Fits 64 (r.lower - r.upper) := by rw [fits64_iff]; omega
    have chunks : divup64 (r.lower - r.upper) (-c) = some (divup (r.lower - r.upper) (-c)) :=
      divup64_pos (by omega) (by omega) (by omega)
    have not : ¬0 < c := by omega
    simp only [sub_eq length, neg_eq minus, mul_eq chunk64, flip, chunks, calcChunk, ← chunk,
      gt_iff_lt, not, if_false, bind_eq_bind, bind_some]

lemma DimOk.before_place (nonneg : 0 ≤ j) (lt : j < (calcChunk r).chunks) : r.Before (r.lower + j * c) r.upper := by
  obtain ⟨i, rfl⟩ := Int.eq_ofNat_of_zero_le nonneg
  have before := (r.lt_size ok.before.step_ne).1 ((lt_chunks ok.blocksize ok.before).1 lt)
  have place : r.lower + ((i * r.blocksize.toNat : Nat) : Int) * r.step = r.lower + i * c := by
    have := ok.blocksize
    rw [Nat.cast_mul, Int.toNat_of_nonneg (by omega), ok.chunksize]
    ring
  rwa [place] at before

lemma DimOk.coef (roomy : r.Roomy) (nonneg : 0 ≤ j) (le : j ≤ (calcChunk r).chunks) : Fits 64 (j * c) := by
  have dir := ok.roomy_dir roomy
  rw [int64Max_eq] at dir
  cases lt_or_eq_of_le nonneg with
  | inr zero =>
    rw [← zero, fits64_iff]
    omega
  | inl pos =>
    have before := ok.before_place (j := j - 1) (by omega) (by omega)
    have split : j * c = (j - 1) * c + c := by ring
    rw [split, fits64_iff]
    rcases dir with ⟨up, le, lt, room⟩ | ⟨down, le, lt, room⟩
    · have low : 0 ≤ (j - 1) * c := mul_nonneg (by omega) (by omega)
      rcases before with ⟨-, before⟩ | ⟨neg, -⟩ <;> omega
    · have low : (j - 1) * c ≤ 0 := mul_nonpos_of_nonneg_of_nonpos (by omega) (by omega)
      rcases before with ⟨pos, -⟩ | ⟨-, before⟩ <;> omega

lemma DimOk.place (hl : Fits 64 r.lower) (hu : Fits 64 r.upper)
    (nonneg : 0 ≤ j) (lt : j < (calcChunk r).chunks) : Fits 64 (r.lower + j * c) := by
  have before := ok.before_place nonneg lt
  rcases ok.dir with ⟨up, le, -⟩ | ⟨down, le, -⟩
  · have low : 0 ≤ j * c := mul_nonneg nonneg (by omega)
    rcases before with ⟨-, before⟩ | ⟨neg, -⟩
    · exact hl.between hu (by omega) (by omega)
    · omega
  · have low : j * c ≤ 0 := mul_nonpos_of_nonneg_of_nonpos nonneg (by omega)
    rcases before with ⟨pos, -⟩ | ⟨-, before⟩
    · omega
    · exact hu.between hl (by omega) (by omega)

lemma DimOk.next (ne : policy ≠ .static) (hl : Fits 64 r.lower)
    (nonneg : 0 ≤ j) (lt : j < (calcChunk r).chunks) : Fits 64 (r.lower + (j + 1) * c) := by
  have before := ok.before_place nonneg lt
  obtain ⟨far, near⟩ := ok.far ne
  have split : r.lower + (j + 1) * c = r.lower + j * c + c := by ring
  rw [split, fits64_iff]
  rw [fits64_iff] at hl
  rw [int64Max_eq] at far
  rw [int64Min_eq] at near
  rcases ok.dir with ⟨up, le, -⟩ | ⟨down, le, -⟩
  · have low : 0 ≤ j * c := mul_nonneg nonneg (by omega)
    rcases before with ⟨-, before⟩ | ⟨neg, -⟩
    · omega
    · omega
  · have low : j * c ≤ 0 := mul_nonpos_of_nonneg_of_nonpos nonneg (by omega)
    rcases before with ⟨pos, -⟩ | ⟨-, before⟩
    · omega
    · omega

end

end Dimension

/-- A range as the check settles it, with what is known of its dimensions and of its chunks. -/
structure RangeOk (policy : LoopPolicy) (r : NdRange) : Prop where
  dims : ∀ d < r.dim.toNat, ∃ c, DimOk policy (r.ndRange d) c ∧
    divup ((r.ndRange d).upper - (r.ndRange d).lower) c ≤ maxChunk
  lower : ∀ d < r.dim.toNat, Fits 64 (r.ndRange d).lower
  upper : ∀ d < r.dim.toNat, Fits 64 (r.ndRange d).upper
  pos : 1 ≤ r.dim
  chunks : (calcChunkInfo r).totalChunks ≤ maxChunk

lemma checkRange_ok {range policy r} (h : checkRange range policy = some r)
    (typed : ∀ d < range.dim.toNat, (range.ndRange d).Typed) : RangeOk policy r := by
  obtain ⟨pos, -, eq, dims⟩ := checkRange_spec h
  obtain ⟨chunks, counts, -⟩ := checkRange64_eq h typed
  have keep : ∀ d < r.dim.toNat, (r.ndRange d).lower = (range.ndRange d).lower ∧
      (r.ndRange d).upper = (range.ndRange d).upper := by
    intro d hd
    obtain ⟨c, hc⟩ := dims d (by omega)
    exact ⟨(checkDim_bounds hc).1, (checkDim_bounds hc).2.1⟩
  refine ⟨counts, fun d hd => ?_, fun d hd => ?_, pos, chunks⟩
  · rw [(keep d hd).1]
    exact (typed d (by omega)).lower
  · rw [(keep d hd).2]
    exact (typed d (by omega)).upper

def NdRange.Roomy (r : NdRange) : Prop := ∀ d < r.dim.toNat, (r.ndRange d).Roomy

section Total
variable {policy : LoopPolicy} {r : NdRange}

lemma foldlM_mul64 {f : Nat → Option Int} {g : Nat → Int} {n : Nat} (eq : ∀ d < n, f d = some (g d))
    (pos : ∀ d < n, 1 ≤ g d) (bound : (List.range n).foldl (fun t d => t * g d) 1 ≤ maxChunk) :
    1 ≤ (List.range n).foldl (fun t d => t * g d) 1 ∧ (List.range n).foldlM (fun t d => do
        let c ← f d
        mul 64 t c) (1 : Int) = some ((List.range n).foldl (fun t d => t * g d) 1) := by
  induction n with
  | zero => simp
  | succ n ih =>
    rw [range_succ, foldl_append] at bound ⊢
    simp only [foldl_cons, foldl_nil] at bound ⊢
    have last := pos n (by omega)
    obtain ⟨low, run⟩ := ih (fun d hd => eq d (by omega)) (fun d hd => pos d (by omega)) (by
      by_contra big
      have : (List.range n).foldl (fun t d => t * g d) 1 * 1 ≤ (List.range n).foldl (fun t d => t * g d) 1 * g n :=
        mul_le_mul_of_nonneg_left last (by rw [maxChunk_eq] at big; omega)
      omega)
    have one := one_le_mul_of_one_le_of_one_le low last
    refine ⟨one, ?_⟩
    have fit : Fits 64 ((List.range n).foldl (fun t d => t * g d) 1 * g n) := by
      rw [maxChunk_eq] at bound
      rw [fits64_iff]
      omega
    rw [foldlM_append, run]
    simp [eq n (by omega), mul_eq fit]

lemma RangeOk.chunks64 (ok : RangeOk policy r) (roomy : r.Roomy) : 1 ≤ (calcChunkInfo r).totalChunks ∧
      rangeChunks64 r = some (calcChunkInfo r).totalChunks ∧
      totalChunks64 r = some (calcChunkInfo r).totalChunks := by
  have pos : ∀ d < r.dim.toNat, 1 ≤ (calcChunk (r.ndRange d)).chunks := by
    intro d hd
    obtain ⟨c, hc, -⟩ := ok.dims d hd
    exact hc.chunks_le.1
  have dims : ∀ d < r.dim.toNat, dimChunks64 (r.ndRange d) = some (calcChunk (r.ndRange d)).chunks := by
    intro d hd
    obtain ⟨c, hc, -⟩ := ok.dims d hd
    exact hc.dimChunks64_eq (roomy d hd)
  have infos : ∀ d < r.dim.toNat, (calcChunk64 (r.ndRange d)).map RangeChunk.chunks =
      some (calcChunk (r.ndRange d)).chunks := by
    intro d hd
    obtain ⟨c, hc, -⟩ := ok.dims d hd
    rw [hc.calcChunk64_eq (roomy d hd)]
    rfl
  obtain ⟨one, run⟩ := foldlM_mul64 dims pos ok.chunks
  obtain ⟨-, run'⟩ := foldlM_mul64 infos pos ok.chunks
  refine ⟨one, run, Eq.trans ?_ run'⟩
  unfold totalChunks64
  congr 1
  funext t d
  cases calcChunk64 (r.ndRange d) <;> rfl

end Total

section Static
variable {r : NdRange} {c : Int} {tid tnum M : Nat}

lemma staticRange64_eq (dim : r.dim = 1) (ok : RangeOk .static r) (hd : DimOk .static (r.ndRange 0) c)
    (roomy : (r.ndRange 0).Roomy) (hM : (calcChunk (r.ndRange 0)).chunks = M) (lt : tid < tnum)
    (le : tnum ≤ M) : staticRange64 (calcChunkInfo r) tid tnum = (do
      let u ← add 64 ((r.ndRange 0).lower + (tid * (M / tnum) : Nat) * c) (c * (M / tnum : Nat))
      let u ← add 64 u ((min (M % tnum) (tid + 1) : Nat) * c)
      return {
        lower := (r.ndRange 0).lower + (share M tnum tid : Nat) * c
        upper := (r.ndRange 0).clamp c u
        step := (r.ndRange 0).step
        blocksize := (r.ndRange 0).blocksize }) := by
  have total : (calcChunkInfo r).totalChunks = M := by simp [calcChunkInfo, dim, hM]
  have info : ((calcChunkInfo r).chunkInfo 0).chunksize = c := hd.chunksize.symm
  have chunks : ((calcChunkInfo r).chunkInfo 0).chunks = M := hM
  have bound := ok.chunks
  rw [total, maxChunk_eq] at bound
  have hl := ok.lower 0 (by rw [dim]; decide)
  have hu := ok.upper 0 (by rw [dim]; decide)
  have pos : 0 < tnum := by omega
  have step := share_succ (n := M) (k := tnum) (t := tid)
  have last := share_le (n := M) (k := tnum) (t := tid + 1) (by omega) pos
  have one : 1 ≤ M / tnum := (Nat.one_le_div_iff pos).2 le
  have shares : share M tnum tid = tid * (M / tnum) + min (M % tnum) tid := rfl
  have rest := Nat.mod_lt M pos
  have coef : ∀ j : Nat, j ≤ M → Fits 64 ((j : Int) * c) := fun j hj =>
    hd.coef roomy (by omega) (by omega)
  have place : ∀ j : Nat, j < M → Fits 64 ((r.ndRange 0).lower + (j : Int) * c) := fun j hj =>
    hd.place hl hu (by omega) (by omega)
  have fitM : Fits 64 (M : Int) := by rw [fits64_iff]; omega
  have base : div 64 (M : Int) tnum = some ((M / tnum : Nat) : Int) := by
    rw [div_eq (by omega) (fitM.tdiv (by omega) (by omega)), ← Int.ofNat_tdiv]
  have remain : mod 64 (M : Int) tnum = some ((M % tnum : Nat) : Int) := by
    rw [mod_eq (by omega) (fitM.tdiv (by omega) (by omega)), ← Int.ofNat_tmod]
  have p1 : mul 64 (tid : Int) c = some (tid * c) := mul_eq (coef tid (by omega))
  have p2 : mul 64 (tid * c) ((M / tnum : Nat) : Int) = some ((tid * (M / tnum) : Nat) * c) := by
    have same : (tid * c) * ((M / tnum : Nat) : Int) = ((tid * (M / tnum) : Nat) : Int) * c := by
      push_cast
      ring
    rw [mul_eq (by rw [same]; exact coef _ (by omega)), same]
  have a1 : add 64 (r.ndRange 0).lower ((tid * (M / tnum) : Nat) * c) =
      some ((r.ndRange 0).lower + (tid * (M / tnum) : Nat) * c) := add_eq (place _ (by omega))
  have minNat : ∀ t : Nat, min (((M % tnum : Nat) : Int)) t = ((min (M % tnum) t : Nat) : Int) :=
    fun t => by omega
  have q1 : mul 64 ((min (M % tnum) tid : Nat) : Int) c = some ((min (M % tnum) tid : Nat) * c) :=
    mul_eq (coef _ (by omega))
  have a2 : add 64 ((r.ndRange 0).lower + (tid * (M / tnum) : Nat) * c)
      ((min (M % tnum) tid : Nat) * c) = some ((r.ndRange 0).lower + (share M tnum tid : Nat) * c) := by
    have same : (r.ndRange 0).lower + ((tid * (M / tnum) : Nat) : Int) * c + ((min (M % tnum) tid : Nat) : Int) * c =
          (r.ndRange 0).lower + ((share M tnum tid : Nat) : Int) * c := by
      rw [shares]
      push_cast
      ring
    rw [add_eq (by rw [same]; exact place _ (by omega)), same]
  have p3 : mul 64 c ((M / tnum : Nat) : Int) = some (c * (M / tnum : Nat)) :=
    mul_eq (by rw [mul_comm]; exact coef _ (by omega))
  have t1 : add 64 (tid : Int) 1 = some ((tid + 1 : Nat) : Int) := add_eq (by rw [fits64_iff]; omega)
  have q2 : mul 64 ((min (M % tnum) (tid + 1) : Nat) : Int) c =
      some ((min (M % tnum) (tid + 1) : Nat) * c) := mul_eq (coef _ (by omega))
  have whole : (calcChunkInfo r).range = r := rfl
  simp only [staticRange64, total, info, chunks, whole, base, remain, p1, p2, a1, minNat, q1, a2, p3,
    t1, q2, bind_eq_bind, bind_some]

lemma staticRange64_isSome (dim : r.dim = 1) (ok : RangeOk .static r) (hd : DimOk .static (r.ndRange 0) c)
    (roomy : (r.ndRange 0).Roomy) (hM : (calcChunk (r.ndRange 0)).chunks = M) (lt : tid < tnum) (le : tnum ≤ M) :
    (staticRange64 (calcChunkInfo r) tid tnum).isSome ↔ tid + 1 < tnum ∨ Fits 64 ((r.ndRange 0).lower + M * c) := by
  have hl := ok.lower 0 (by rw [dim]; decide)
  have hu := ok.upper 0 (by rw [dim]; decide)
  have pos : 0 < tnum := by omega
  have one : 1 ≤ M / tnum := (Nat.one_le_div_iff pos).2 le
  have next : share M tnum (tid + 1) = tid * (M / tnum) + M / tnum + min (M % tnum) (tid + 1) := by
    rw [share, Nat.succ_mul]
  have last := share_le (n := M) (k := tnum) (t := tid + 1) (by omega) pos
  have part : (r.ndRange 0).lower + ((tid * (M / tnum) : Nat) : Int) * c + c * ((M / tnum : Nat) : Int)
      = (r.ndRange 0).lower + ((tid * (M / tnum) + M / tnum : Nat) : Int) * c := by
    push_cast
    ring
  have whole : (r.ndRange 0).lower + ((tid * (M / tnum) + M / tnum : Nat) : Int) * c +
      ((min (M % tnum) (tid + 1) : Nat) : Int) * c =
        (r.ndRange 0).lower + ((share M tnum (tid + 1) : Nat) : Int) * c := by
    rw [next]
    push_cast
    ring
  have place : ∀ j : Nat, j < M → Fits 64 ((r.ndRange 0).lower + (j : Int) * c) := fun j hj =>
    hd.place hl hu (by omega) (by omega)
  rw [staticRange64_eq dim ok hd roomy hM lt le]
  constructor
  · intro some
    by_contra out
    obtain ⟨ge, out⟩ := not_or.1 out
    have e : tid + 1 = tnum := by omega
    have all : share M tnum (tid + 1) = M := by rw [e, share_last pos]
    rw [all] at whole
    have fail : add 64 ((r.ndRange 0).lower + ((tid * (M / tnum) + M / tnum : Nat) : Int) * c)
        ((min (M % tnum) (tid + 1) : Nat) * c) = none := add_none (by rw [whole]; exact out)
    by_cases fit : Fits 64 ((r.ndRange 0).lower + ((tid * (M / tnum) : Nat) : Int) * c + c * ((M / tnum : Nat) : Int))
    · rw [add_eq fit, part] at some
      simp only [bind_eq_bind, bind_some, fail] at some
      cases some
    · rw [add_none fit] at some
      cases some
  · intro room
    have ends : ∀ j : Nat, j ≤ share M tnum (tid + 1) → Fits 64 ((r.ndRange 0).lower + (j : Int) * c) := by
      intro j hj
      by_cases inside : j < M
      · exact place j inside
      · have e : j = M := by omega
        subst e
        cases room with
        | inr fit => exact fit
        | inl lt =>
          have grow := share_succ (n := j) (k := tnum) (t := tid + 1)
          have := share_le (n := j) (k := tnum) (t := tid + 1 + 1) (by omega) pos
          omega
    have a1 := add_eq (a := (r.ndRange 0).lower + ((tid * (M / tnum) : Nat) : Int) * c)
      (b := c * ((M / tnum : Nat) : Int)) (by rw [part]; exact ends _ (by omega))
    have a2 := add_eq (a := (r.ndRange 0).lower + ((tid * (M / tnum) + M / tnum : Nat) : Int) * c)
      (b := ((min (M % tnum) (tid + 1) : Nat) : Int) * c) (by rw [whole]; exact ends _ le_rfl)
    rw [a1, part]
    simp only [bind_eq_bind, bind_some, a2]
    rfl

end Static

lemma chunkIndex64_isSome {N n i : Nat} (bound : (N : Int) ≤ maxChunk) (pos : 1 ≤ n) (le : n ≤ N)
    (lt : i < n) : (chunkIndex64 N n i).isSome := by
  rw [maxChunk_eq] at bound
  have fitN : Fits 64 (N : Int) := by rw [fits64_iff]; omega
  have quot : div 64 (N : Int) n = some ((N / n : Nat) : Int) := by
    rw [div_eq (by omega) (fitN.tdiv (by omega) (by omega)), ← Int.ofNat_tdiv]
  have rest : mod 64 (N : Int) n = some ((N % n : Nat) : Int) := by
    rw [mod_eq (by omega) (fitN.tdiv (by omega) (by omega)), ← Int.ofNat_tmod]
  have whole : n * (N / n) + N % n = N := Nat.div_add_mod N n
  have upto : ∀ t ≤ n, t * (N / n) ≤ n * (N / n) := fun t ht => Nat.mul_le_mul_right _ ht
  have first := upto i (by omega)
  have second := upto (i + 1) (by omega)
  have m1 : mul 64 (i : Int) ((N / n : Nat) : Int) = some ((i * (N / n) : Nat) : Int) := by
    rw [mul_eq (by rw [← Nat.cast_mul, fits64_iff]; omega), Nat.cast_mul]
  have a1 : add 64 ((i * (N / n) : Nat) : Int) (min ((i * (N / n) : Nat) : Int) ((N % n : Nat) : Int))
      = some (((i * (N / n) : Nat) : Int) + min ((i * (N / n) : Nat) : Int) ((N % n : Nat) : Int)) :=
    add_eq (by rw [fits64_iff]; omega)
  have i1 : add 64 (i : Int) 1 = some ((i + 1 : Nat) : Int) := add_eq (by rw [fits64_iff]; omega)
  have m2 : mul 64 ((i + 1 : Nat) : Int) ((N / n : Nat) : Int) = some (((i + 1) * (N / n) : Nat) : Int) := by
    rw [mul_eq (by rw [← Nat.cast_mul, fits64_iff]; omega), Nat.cast_mul]
  have a2 : add 64 (((i + 1) * (N / n) : Nat) : Int)
      (min (((i + 1) * (N / n) : Nat) : Int) ((N % n : Nat) : Int)) = some ((((i + 1) * (N / n) : Nat) : Int) +
          min (((i + 1) * (N / n) : Nat) : Int) ((N % n : Nat) : Int)) :=
    add_eq (by rw [fits64_iff]; omega)
  unfold chunkIndex64
  simp only [bind_eq_bind]
  rw [quot, bind_some, rest, bind_some, m1, bind_some, a1, bind_some, i1,
    bind_some, m2, bind_some, a2]
  rfl

section Dynamic
variable {policy : LoopPolicy} {whole range : NdRange} {i : Int}

lemma chunkRound64_eq (ok : RangeOk policy whole) (roomy : whole.Roomy) (ne : policy ≠ .static)
    {d : Nat} (hd : d < whole.dim.toNat) (nonneg : 0 ≤ i) (le : i ≤ maxChunk) :
    chunkRound64 (calcChunkInfo whole) (i, range) d = some (chunkRound (calcChunkInfo whole) (i, range) d) := by
  obtain ⟨c, hc, -⟩ := ok.dims d hd
  have info : ((calcChunkInfo whole).chunkInfo d).chunksize = c := hc.chunksize.symm
  obtain ⟨m, hm⟩ : ∃ m, m = (calcChunk (whole.ndRange d)).chunks := ⟨_, rfl⟩
  have chunks : ((calcChunkInfo whole).chunkInfo d).chunks = m := hm.symm
  have one : 1 ≤ m := hm ▸ hc.chunks_le.1
  have range_ : (calcChunkInfo whole).range = whole := rfl
  have fit : Fits 64 i := by
    rw [maxChunk_eq] at le
    rw [fits64_iff]
    omega
  have low : 0 ≤ i.tmod m := Int.tmod_nonneg _ nonneg
  have lt : i.tmod m < m := Int.tmod_lt_of_pos _ (by omega)
  have rem : mod 64 i m = some (i.tmod m) := mod_eq (by omega) (fit.tdiv nonneg (by omega))
  have quot : div 64 i m = some (i.tdiv m) := div_eq (by omega) (fit.tdiv nonneg (by omega))
  have p : mul 64 (i.tmod m) c = some (i.tmod m * c) :=
    mul_eq (hc.coef (roomy d hd) low (by omega))
  have begin_ : add 64 (whole.ndRange d).lower (i.tmod m * c) = some ((whole.ndRange d).lower + i.tmod m * c) :=
    add_eq (hc.place (ok.lower d hd) (ok.upper d hd) low (by omega))
  have end_ : add 64 ((whole.ndRange d).lower + i.tmod m * c) c =
      some ((whole.ndRange d).lower + i.tmod m * c + c) := by
    refine add_eq ?_
    have next := hc.next ne (ok.lower d hd) low (by omega)
    rwa [add_mul, one_mul, ← add_assoc] at next
  simp only [chunkRound64, chunkRound, PfRange.chunk, info, chunks, range_, rem, quot, p, begin_, end_,
    bind_eq_bind, bind_some]
  rfl

lemma computeChunkRange64_eq (ok : RangeOk policy whole) (roomy : whole.Roomy) (ne : policy ≠ .static)
    (dim : range.dim = whole.dim) (nonneg : 0 ≤ i) (le : i ≤ maxChunk) :
    computeChunkRange64 (calcChunkInfo whole) range i = some (computeChunkRange (calcChunkInfo whole) range i) := by
  have rounds : ∀ (l : List Nat) (i : Int) (range : NdRange), (∀ d ∈ l, d < whole.dim.toNat) →
      0 ≤ i → i ≤ maxChunk → l.foldlM (chunkRound64 (calcChunkInfo whole)) (i, range) =
        some (l.foldl (chunkRound (calcChunkInfo whole)) (i, range)) := by
    intro l
    induction l with
    | nil => exact fun _ _ _ _ _ => rfl
    | cons d l ih =>
      intro i range mem nonneg le
      obtain ⟨c, hc, -⟩ := ok.dims d (mem d mem_cons_self)
      have one := hc.chunks_le.1
      rw [foldlM_cons, chunkRound64_eq ok roomy ne (mem d mem_cons_self) nonneg le, foldl_cons]
      refine ih _ _ (fun e he => mem e (mem_cons_of_mem _ he)) ?_ ?_
      · exact Int.tdiv_nonneg nonneg (le_trans zero_le_one one)
      · refine le_trans ?_ le
        rw [Int.tdiv_eq_ediv_of_nonneg nonneg]
        exact Int.ediv_le_self _ nonneg
  unfold computeChunkRange64 computeChunkRange
  rw [rounds _ i range (fun d hd => by
    rw [← dim]
    exact mem_range.1 (mem_reverse.1 hd)) nonneg le]
  rfl

end Dynamic

lemma taskChunk64_eq {policy : LoopPolicy} {r : KuplRange} {c t : Int} (hd : DimOk policy r c) (ne : policy ≠ .static)
    (roomy : r.Roomy) (hl : Fits 64 r.lower) (hu : Fits 64 r.upper) (nonneg : 0 ≤ t) (lt : t < (calcChunk r).chunks)
    (le : t < maxChunk) : taskChunk64 r c t = some (taskChunk r c t) := by
  rw [maxChunk_eq] at le
  have p := mul_eq (hd.coef roomy nonneg lt.le)
  have lower := add_eq (hd.place hl hu nonneg lt)
  have t1 : add 64 t 1 = some (t + 1) := add_eq (by rw [fits64_iff]; omega)
  have q := mul_eq (hd.coef (j := t + 1) roomy (by omega) (by omega))
  have upper := add_eq (hd.next ne hl nonneg lt)
  simp only [taskChunk64, taskChunk, p, lower, t1, q, upper, bind_eq_bind, bind_some]
  rfl

end Kupl.Range
