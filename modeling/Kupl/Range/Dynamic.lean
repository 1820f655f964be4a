import Mathlib.Algebra.BigOperators.Ring.Finset
import Kupl.Cut.Radix
import Kupl.Range.Iterates

/-!
# Chunks of a range of several dimensions

`kupl_compute_chunk_range` of `mt/kupl_parallel_for.cpp`: a chunk number is split into one index for
each dimension, the last one running fastest, and the indices select the box of the chunk. The boxes
of the chunks `0, …, total_chunks - 1` hold each point of the range once (`chunk_unique`,
`chunk_inside`).
-/

namespace Kupl.Range
open Kupl.Cut List

/-- The bounds of a chunk in dimension `d`, written into `r`. -/
def PfRange.chunk (pf : PfRange) (d : Nat) (ndIndex : Int) (r : KuplRange) : KuplRange :=
  let chunksize := (pf.chunkInfo d).chunksize
  let lower := (pf.range.ndRange d).lower + ndIndex * chunksize
  { r with lower, upper := (pf.range.ndRange d).clamp chunksize (lower + chunksize) }

/-- What remains of the chunk number, and the range, after one dimension (C++ the loop body of
`kupl_compute_chunk_range`). -/
def chunkRound (pf : PfRange) (s : Int × NdRange) (d : Nat) : Int × NdRange :=
  let ndIndex := s.1.tmod (pf.chunkInfo d).chunks
  (s.1.tdiv (pf.chunkInfo d).chunks, s.2.set d (pf.chunk d ndIndex (s.2.ndRange d)))

/-- The box of a chunk, written into `range` (C++ `kupl_compute_chunk_range`). -/
def computeChunkRange (pf : PfRange) (range : NdRange) (chunkIdx : Int) : NdRange :=
  ((List.range range.dim.toNat).reverse.foldl (chunkRound pf) (chunkIdx, range)).2

/-- A range as the check leaves it: every dimension has a blocksize and runs in the direction of its
step. -/
structure NdRange.Sound (range : NdRange) : Prop where
  dim : 1 ≤ range.dim
  blocksize : ∀ d < range.dim.toNat, 1 ≤ (range.ndRange d).blocksize
  before : ∀ d < range.dim.toNat, (range.ndRange d).Before (range.ndRange d).lower (range.ndRange d).upper

lemma checkRange_sound {range policy r} (h : checkRange range policy = some r) : r.Sound := by
  obtain ⟨dim, -, -, dims⟩ := checkRange_spec h
  refine ⟨dim, fun d hd => ?_, fun d hd => ?_⟩
  · obtain ⟨c, hc⟩ := dims d (by omega)
    exact checkDim_blocksize hc
  · obtain ⟨c, hc⟩ := dims d (by omega)
    exact checkDim_before hc

/-- The iterates of chunk number `i` of a dimension. -/
def KuplRange.block (r : KuplRange) (i : Nat) : KuplRange :=
  r.cut (i * r.blocksize.toNat) ((i + 1) * r.blocksize.toNat)

section Dimension
variable {r : KuplRange} {x : Int} {a b i j k : Nat}

lemma KuplRange.mem_cut (ne : r.step ≠ 0) :
    (r.cut a b).Mem x ↔ ∃ k, a ≤ k ∧ k < b ∧ k < r.size ∧ x = r.lower + k * r.step := by
  have ne' : (r.cut a b).step ≠ 0 := ne
  rw [← KuplRange.mem_iterates ne', KuplRange.iterates_cut ne, mem_map]
  constructor
  · rintro ⟨k, hk, rfl⟩
    obtain ⟨ge, lt⟩ := mem_range'_1.1 hk
    exact ⟨k, ge, by omega, by omega, rfl⟩
  · rintro ⟨k, ge, lt, size, rfl⟩
    exact ⟨k, mem_range'_1.2 ⟨ge, by omega⟩, rfl⟩

lemma KuplRange.number_inj (ne : r.step ≠ 0)
    (h : r.lower + (j : Int) * r.step = r.lower + (k : Int) * r.step) : j = k := by
  exact_mod_cast Int.eq_of_mul_eq_mul_right ne (add_left_cancel h)

lemma chunk_block (hb : 1 ≤ r.blocksize) : ({ r with
      lower := r.lower + i * (r.step * r.blocksize)
      upper := r.clamp (r.step * r.blocksize)
        (r.lower + i * (r.step * r.blocksize) + r.step * r.blocksize) } : KuplRange) = r.block i := by
  obtain ⟨b, hbn⟩ := Int.eq_ofNat_of_zero_le (by omega : 0 ≤ r.blocksize)
  have sign : r.step * r.blocksize > 0 ↔ r.step > 0 := mul_pos_iff_of_pos_right (by omega)
  have toNat : r.blocksize.toNat = b := by omega
  simp only [KuplRange.block, KuplRange.cut, KuplRange.clamp, sign, toNat]
  rw [hbn]
  push_cast
  congr 1
  · ring
  · congr 2 <;> ring

lemma KuplRange.mem_block (ne : r.step ≠ 0) (hb : 1 ≤ r.blocksize) : (r.block i).Mem x ↔
    ∃ k, k / r.blocksize.toNat = i ∧ k < r.size ∧ x = r.lower + k * r.step := by
  have pos : 0 < r.blocksize.toNat := by omega
  unfold KuplRange.block
  rw [KuplRange.mem_cut ne]
  refine exists_congr fun k => ?_
  rw [Nat.div_eq_iff pos, ← and_assoc, and_congr_left_iff]
  intro _
  rw [Nat.succ_mul]
  omega

lemma lt_chunks (hb : 1 ≤ r.blocksize) (dir : r.Before r.lower r.upper) :
    (i : Int) < (calcChunk r).chunks ↔ i * r.blocksize.toNat < r.size := by
  have ne := dir.step_ne
  -- the chunks are the iterates of the dimension with a step of one chunk
  have sign : 0 < r.step * r.blocksize ↔ 0 < r.step := mul_pos_iff_of_pos_right (by omega)
  have sign' : r.step * r.blocksize < 0 ↔ r.step < 0 :=
    ⟨fun h => neg_of_mul_neg_left h (by omega), fun h => mul_neg_of_neg_of_pos h (by omega)⟩
  have same : ∀ y z, (⟨r.lower, r.upper, r.step * r.blocksize, 1⟩ : KuplRange).Before y z ↔
      r.Before y z := by
    intro y z
    simp only [KuplRange.Before, sign, sign']
  have chunks : (calcChunk r).chunks = ((⟨r.lower, r.upper, r.step * r.blocksize, 1⟩ : KuplRange).size : Int) := by
    rw [← calcChunk_size rfl ((same _ _).2 dir)]
    simp only [calcChunk, mul_one]
  rw [chunks, Int.ofNat_lt, KuplRange.lt_size ((same _ _).2 dir).step_ne, same, KuplRange.lt_size ne]
  have place : r.lower + (i : Int) * (r.step * r.blocksize) =
      r.lower + ((i * r.blocksize.toNat : Nat) : Int) * r.step := by
    rw [Nat.cast_mul, Int.toNat_of_nonneg (by omega)]
    ring
  rw [place]

end Dimension

section Box
variable {whole range : NdRange} {x : Nat → Int} {i : Nat}

/-- The index of chunk number `i` in dimension `d`. -/
def chunkDigit (whole : NdRange) (i d : Nat) : Nat :=
  digit (fun d => (calcChunk (whole.ndRange d)).chunks.toNat)
    (List.range whole.dim.toNat).reverse i d

/-- The range a thread divides, but for the bounds. -/
structure NdRange.Shape (whole range : NdRange) : Prop where
  dim : range.dim = whole.dim
  step : ∀ d < whole.dim.toNat, (range.ndRange d).step = (whole.ndRange d).step
  blocksize : ∀ d < whole.dim.toNat, (range.ndRange d).blocksize = (whole.ndRange d).blocksize

lemma NdRange.Shape.refl (whole : NdRange) : whole.Shape whole :=
  ⟨rfl, fun _ _ => rfl, fun _ _ => rfl⟩

lemma NdRange.Sound.chunks_pos (sound : whole.Sound) {d : Nat} (hd : d < whole.dim.toNat) :
    0 < (calcChunk (whole.ndRange d)).chunks := by
  have dir := sound.before d hd
  have first : ((0 : Nat) : Int) < (calcChunk (whole.ndRange d)).chunks ↔ _ :=
    lt_chunks (sound.blocksize d hd) dir
  rw [Nat.zero_mul, KuplRange.lt_size dir.step_ne] at first
  simpa using first.2 (by simpa using dir)

lemma chunkRound_eq {d : Nat} (pos : 0 < (calcChunk (whole.ndRange d)).chunks) :
    chunkRound (calcChunkInfo whole) ((i : Int), range) d =
      (((i / (calcChunk (whole.ndRange d)).chunks.toNat : Nat) : Int), range.set d
        ((calcChunkInfo whole).chunk d ((i % (calcChunk (whole.ndRange d)).chunks.toNat : Nat) : Int)
          (range.ndRange d))) := by
  obtain ⟨c, hc⟩ := Int.eq_ofNat_of_zero_le pos.le
  have chunks : ((calcChunkInfo whole).chunkInfo d).chunks = c := hc
  simp only [chunkRound, chunks, hc]
  rfl

lemma chunkRounds_spec {l : List Nat} (nodup : l.Nodup) (pos : ∀ d ∈ l, 0 < (calcChunk (whole.ndRange d)).chunks) :
    let s := l.foldl (chunkRound (calcChunkInfo whole)) ((i : Int), range)
    s.2.dim = range.dim ∧ (∀ d, d ∉ l → s.2.ndRange d = range.ndRange d) ∧
      ∀ d ∈ l, s.2.ndRange d = (calcChunkInfo whole).chunk d
        (digit (fun d => (calcChunk (whole.ndRange d)).chunks.toNat) l i d : Nat)
        (range.ndRange d) := by
  induction l generalizing i range with
  | nil => exact ⟨rfl, fun _ _ => rfl, nofun⟩
  | cons e l ih =>
    obtain ⟨fresh, nodup⟩ := nodup_cons.1 nodup
    simp only [foldl_cons]
    rw [chunkRound_eq (pos e mem_cons_self)]
    obtain ⟨dim, out, done⟩ := ih nodup fun d hd => pos d (mem_cons_of_mem _ hd)
    refine ⟨dim, fun d hd => ?_, fun d hd => ?_⟩
    · obtain ⟨ne, hd⟩ := ne_and_not_mem_of_not_mem_cons hd
      rw [out d hd, NdRange.set_other ne]
    · cases mem_cons.1 hd with
      | inl eq =>
        subst eq
        rw [out d fresh, NdRange.set_same, digit_first]
      | inr hd =>
        have ne : d ≠ e := fun eq => fresh (eq ▸ hd)
        rw [done d hd, NdRange.set_other ne, digit_next ne]

section
variable (sound : whole.Sound)
include sound

section
variable (shape : whole.Shape range)
include shape

lemma computeChunkRange_spec : (computeChunkRange (calcChunkInfo whole) range i).dim = whole.dim ∧
      ∀ d < whole.dim.toNat, (computeChunkRange (calcChunkInfo whole) range i).ndRange d =
        (whole.ndRange d).block (chunkDigit whole i d) := by
  obtain ⟨dim, step, blocksize⟩ := shape
  obtain ⟨same, -, done⟩ := @chunkRounds_spec whole range i _
    (nodup_reverse.2 (nodup_range (n := whole.dim.toNat))) fun d hd =>
      sound.chunks_pos (mem_range.1 (mem_reverse.1 hd))
  unfold computeChunkRange
  rw [dim]
  refine ⟨same.trans dim, fun d hd => ?_⟩
  rw [done d (mem_reverse.2 (mem_range.2 hd)), ← chunk_block (sound.blocksize d hd)]
  simp only [PfRange.chunk, calcChunkInfo, calcChunk, step d hd, blocksize d hd, chunkDigit]

lemma computeChunkRange_shape : whole.Shape (computeChunkRange (calcChunkInfo whole) range i) := by
  obtain ⟨dim, blocks⟩ := computeChunkRange_spec (i := i) sound shape
  exact ⟨dim, fun d hd => by rw [blocks d hd]; rfl, fun d hd => by rw [blocks d hd]; rfl⟩

lemma mem_chunk : (computeChunkRange (calcChunkInfo whole) range i).Mem x ↔ ∀ d < whole.dim.toNat,
      ∃ k, k / (whole.ndRange d).blocksize.toNat = chunkDigit whole i d ∧
        k < (whole.ndRange d).size ∧ x d = (whole.ndRange d).lower + k * (whole.ndRange d).step := by
  obtain ⟨dim, blocks⟩ := computeChunkRange_spec (i := i) sound shape
  unfold NdRange.Mem
  rw [dim]
  refine forall_congr' fun d => ?_
  rw [← Int.lt_toNat]
  refine imp_congr_right fun hd => ?_
  rw [blocks d hd, KuplRange.mem_block (sound.before d hd).step_ne (sound.blocksize d hd)]

omit shape in
lemma NdRange.Sound.mem_iff : whole.Mem x ↔ ∀ d < whole.dim.toNat,
    ∃ k, k < (whole.ndRange d).size ∧ x d = (whole.ndRange d).lower + k * (whole.ndRange d).step := by
  refine forall_congr' fun d => ?_
  rw [← Int.lt_toNat]
  refine imp_congr_right fun hd => exists_congr fun k => ?_
  rw [KuplRange.lt_size (sound.before d hd).step_ne]
  constructor
  · rintro ⟨eq, before⟩
    exact ⟨eq ▸ before, eq⟩
  · rintro ⟨before, eq⟩
    exact ⟨eq, eq ▸ before⟩

lemma chunk_inside (mem : (computeChunkRange (calcChunkInfo whole) range i).Mem x) : whole.Mem x := by
  rw [sound.mem_iff]
  intro d hd
  obtain ⟨k, -, lt, eq⟩ := (mem_chunk sound shape).1 mem d hd
  exact ⟨k, lt, eq⟩

omit shape in
lemma totalChunks_eq : (calcChunkInfo whole).totalChunks = (((List.range whole.dim.toNat).reverse.map fun d =>
      (calcChunk (whole.ndRange d)).chunks.toNat).prod : Nat) := by
  have toNat : (List.range whole.dim.toNat).map (fun d => (calcChunk (whole.ndRange d)).chunks) =
      (List.range whole.dim.toNat).map
        fun d => (((calcChunk (whole.ndRange d)).chunks.toNat : Nat) : Int) :=
    map_congr_left fun d hd =>
      (Int.toNat_of_nonneg (sound.chunks_pos (mem_range.1 hd)).le).symm
  rw [map_reverse, prod_reverse, Nat.cast_list_prod, map_map]
  simp only [calcChunkInfo, Function.comp_def]
  rw [← toNat, prod_eq_foldl, foldl_map]

lemma chunk_unique (mem : whole.Mem x) : ∃! i : Nat, (i : Int) < (calcChunkInfo whole).totalChunks ∧
      (computeChunkRange (calcChunkInfo whole) range i).Mem x := by
  rw [sound.mem_iff] at mem
  choose! k size place using mem
  have below : ∀ d ∈ (List.range whole.dim.toNat).reverse,
      k d / (whole.ndRange d).blocksize.toNat < (calcChunk (whole.ndRange d)).chunks.toNat := by
    intro d hd
    have hd : d < whole.dim.toNat := mem_range.1 (mem_reverse.1 hd)
    rw [Int.lt_toNat, lt_chunks (sound.blocksize d hd) (sound.before d hd)]
    exact (Nat.div_mul_le_self _ _).trans_lt (size d hd)
  obtain ⟨i, ⟨lt, digits⟩, uniq⟩ :=
    existsUnique_number (nodup_reverse.2 nodup_range) below
  refine ⟨i, ⟨?_, ?_⟩, fun j hj => uniq j ⟨?_, fun d hd => ?_⟩⟩
  · rw [totalChunks_eq sound]
    exact_mod_cast lt
  · rw [mem_chunk sound shape]
    intro d hd
    exact ⟨k d, (digits d (mem_reverse.2 (mem_range.2 hd))).symm, size d hd, place d hd⟩
  · have := hj.1
    rw [totalChunks_eq sound] at this
    exact_mod_cast this
  · have hd : d < whole.dim.toNat := mem_range.1 (mem_reverse.1 hd)
    obtain ⟨k', eq, -, same⟩ := (mem_chunk sound shape).1 hj.2 d hd
    have : k' = k d :=
      KuplRange.number_inj (sound.before d hd).step_ne (same.symm.trans (place d hd))
    rw [← this]
    exact eq.symm

end

lemma chunk_count (x : Nat → Int) : (List.range (calcChunkInfo whole).totalChunks.toNat).countP
      (fun i : Nat => decide ((computeChunkRange (calcChunkInfo whole) whole i).Mem x)) =
        if whole.Mem x then 1 else 0 := by
  have shape := NdRange.Shape.refl whole
  refine countP_range_unique (fun mem => ?_) fun i _ mem => chunk_inside sound shape mem
  simpa only [Int.lt_toNat] using chunk_unique sound shape mem

end

end Box
end Kupl.Range
