import Kupl.Range.Iterates

/-!
# Static blocks of a one-dimensional range

`kupl_static_policy_impl` of `mt/kupl_parallel_for.cpp`: every thread computes its own block from its
number. `staticRange_splits` says that the blocks follow each other through the range and have the
same number of iterates up to one.
-/

namespace Kupl.Range
open Kupl.Cut

/-- The block of thread `tid` of `tnum` (C++ `kupl_static_policy_impl`). -/
def staticRange (pf : PfRange) (tid tnum : Nat) : KuplRange :=
  let r := pf.range.ndRange 0
  let chunksize := (pf.chunkInfo 0).chunksize
  let baseChunks := pf.totalChunks.tdiv tnum
  let remainChunks := (pf.chunkInfo 0).chunks.tmod tnum
  let lowerTmp := r.lower + tid * chunksize * baseChunks
  { lower := lowerTmp + min remainChunks tid * chunksize
    upper := r.clamp chunksize
      (lowerTmp + chunksize * baseChunks + min remainChunks (tid + 1) * chunksize)
    step := r.step
    blocksize := r.blocksize }

/-- Sub-ranges of a dimension, one behind the other: they begin and end where the range does, each
begins where the one before it ends, together they have the iterates of the range in their order, and
their numbers of iterates differ by one at most. -/
structure Splits (r : KuplRange) (tnum : Nat) (block : Nat → KuplRange) : Prop where
  first : (block 0).lower = r.lower
  last : (block (tnum - 1)).upper = r.upper
  next : ∀ tid, tid + 1 < tnum → (block (tid + 1)).lower = (block tid).upper
  step : ∀ tid < tnum, (block tid).step = r.step
  iterates : (List.range tnum).flatMap (fun tid => (block tid).iterates) = r.iterates
  even : ∀ t < tnum, ∀ u < tnum, (block t).iterates.length ≤ (block u).iterates.length + 1

section Block
variable {r : KuplRange} {n tnum : Nat}

lemma clamp_inside (h : r.Before (r.lower + n * r.step) r.upper) :
    r.clamp r.step (r.lower + n * r.step) = r.lower + n * r.step := by
  unfold KuplRange.clamp
  unfold KuplRange.Before at h
  split <;> omega

lemma clamp_size (ne : r.step ≠ 0) : r.clamp r.step (r.lower + r.size * r.step) = r.upper := by
  have out := mt (r.lt_size ne).2 (lt_irrefl r.size)
  unfold KuplRange.clamp
  unfold KuplRange.Before at out
  split <;> omega

lemma splits_share (ne : r.step ≠ 0) (pos : 1 ≤ tnum) (le : tnum ≤ r.size) :
    Splits r tnum fun t => r.cut (share r.size tnum t) (share r.size tnum (t + 1)) := by
  have size : ∀ t < tnum, min r.size (share r.size tnum (t + 1)) = share r.size tnum (t + 1) :=
    fun t ht => min_eq_right (share_le ht pos)
  have one : 1 ≤ r.size / tnum := (Nat.one_le_div_iff pos).2 le
  have len : ∀ t < tnum, (r.cut (share r.size tnum t) (share r.size tnum (t + 1))).iterates.length =
      r.size / tnum + if t < r.size % tnum then 1 else 0 := by
    intro t ht
    rw [KuplRange.iterates_cut ne, size t ht, share_succ]
    simp
  refine ⟨by simp [KuplRange.cut], ?_, fun t ht => ?_, fun t _ => rfl, ?_, fun t ht u hu => ?_⟩
  · have end_ : tnum - 1 + 1 = tnum := by omega
    simp only [KuplRange.cut, end_, share_last pos]
    exact clamp_size ne
  · -- the next block has an iterate, so its begin lies before `upper`
    refine (clamp_inside ((r.lt_size ne).1 ?_)).symm
    have := share_succ (n := r.size) (k := tnum) (t := t + 1)
    have := share_le (n := r.size) (k := tnum) (t := t + 1 + 1) (by omega) pos
    omega
  · have blocks : ∀ t ∈ List.range tnum, (r.cut (share r.size tnum t) (share r.size tnum (t + 1))).iterates =
          (List.range' (share r.size tnum t) (share r.size tnum (t + 1) - share r.size tnum t)).map
            fun k : Nat => r.lower + k * r.step := by
      intro t ht
      rw [KuplRange.iterates_cut ne, size t (List.mem_range.1 ht)]
    have whole := flatMap_cut (f := fun k : Nat => r.lower + k * r.step) (n := tnum)
      fun t _ => share_mono (n := r.size) (k := tnum) (Nat.le_succ t)
    rw [List.flatMap_congr blocks, whole, share_zero, share_last pos, Nat.sub_zero, ← List.range_eq_range']
    rfl
  · rw [len t ht, len u hu]
    split <;> split <;> omega

lemma staticRange_eq {range : NdRange} {tid : Nat} (dim : range.dim = 1) (one : (range.ndRange 0).blocksize = 1)
    (dir : (range.ndRange 0).Before (range.ndRange 0).lower (range.ndRange 0).upper) :
    staticRange (calcChunkInfo range) tid tnum = (range.ndRange 0).cut (share (range.ndRange 0).size tnum tid)
        (share (range.ndRange 0).size tnum (tid + 1)) := by
  obtain ⟨r, hr⟩ : ∃ r, r = range.ndRange 0 := ⟨_, rfl⟩
  have chunks := calcChunk_size one dir
  have chunksize : (calcChunk r).chunksize = r.step := by
    simp [calcChunk, hr, one]
  have total : (calcChunkInfo range).totalChunks = r.size := by
    simp [calcChunkInfo, dim, chunks, hr]
  rw [← hr] at chunks ⊢
  have base : (r.size : Int).tdiv tnum = (r.size / tnum : Nat) := Int.ofNat_tdiv _ _
  have remain : (r.size : Int).tmod tnum = (r.size % tnum : Nat) := Int.ofNat_tmod _ _
  have info : (calcChunkInfo range).chunkInfo 0 = calcChunk r := by rw [hr]; rfl
  have whole : (calcChunkInfo range).range.ndRange 0 = r := hr.symm
  simp only [staticRange, total, info, whole, chunks, chunksize, base, remain, KuplRange.cut, share]
  generalize r.size / tnum = q
  generalize r.size % tnum = m
  congr 1
  · push_cast
    ring
  · congr 1
    push_cast
    ring

lemma staticRange_blocks {range : NdRange} (dim : range.dim = 1) (one : (range.ndRange 0).blocksize = 1)
    (dir : (range.ndRange 0).Before (range.ndRange 0).lower (range.ndRange 0).upper)
    (pos : 1 ≤ tnum) (le : tnum ≤ (calcChunkInfo range).totalChunks) :
    Splits (range.ndRange 0) tnum fun tid => staticRange (calcChunkInfo range) tid tnum := by
  have blocks : (fun tid => staticRange (calcChunkInfo range) tid tnum) = fun t =>
      (range.ndRange 0).cut (share (range.ndRange 0).size tnum t)
        (share (range.ndRange 0).size tnum (t + 1)) :=
    funext fun tid => staticRange_eq dim one dir
  rw [blocks]
  refine splits_share dir.step_ne pos ?_
  have total : (calcChunkInfo range).totalChunks = (range.ndRange 0).size := by
    simp [calcChunkInfo, dim, calcChunk_size one dir]
  omega

end Block

/-- The blocks of the threads of an accepted one-dimensional range split it. -/
theorem staticRange_splits {range r : NdRange} {tnum : Nat} (h : checkRange range .static = some r)
    (dim : r.dim = 1) (pos : 1 ≤ tnum) (le : tnum ≤ (calcChunkInfo r).totalChunks) :
    Splits (r.ndRange 0) tnum fun tid => staticRange (calcChunkInfo r) tid tnum := by
  obtain ⟨c, hc⟩ := (checkRange_spec h).2.2.2 0 (by rw [dim]; decide)
  exact staticRange_blocks dim (checkDim_static hc) (checkDim_before hc) pos le

/-- Ten iterates downwards on three threads. -/
theorem staticRange_splits_down : ∃ r, checkRange ⟨1, fun _ => ⟨30, 1, -3, 0⟩⟩ .static = some r ∧
    Splits (r.ndRange 0) 3 fun tid => staticRange (calcChunkInfo r) tid 3 := by
  have accepted : (checkRange ⟨1, fun _ => ⟨30, 1, -3, 0⟩⟩ .static).isSome := by decide
  obtain ⟨r, hr⟩ := Option.isSome_iff_exists.1 accepted
  obtain ⟨-, -, dim, dims⟩ := checkRange_spec hr
  have whole : r.ndRange 0 = ⟨30, 1, -3, 1⟩ := by
    obtain ⟨c, hc⟩ := dims 0 (by rw [dim]; decide)
    have : checkDim .static ⟨30, 1, -3, 0⟩ = some (⟨30, 1, -3, 1⟩, -3) := by decide
    exact (congrArg Prod.fst (Option.some.inj (this.symm.trans hc))).symm
  refine ⟨r, hr, staticRange_splits hr dim (by decide) ?_⟩
  have chunks : calcChunk ⟨30, 1, -3, 1⟩ = ⟨-3, 10⟩ := by decide
  simp [calcChunkInfo, dim, whole, chunks]

end Kupl.Range
