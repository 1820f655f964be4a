import Kupl.Loop.Slot
import Kupl.Range.Halves

/-!
# Overflow in the computations of a loop

All arithmetic on `int64_t` that `kupl_parallel_for` does for a range that `kupl_check_range` accepts,
from the check itself to the bounds of every thread, chunk and task, and the number of threads of the
call (`NoOverflow`). `noOverflow_iff` says for which ranges and groups it stays in bounds (`Room`).

An overflow remains in three places. `kupl_divup` adds the length of a dimension and its chunk before it
takes `1` away. The block of the last thread is computed up to the end of its last chunk, which the
check does not look at under `KUPL_LOOP_POLICY_STATIC`. A cut of `divide_range` may fall behind the
least value. A group that the caller inherits is not checked for members.
-/

namespace Kupl.Loop
open Kupl.Range Kupl.Group Kupl.Word

/-- Nothing that a loop computes of its accepted range leaves `int64_t` or divides by zero, for any of
`n` threads, and the number of threads of the call is at least one and within its concurrency. -/
structure NoOverflow (env : Env) (desc : PfDesc) (group : Option EgroupInfo) (range : NdRange)
    (policy : LoopPolicy) (r : NdRange) (n : Nat) : Prop where
  check : checkRange64 range policy = some (some r)
  numThreads : (rangeChunks64 r).isSome
  chunkInfo : (totalChunks64 r).isSome
  static : policy = .static → r.dim = 1 → ∀ tid < n, (staticRange64 (calcChunkInfo r) tid n).isSome
  ndStatic : policy = .static → r.dim ≠ 1 → ∀ tid < n, (ndStaticRange64 r tid n).isSome
  prepare : policy = .dynamic → ∀ i < n, (chunkIndex64 (calcChunkInfo r).totalChunks n i).isSome
  chunk : policy = .dynamic → ∀ i, 0 ≤ i → i < (calcChunkInfo r).totalChunks →
    (computeChunkRange64 (calcChunkInfo r) r i).isSome
  task : policy = .task → ∀ t, 0 ≤ t → t < ((calcChunkInfo r).chunkInfo 0).chunks →
    (taskChunk64 (r.ndRange 0) ((calcChunkInfo r).chunkInfo 0).chunksize t).isSome
  threads : 1 ≤ parallelForNumThreads env desc group ∧
    parallelForNumThreads env desc group ≤ desc.concurrency

/-- The first iterate that is not before `upper` is an `int64_t`. -/
def EndFits (r : KuplRange) : Prop :=
  ∃ k : Nat, Fits 64 (r.lower + k * r.step) ∧ ¬r.Before (r.lower + k * r.step) r.upper

/-- A range and a group that leave room for the computations of a loop with `n` threads. -/
structure Room (group : Option EgroupInfo) (policy : LoopPolicy) (r : NdRange) (n : Nat) : Prop where
  roomy : r.Roomy
  last : policy = .static → r.dim = 1 → EndFits (r.ndRange 0)
  cuts : policy = .static → r.dim ≠ 1 → CutsFit (calcChunkInfo r) n r n
  members : ∀ g, group = some g → curSize g ≠ 0

section Threads
variable {env : Env} {desc : PfDesc} {group : Option EgroupInfo} {r : NdRange}

lemma numThreads_bounds {N : Int} (range : desc.range = some r)
    (chunks : (List.range r.dim.toNat).foldl (fun n d => n * dimChunks (r.ndRange d)) 1 = N)
    (one : 1 ≤ N) (conc : 1 ≤ desc.concurrency) (kernel : 1 ≤ env.kernelConcurrency) :
    (1 ≤ parallelForNumThreads env desc group ∧
      parallelForNumThreads env desc group ≤ desc.concurrency) ↔
        ∀ g, group = some g → curSize g ≠ 0 := by
  unfold parallelForNumThreads
  rw [range]
  simp only [chunks]
  cases group with
  | none =>
    refine iff_of_true ⟨?_, ?_⟩ (fun g hg => nomatch hg)
    · simp only [le_inf_iff]
      exact ⟨⟨conc, one⟩, kernel⟩
    · exact (min_le_left _ _).trans (min_le_left _ _)
  | some g =>
    constructor
    · intro ⟨pos, _⟩ g' eq zero
      cases eq
      simp only [le_inf_iff] at pos
      omega
    · intro members
      have pos := members g rfl
      refine ⟨?_, ?_⟩
      · simp only [le_inf_iff]
        exact ⟨⟨⟨conc, one⟩, by omega⟩, kernel⟩
      · exact (min_le_left _ _).trans ((min_le_left _ _).trans (min_le_left _ _))

end Threads

section Static
variable {d : KuplRange} {M : Nat}

lemma before_iff_lt (ok : DimOk .static d d.step) (hM : (calcChunk d).chunks = M) (k : Nat) :
    d.Before (d.lower + k * d.step) d.upper ↔ k < M := by
  have chunk := lt_chunks (i := k) ok.blocksize ok.before
  rw [hM, ok.single rfl, Nat.cast_lt, Int.toNat_one, Nat.mul_one] at chunk
  rw [chunk, KuplRange.lt_size ok.before.step_ne]

lemma endFits_iff (ok : DimOk .static d d.step) (hl : Fits 64 d.lower)
    (hM : (calcChunk d).chunks = M) : EndFits d ↔ Fits 64 (d.lower + M * d.step) := by
  constructor
  · intro ⟨k, fit, behind⟩
    rw [before_iff_lt ok hM, not_lt] at behind
    have le : (M : Int) ≤ k := by exact_mod_cast behind
    rcases ok.dir with ⟨up, -⟩ | ⟨down, -⟩
    · have h1 : 0 ≤ (M : Int) * d.step := mul_nonneg (by omega) up.le
      have h2 : (M : Int) * d.step ≤ k * d.step := mul_le_mul_of_nonneg_right le up.le
      exact hl.between fit (by omega) (by omega)
    · have h1 : (M : Int) * d.step ≤ 0 := mul_nonpos_of_nonneg_of_nonpos (by omega) down.le
      have h2 : (k : Int) * d.step ≤ M * d.step := mul_le_mul_of_nonpos_right le down.le
      exact fit.between hl (by omega) (by omega)
  · intro fit
    refine ⟨M, fit, ?_⟩
    rw [before_iff_lt ok hM]
    omega

lemma staticBlocks_iff {r : NdRange} {n : Nat} (dim : r.dim = 1) (ok : RangeOk .static r)
    (roomy : r.Roomy) (pos : 1 ≤ n) (le : n ≤ (calcChunkInfo r).totalChunks) :
    (∀ tid < n, (staticRange64 (calcChunkInfo r) tid n).isSome) ↔ EndFits (r.ndRange 0) := by
  have first : 0 < r.dim.toNat := by rw [dim]; decide
  obtain ⟨c, hc, -⟩ := ok.dims 0 first
  have step : c = (r.ndRange 0).step := by rw [hc.chunksize, hc.single rfl, mul_one]
  subst step
  obtain ⟨N, hN⟩ : ∃ N : Nat, (calcChunkInfo r).totalChunks = N :=
    Int.eq_ofNat_of_zero_le (by omega)
  have hM : (calcChunk (r.ndRange 0)).chunks = N := by
    rw [← hN]
    simp [calcChunkInfo, dim]
  have some : ∀ tid < n, ((staticRange64 (calcChunkInfo r) tid n).isSome ↔
      tid + 1 < n ∨ Fits 64 ((r.ndRange 0).lower + N * (r.ndRange 0).step)) := fun tid lt =>
    staticRange64_isSome dim ok hc (roomy 0 first) hM lt (by omega)
  rw [endFits_iff hc (ok.lower 0 first) hM]
  constructor
  · intro all
    cases (some (n - 1) (by omega)).1 (all _ (by omega)) with
    | inl lt => omega
    | inr fit => exact fit
  · exact fun fit tid lt => (some tid lt).2 (.inr fit)

lemma staticBoxes_iff {r : NdRange} {n : Nat} (ok : RangeOk .static r) (roomy : r.Roomy)
    (pos : 1 ≤ n) : (∀ tid < n, (ndStaticRange64 r tid n).isSome) ↔
      CutsFit (calcChunkInfo r) n r n := by
  have boxes := @divideRange64_isSome r ok roomy n r 0 n pos (fun _ => Inside.refl r)
  rw [← boxes]
  constructor
  · exact fun all tid _ lt => all tid (by omega)
  · exact fun all tid lt => all tid (by omega) (by omega)

end Static

/-- A loop on an accepted range stays in bounds if and only if the range and its group leave room. -/
theorem noOverflow_iff {env : Env} {desc : PfDesc} {range r : NdRange} {policy : LoopPolicy} {n : Nat}
    (group : Option EgroupInfo) (accepted : checkRange range policy = some r)
    (typed : ∀ d < range.dim.toNat, (range.ndRange d).Typed) (hr : desc.range = some r)
    (conc : 1 ≤ desc.concurrency) (kernel : 1 ≤ env.kernelConcurrency) (pos : 1 ≤ n)
    (le : n ≤ (calcChunkInfo r).totalChunks) :
    NoOverflow env desc group range policy r n ↔ Room group policy r n := by
  have ok := checkRange_ok accepted typed
  obtain ⟨bound, -, check⟩ := checkRange64_eq accepted typed
  have members := @numThreads_bounds env desc group r _ hr (rangeChunks_eq accepted)
    (by omega) conc kernel
  have blocks : policy = .static → r.dim = 1 → r.Roomy →
      ((∀ tid < n, (staticRange64 (calcChunkInfo r) tid n).isSome) ↔ EndFits (r.ndRange 0)) := by
    intro static dim roomy
    subst static
    exact staticBlocks_iff dim ok roomy pos le
  have boxes : policy = .static → r.Roomy →
      ((∀ tid < n, (ndStaticRange64 r tid n).isSome) ↔ CutsFit (calcChunkInfo r) n r n) := by
    intro static roomy
    subst static
    exact staticBoxes_iff ok roomy pos
  constructor
  · intro safe
    have roomy : r.Roomy := by
      by_contra tight
      have tight : ¬∀ d < r.dim.toNat, (r.ndRange d).Roomy := tight
      have fails := safe.check
      rw [check, if_neg tight] at fails
      cases fails
    exact {
      roomy
      last := fun static dim => (blocks static dim roomy).1 (safe.static static dim)
      cuts := fun static dim => (boxes static roomy).1 (safe.ndStatic static dim)
      members := members.1 safe.threads }
  · intro room
    have roomy : ∀ d < r.dim.toNat, (r.ndRange d).Roomy := room.roomy
    obtain ⟨-, numThreads, chunkInfo⟩ := ok.chunks64 roomy
    have first : 0 < r.dim.toNat := by
      have := ok.pos
      omega
    obtain ⟨c, hc, count⟩ := ok.dims 0 first
    exact {
      check := by rw [check, if_pos roomy]
      numThreads := by rw [numThreads]; rfl
      chunkInfo := by rw [chunkInfo]; rfl
      static := fun static dim => (blocks static dim roomy).2 (room.last static dim)
      ndStatic := fun static dim => (boxes static roomy).2 (room.cuts static dim)
      prepare := by
        intro _ i lt
        obtain ⟨N, hN⟩ : ∃ N : Nat, (calcChunkInfo r).totalChunks = N :=
          Int.eq_ofNat_of_zero_le (by omega)
        rw [hN] at bound le ⊢
        exact chunkIndex64_isSome bound pos (by omega) lt
      chunk := by
        intro dynamic i nonneg lt
        rw [computeChunkRange64_eq ok roomy (by rw [dynamic]; decide) rfl nonneg (by omega)]
        rfl
      task := by
        intro task t nonneg lt
        have le := hc.chunks_le.2
        have lt : t < (calcChunk (r.ndRange 0)).chunks := lt
        have chunk : ((calcChunkInfo r).chunkInfo 0).chunksize = c := hc.chunksize.symm
        rw [chunk, taskChunk64_eq hc (by rw [task]; decide) (roomy 0 first) (ok.lower 0 first)
          (ok.upper 0 first) nonneg lt (by omega)]
        rfl
      threads := members.2 room.members }

def lineCall (lower upper step : Int) : PfDesc where
  fieldMask := fieldDefault
  range := checkRange ⟨1, fun _ => ⟨lower, upper, step, 1⟩⟩ .static
  egroup := none
  concurrency := 4
  policy := .static

/-- Ten iterates downwards on three threads. -/
theorem noOverflow_down : ∃ r, checkRange ⟨1, fun _ => ⟨30, 1, -3, 1⟩⟩ .static = some r ∧
    NoOverflow ⟨4, 1, 4, false, true, 0, 0, none⟩ (lineCall 30 1 (-3)) none
      ⟨1, fun _ => ⟨30, 1, -3, 1⟩⟩ .static r 3 := by
  have accepted : (checkRange ⟨1, fun _ => ⟨30, 1, -3, 1⟩⟩ .static).isSome := by decide
  obtain ⟨r, hr⟩ := Option.isSome_iff_exists.1 accepted
  obtain ⟨-, -, dim, dims⟩ := checkRange_spec hr
  have dim : r.dim = 1 := dim
  have whole : r.ndRange 0 = ⟨30, 1, -3, 1⟩ := by
    obtain ⟨c, hc⟩ := dims 0 (by rw [dim]; decide)
    have line : checkDim .static ⟨30, 1, -3, 1⟩ = some (⟨30, 1, -3, 1⟩, -3) := by decide
    exact (congrArg Prod.fst (Option.some.inj (line.symm.trans hc))).symm
  have chunks : calcChunk ⟨30, 1, -3, 1⟩ = ⟨-3, 10⟩ := by decide
  have room : Room none .static r 3 := {
    roomy := by
      intro d hd
      rw [dim] at hd
      obtain rfl : d = 0 := by
        have : d < 1 := hd
        omega
      rw [whole]
      decide
    last := by
      intro _ _
      rw [whole]
      exact ⟨10, by decide, by decide⟩
    cuts := fun _ ne => absurd dim ne
    members := fun g hg => nomatch hg }
  refine ⟨r, hr, (noOverflow_iff none hr ?_ hr (by decide) (by decide) (by decide) ?_).2 room⟩
  · intro d _
    have typed : KuplRange.Typed ⟨30, 1, -3, 1⟩ := ⟨by decide, by decide, by decide, by decide⟩
    exact typed
  · simp [calcChunkInfo, dim, whole, chunks]

/-- On the iterates of step `3` from `2 ^ 62 + 1` up to `INT64_MAX` the bound of the last thread
overflows; on those of step `-2` from `INT64_MAX - 1` down to `0`, the check itself. -/
theorem overflow_end :
    (∃ r, checkRange ⟨1, fun _ => ⟨2 ^ 62 + 1, 2 ^ 63 - 1, 3, 1⟩⟩ .static = some r ∧
      ∀ env desc group, ¬NoOverflow env desc group
        ⟨1, fun _ => ⟨2 ^ 62 + 1, 2 ^ 63 - 1, 3, 1⟩⟩ .static r 1) ∧
    ∃ r, checkRange ⟨1, fun _ => ⟨2 ^ 63 - 2, 0, -2, 1⟩⟩ .dynamic = some r ∧
      ∀ env desc group, ¬NoOverflow env desc group
        ⟨1, fun _ => ⟨2 ^ 63 - 2, 0, -2, 1⟩⟩ .dynamic r 1 := by
  have accepted : (checkRange ⟨1, fun _ => ⟨2 ^ 62 + 1, 2 ^ 63 - 1, 3, 1⟩⟩ .static).isSome := by decide
  obtain ⟨r, hr⟩ := Option.isSome_iff_exists.1 accepted
  have accepted' : (checkRange ⟨1, fun _ => ⟨2 ^ 63 - 2, 0, -2, 1⟩⟩ .dynamic).isSome := by decide
  obtain ⟨r', hr'⟩ := Option.isSome_iff_exists.1 accepted'
  refine ⟨⟨r, hr, fun env desc group safe => ?_⟩, r', hr', fun env desc group safe => ?_⟩
  · have bad : (checkRange ⟨1, fun _ => ⟨2 ^ 62 + 1, 2 ^ 63 - 1, 3, 1⟩⟩ .static).all fun r =>
        decide (r.dim = 1) && (staticRange64 (calcChunkInfo r) 0 1).isNone := by decide
    rw [hr] at bad
    simp only [Option.all_some, Bool.and_eq_true, decide_eq_true_eq] at bad
    have last := safe.static rfl bad.1 0 (by decide)
    rw [Option.isNone_iff_eq_none.1 bad.2] at last
    cases last
  · have bad : (checkRange64 ⟨1, fun _ => ⟨2 ^ 63 - 2, 0, -2, 1⟩⟩ .dynamic).isNone := by decide
    rw [safe.check] at bad
    cases bad

end Kupl.Loop
