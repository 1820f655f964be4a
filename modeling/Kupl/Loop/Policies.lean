import Kupl.Loop.Dynamic
import Kupl.Loop.TaskLoop
import Kupl.Range.Static

/-!
# One loop under three policies

What the iterations of a one-dimensional loop visit under `KUPL_LOOP_POLICY_STATIC`, `_DYNAMIC` and
`_TASK`. The bounds of a chunk are computed in three places of `mt/kupl_parallel_for.cpp`:
`kupl_static_policy_impl`, `kupl_compute_chunk_range` and `task_policy_loop_func`. The last one takes
the minimum of two bounds in either direction; `visits_agree_iff` says for which loops this makes no
difference.
-/

namespace Kupl.Loop
open Kupl.Range Kupl.Group Kupl.Cut

/-- The loop indices that the threads of a region on a checked range visit in some run. -/
inductive Visits (r : NdRange) (tnum : Nat) : LoopPolicy → List Int → Prop where
  /-- Every thread runs its own block. -/
  | static {order : List Nat} : order.Perm (List.range tnum) → Visits r tnum .static
        (order.flatMap fun tid => (staticRange (calcChunkInfo r) tid tnum).iterates)
  /-- The threads take chunks until all of them have left. -/
  | dynamic {pf : Pf} {s : DynamicState} : pf.numThreads = tnum →
      (dynamicLoop (dynamicPrepareCommon pf r) r).Reachable s →
      (∀ tid < tnum, (s.threads tid).pc = .left) →
      Visits r tnum .dynamic (s.log.flatMap fun c => (c.ndRange 0).iterates)
  /-- The tasks of the executors `eids` run in some order. -/
  | task {region master : Nat} {eids : List Nat} {tasks : List Task} : eids.length = tnum →
      tasks.Perm (regionTasks region master ((calcChunkInfo r).totalChunks.tdiv tnum)
        ((calcChunkInfo r).totalChunks.tmod tnum) eids 0 0) →
      Visits r tnum .task (tasks.flatMap fun t => (taskChunk (r.ndRange 0)
        ((calcChunkInfo r).chunkInfo 0).chunksize t.taskId).iterates)

/-- Every run of a loop under any policy that accepts its range, on any number of threads up to the
number of its chunks, visits the indices of the sequential loop, each once. -/
def PoliciesAgree (range : NdRange) : Prop :=
  ∀ (policy : LoopPolicy) (r : NdRange) (tnum : Nat) (l : List Int),
    checkRange range policy = some r → 1 ≤ tnum → tnum ≤ (calcChunkInfo r).totalChunks →
      Visits r tnum policy l → l.Perm (range.ndRange 0).iterates

section Fit
variable {r : KuplRange} {x : Int}

lemma count_of_two (hb : 1 ≤ r.blocksize) (down : r.step < 0) (dir : r.Before r.lower r.upper)
    (two : 1 < (calcChunk r).chunks) (x : Int) (hx : x = r.lower + r.step * r.blocksize) :
    (List.range (calcChunk r).chunks.toNat).countP
      (fun t : Nat => decide ((taskChunk r (r.step * r.blocksize) t).Mem x)) ≠ 1 := by
  have before := (lt_chunks (i := 1) hb dir).1 two
  rw [KuplRange.lt_size dir.step_ne] at before
  have place : r.lower + ((1 * r.blocksize.toNat : Nat) : Int) * r.step = x := by
    rw [Nat.one_mul, Int.toNat_of_nonneg (by omega), hx]
    ring
  rw [place] at before
  have lt : r.upper < x := by
    rcases before with ⟨pos, -⟩ | ⟨-, lt⟩
    · omega
    · exact lt
  have first : (taskChunk r (r.step * r.blocksize) (0 : Nat)).Mem x := by
    refine ⟨r.blocksize.toNat, ?_, .inr ⟨down, ?_⟩⟩
    · simp only [taskChunk]
      rw [Int.toNat_of_nonneg (by omega), hx]
      push_cast
      ring
    · exact (min_le_left _ _).trans_lt lt
  have second : (taskChunk r (r.step * r.blocksize) (1 : Nat)).Mem x := by
    refine ⟨0, ?_, .inr ⟨down, (min_le_left _ _).trans_lt lt⟩⟩
    simp only [taskChunk]
    rw [hx]
    push_cast
    ring
  intro one
  obtain ⟨t, -, uniq⟩ := countP_eq_one_iff.1 one
  have h0 := uniq 0 ⟨0, List.getElem?_range (by omega), decide_eq_true first⟩
  have h1 := uniq 1 ⟨1, List.getElem?_range (by omega), decide_eq_true second⟩
  omega

lemma mem_of_one (hb : 1 ≤ r.blocksize) (down : r.step < 0) :
    (taskChunk r (r.step * r.blocksize) (0 : Nat)).Mem (r.lower + (r.blocksize - 1) * r.step) := by
  refine ⟨r.blocksize.toNat - 1, ?_, .inr ⟨down, ?_⟩⟩
  · simp only [taskChunk]
    rw [Nat.cast_sub (by omega), Int.toNat_of_nonneg (by omega)]
    push_cast
    ring
  · refine (min_le_right _ _).trans_lt ?_
    push_cast
    linarith

lemma chunksFit_of_count (hb : 1 ≤ r.blocksize) (dir : r.Before r.lower r.upper)
    (count : ∀ x, (List.range (calcChunk r).chunks.toNat).countP
      (fun t : Nat => decide ((taskChunk r (r.step * r.blocksize) t).Mem x)) =
        if r.Mem x then 1 else 0) : r.ChunksFit := by
  rcases lt_or_gt_of_ne dir.step_ne with down | up
  · right
    have pos : 0 < (calcChunk r).chunks := by
      have := (lt_chunks (i := 0) hb dir).2 (by
        rw [Nat.zero_mul, KuplRange.lt_size dir.step_ne]
        simpa using dir)
      exact_mod_cast this
    have single : (calcChunk r).chunks = 1 := by
      by_contra ne
      have two : 1 < (calcChunk r).chunks := by omega
      have mem : r.Mem (r.lower + r.step * r.blocksize) := by
        have before := (lt_chunks (i := 1) hb dir).1 two
        rw [KuplRange.lt_size dir.step_ne] at before
        have place : r.lower + ((1 * r.blocksize.toNat : Nat) : Int) * r.step = r.lower + r.step * r.blocksize := by
          rw [Nat.one_mul, Int.toNat_of_nonneg (by omega)]
          ring
        exact ⟨_, place.symm, place ▸ before⟩
      have := count (r.lower + r.step * r.blocksize)
      rw [if_pos mem] at this
      exact count_of_two hb down dir two _ rfl this
    refine ⟨single, ?_⟩
    by_contra out
    have none : ¬r.Mem (r.lower + (r.blocksize - 1) * r.step) := by
      rintro ⟨-, -, before⟩
      exact out before
    have zero := count (r.lower + (r.blocksize - 1) * r.step)
    rw [if_neg none, List.countP_eq_zero] at zero
    exact zero 0 (List.mem_range.2 (by omega))
      (decide_eq_true (mem_of_one hb down))
  · exact .inl up

end Fit

section Agree
variable {range r : NdRange} {policy : LoopPolicy} {tnum : Nat} {l : List Int}

structure Checked (range r : NdRange) : Prop where
  dim : r.dim = 1
  sound : r.Sound
  iterates : (r.ndRange 0).iterates = (range.ndRange 0).iterates

lemma checked_of_checkRange (h : checkRange range policy = some r) (dim : range.dim = 1) : Checked range r := by
  obtain ⟨-, -, eq, dims⟩ := checkRange_spec h
  obtain ⟨c, hc⟩ := dims 0 (by rw [eq, dim]; decide)
  obtain ⟨lower, upper, step⟩ := checkDim_bounds hc
  refine ⟨eq.trans dim, checkRange_sound h, ?_⟩
  simp only [KuplRange.iterates, KuplRange.size, lower, upper, step]

section
variable (c : Checked range r)
include c

lemma Checked.blocksize : 1 ≤ (r.ndRange 0).blocksize :=
  c.sound.blocksize 0 (by rw [c.dim]; decide)

lemma Checked.before : (r.ndRange 0).Before (r.ndRange 0).lower (r.ndRange 0).upper :=
  c.sound.before 0 (by rw [c.dim]; decide)

lemma Checked.totalChunks : (calcChunkInfo r).totalChunks = (calcChunk (r.ndRange 0)).chunks := by
  simp [calcChunkInfo, c.dim]

omit c in
lemma mem_line {x : Int} (dim : r.dim = 1) : r.Mem (fun _ => x) ↔ (r.ndRange 0).Mem x := by
  constructor
  · intro h
    exact h 0 (by rw [dim]; decide)
  · intro h d hd
    have zero : d = 0 := by omega
    rwa [zero]

lemma visits_static (one : (r.ndRange 0).blocksize = 1) (pos : 1 ≤ tnum)
    (le : (tnum : Int) ≤ (calcChunkInfo r).totalChunks) {order : List Nat} (perm : order.Perm (List.range tnum)) :
    (order.flatMap fun tid => (staticRange (calcChunkInfo r) tid tnum).iterates).Perm
      (r.ndRange 0).iterates := by
  rw [← (staticRange_blocks c.dim one c.before pos le).iterates]
  exact perm.flatMap_right _

lemma visits_dynamic (pos : 1 ≤ tnum) (le : (tnum : Int) ≤ (calcChunkInfo r).totalChunks) {pf : Pf}
    {s : DynamicState}
    (num : pf.numThreads = tnum) (reach : (dynamicLoop (dynamicPrepareCommon pf r) r).Reachable s)
    (left : ∀ tid < tnum, (s.threads tid).pc = .left) :
    (s.log.flatMap fun c => (c.ndRange 0).iterates).Perm (r.ndRange 0).iterates := by
  obtain ⟨shape, count⟩ := dynamicLoop_count c.sound (by omega) (by omega) reach
    fun tid lt => left tid (by omega)
  rw [perm_iterates_iff]
  intro x
  have line := count fun _ => x
  simp only [mem_line c.dim] at line
  rw [← line]
  refine List.countP_congr fun chunk hc => ?_
  rw [decide_eq_true_eq, decide_eq_true_eq, mem_line ((shape chunk hc).dim.trans c.dim)]

lemma visits_task_iff (pos : 1 ≤ tnum) {region master : Nat} {eids : List Nat}
    (num : eids.length = tnum) {tasks : List Task}
    (perm : tasks.Perm (regionTasks region master ((calcChunkInfo r).totalChunks.tdiv tnum)
      ((calcChunkInfo r).totalChunks.tmod tnum) eids 0 0)) :
    (tasks.flatMap fun t => (taskChunk (r.ndRange 0) ((calcChunkInfo r).chunkInfo 0).chunksize
      t.taskId).iterates).Perm (r.ndRange 0).iterates ↔ (r.ndRange 0).ChunksFit := by
  have nonneg := calcChunk_nonneg c.blocksize c.before
  have ids : (tasks.map Task.taskId).Perm
      (List.range (calcChunk (r.ndRange 0)).chunks.toNat) := by
    refine (perm.map Task.taskId).trans ?_
    have threads : eids.length = (tnum : Int).toNat := by omega
    rw [c.totalChunks, regionTasks_ids (Int.tdiv_nonneg nonneg (by omega)), threads,
      divide_total nonneg (by omega), List.range_eq_range']
  have counts : ∀ x, tasks.countP (fun t => decide ((taskChunk (r.ndRange 0)
        ((calcChunkInfo r).chunkInfo 0).chunksize t.taskId).Mem x)) =
      (List.range (calcChunk (r.ndRange 0)).chunks.toNat).countP (fun t : Nat =>
        decide ((taskChunk (r.ndRange 0) ((r.ndRange 0).step * (r.ndRange 0).blocksize) t).Mem x)) := by
    intro x
    rw [← ids.countP_eq, List.countP_map]
    rfl
  rw [perm_iterates_iff]
  simp only [counts]
  constructor
  · intro count
    exact chunksFit_of_count c.blocksize c.before count
  · intro fit
    exact taskChunk_count c.blocksize c.before fit

end

/-- The policies agree on a one-dimensional loop if and only if the chunks of its tasks fit the range. -/
theorem policiesAgree_iff (dim : range.dim = 1) :
    PoliciesAgree range ↔ ∀ r, checkRange range .task = some r → (r.ndRange 0).ChunksFit := by
  constructor
  · intro agree r accepted
    have c := checked_of_checkRange accepted dim
    have chunk : ((1 : Nat) : Int) ≤ (calcChunkInfo r).totalChunks := by
      rw [c.totalChunks]
      exact c.sound.chunks_pos (by rw [c.dim]; decide)
    have run := agree .task r 1 _ accepted le_rfl chunk (@Visits.task r 1 0 0 [0] _ rfl (.refl _))
    rw [← c.iterates] at run
    exact (visits_task_iff c le_rfl rfl (.refl _)).1 run
  · intro fit policy r tnum l accepted pos le visits
    have c := checked_of_checkRange accepted dim
    rw [← c.iterates]
    cases visits with
    | static perm =>
      obtain ⟨_, hc⟩ := (checkRange_spec accepted).2.2.2 0 (by rw [c.dim]; decide)
      exact visits_static c (checkDim_static hc) pos le perm
    | dynamic num reach left => exact visits_dynamic c pos le num reach left
    | task num perm => exact (visits_task_iff c pos num perm).2 (fit r accepted)

/-- Four iterates upwards. -/
theorem policiesAgree_up : PoliciesAgree ⟨1, fun _ => ⟨0, 10, 3, 2⟩⟩ := by
  refine (policiesAgree_iff rfl).2 fun r accepted => .inl ?_
  obtain ⟨-, -, dim, dims⟩ := checkRange_spec accepted
  obtain ⟨c, hc⟩ := dims 0 (by rw [dim]; decide)
  rw [(checkDim_bounds hc).2.2]
  decide

/-- Four iterates downwards in two chunks: the first chunk has all of them. -/
theorem policies_differ_down : (∀ policy, (checkRange ⟨1, fun _ => ⟨4, 0, -1, 2⟩⟩ policy).isSome = true) ∧
      ¬PoliciesAgree ⟨1, fun _ => ⟨4, 0, -1, 2⟩⟩ := by
  refine ⟨fun policy => by cases policy <;> decide, fun agree => ?_⟩
  obtain ⟨r, accepted⟩ := Option.isSome_iff_exists.1
    (show (checkRange ⟨1, fun _ => ⟨4, 0, -1, 2⟩⟩ .task).isSome = true by decide)
  have c := checked_of_checkRange accepted rfl
  obtain ⟨_, hc⟩ := (checkRange_spec accepted).2.2.2 0 (by rw [c.dim]; decide)
  have whole : r.ndRange 0 = ⟨4, 0, -1, 2⟩ := by
    have : checkDim .task ⟨4, 0, -1, 2⟩ = some (⟨4, 0, -1, 2⟩, -2) := by decide
    exact (congrArg Prod.fst (Option.some.inj (this.symm.trans hc))).symm
  have chunks : ((1 : Nat) : Int) ≤ (calcChunkInfo r).totalChunks := by
    rw [c.totalChunks, whole]
    decide
  have run := agree .task r 1 _ accepted le_rfl chunks (@Visits.task r 1 0 0 [0] _ rfl (.refl _))
  rw [← c.iterates] at run
  have fit := (visits_task_iff c le_rfl rfl (.refl _)).1 run
  rw [whole] at fit
  exact absurd fit (by decide)

end Agree
end Kupl.Loop
