import Kupl.Loop.Region
import Kupl.Machine.Run
import Kupl.Range.Dynamic

/-!
# Loops under the dynamic policy

`kupl_dynamic_policy_impl` of `mt/kupl_parallel_for.cpp`. The chunks of a range are handed out by one
counter for each thread number, `kupl_pf_t::chunk_index`. A thread takes chunks of its own counter
first and then goes through the counters of the others: it loads a counter, and while the number is
below the target of the counter it fetches and increments it and passes the chunk of that number to
the user function.

`dynamicLoop` is the machine of the threads `0, …, num_threads - 1` of one region, interleaved at their
accesses to the counters; the user function returns with the range of its thread as it was.
`dynamicLoop_once` says that the calls cover the range once.
-/

namespace Kupl.Loop
open Kupl.Range Kupl.Group Kupl.Cut
open Function (update update_of_ne update_self)

/-- Where a thread is in the loops of `kupl_dynamic_policy_impl`. -/
inductive DynamicPc where
  /-- At the head of the loop over the counters. -/
  | load
  /-- At the head of the loop over the chunks of a counter. -/
  | test
  /-- About to call the user function. -/
  | call
  /-- Out of the loops. -/
  | left
  deriving DecidableEq, Repr

structure DynamicThread where
  pc : DynamicPc
  range : NdRange
  targetTid : Nat
  loopCount : Nat
  chunkIndex : Int
  targetIndex : Int

/-- The counters, the threads, and the ranges passed to the user function so far. -/
structure DynamicState where
  chunkIndex : Nat → ChunkIndex
  threads : Nat → DynamicThread
  log : List NdRange

/-- The counter a thread is about to read: the first one comes behind the last one. -/
def wrapTid (tnum targetTid : Nat) : Nat := if targetTid ≥ tnum then 0 else targetTid

def DynamicThread.next (p : DynamicThread) : DynamicThread :=
  { p with pc := .load, targetTid := p.targetTid + 1, loopCount := p.loopCount + 1 }

/-- A counter after `KUPL_ARCH_ATOMIC_ADD_RLX`. -/
def ChunkIndex.add (c : ChunkIndex) : ChunkIndex := { c with value := c.value + 1 }

/-- One step of thread `tid` of `tnum`. -/
def dynamicStep (pf : PfRange) (tnum : Nat) (s : DynamicState) (tid : Nat) : Option DynamicState :=
  if tid ≥ tnum then none
  else
    let p := s.threads tid
    let goto (p : DynamicThread) : DynamicState :=
      { s with threads := update s.threads tid p }
    match p.pc with
    | .load =>
      if p.loopCount < tnum then
        let targetTid := wrapTid tnum p.targetTid
        some (goto { p with
          pc := .test
          targetTid
          chunkIndex := (s.chunkIndex targetTid).value
          targetIndex := (s.chunkIndex targetTid).target })
      else some (goto { p with pc := .left })
    | .test =>
      if p.chunkIndex < p.targetIndex then
        let chunkIndex := (s.chunkIndex p.targetTid).value
        let counters := update s.chunkIndex p.targetTid (s.chunkIndex p.targetTid).add
        if chunkIndex ≥ p.targetIndex then
          some { goto { p with chunkIndex }.next with chunkIndex := counters }
        else
          some { goto { p with
              pc := .call, chunkIndex, range := computeChunkRange pf p.range chunkIndex } with
            chunkIndex := counters }
      else some (goto p.next)
    | .call => some { goto { p with pc := .test } with log := s.log ++ [p.range] }
    | .left => none

/-- The threads of a region as they enter `kupl_dynamic_policy_impl`. -/
def dynamicStart (pf : Pf) (range : NdRange) : DynamicState where
  chunkIndex := pf.chunkIndex
  threads tid :=
    { pc := .load, range, targetTid := tid, loopCount := 0, chunkIndex := 0, targetIndex := 0 }
  log := []

/-- The threads of a region with the range `range`, whose slot is prepared. -/
def dynamicLoop (pf : Pf) (range : NdRange) : Machine DynamicState Nat where
  init s := s = dynamicStart pf range
  step := dynamicStep ⟨range, pf.chunkInfo, pf.totalChunks⟩ pf.numThreads.toNat

section Inv
variable {whole : NdRange} {n t : Nat} {first value value' : Nat → Nat} {p : DynamicThread}
  {s s' : DynamicState} {x : Nat → Int}

/-- A point a thread is about to pass to the user function. -/
def DynamicThread.calling (p : DynamicThread) (x : Nat → Int) : Nat :=
  if p.pc = .call ∧ p.range.Mem x then 1 else 0

/-- What holds of a thread: the counters it has been through are past their targets, and it knows
which one it is at. -/
structure ThreadOk (whole : NdRange) (n : Nat) (first value : Nat → Nat) (t : Nat) (p : DynamicThread) : Prop where
  shape : whole.Shape p.range
  seen : ∀ j < n, j < p.loopCount → first ((t + j) % n + 1) ≤ value ((t + j) % n)
  head : p.pc = .load → p.loopCount < n → wrapTid n p.targetTid = (t + p.loopCount) % n
  victim : p.pc = .test ∨ p.pc = .call → p.loopCount < n ∧ p.targetTid = (t + p.loopCount) % n
  loaded : p.pc = .test ∨ p.pc = .call → p.targetIndex = first (p.targetTid + 1) ∧
    p.chunkIndex ≤ value p.targetTid
  left : p.pc = .left → n ≤ p.loopCount

/-- What holds of all threads: every point handed out with its chunk was passed to the user function
once, or is about to be. -/
structure DynamicInv (whole : NdRange) (n : Nat) (first value : Nat → Nat) (s : DynamicState) : Prop where
  counter : ∀ i < n, (s.chunkIndex i).value = value i
  target : ∀ i < n, (s.chunkIndex i).target = first (i + 1)
  low : ∀ i < n, first i ≤ value i
  threads : ∀ t < n, ThreadOk whole n first value t (s.threads t)
  passed : ∀ c ∈ s.log, whole.Shape c
  once : ∀ x, s.log.countP (fun r => decide (r.Mem x)) + ∑ t ∈ Finset.range n, (s.threads t).calling x =
      claimed first value n fun i => decide ((computeChunkRange (calcChunkInfo whole) whole i).Mem x)

lemma ThreadOk.mono (ok : ThreadOk whole n first value t p) (le : ∀ i, value i ≤ value' i) :
    ThreadOk whole n first value' t p where
  shape := ok.shape
  seen j hj lt := (ok.seen j hj lt).trans (le _)
  head := ok.head
  victim := ok.victim
  loaded pc := ⟨(ok.loaded pc).1, (ok.loaded pc).2.trans (by exact_mod_cast le _)⟩
  left := ok.left

lemma DynamicInv.move (inv : DynamicInv whole n first value s) (ht : t < n)
    (le : ∀ i, value i ≤ value' i) (hvalue : ∀ i < n, (s'.chunkIndex i).value = value' i)
    (htarget : ∀ i < n, (s'.chunkIndex i).target = (s.chunkIndex i).target)
    (hthreads : s'.threads = update s.threads t p)
    (ok : ThreadOk whole n first value' t p) (passed : ∀ c ∈ s'.log, whole.Shape c)
    (count : ∀ x, s'.log.countP (fun r => decide (r.Mem x)) + p.calling x + claimed first value n
          (fun i => decide ((computeChunkRange (calcChunkInfo whole) whole i).Mem x)) =
      s.log.countP (fun r => decide (r.Mem x)) + (s.threads t).calling x + claimed first value' n
          (fun i => decide ((computeChunkRange (calcChunkInfo whole) whole i).Mem x))) :
    DynamicInv whole n first value' s' where
  counter := hvalue
  target i hi := (htarget i hi).trans (inv.target i hi)
  low i hi := (inv.low i hi).trans (le i)
  threads u hu := by
    rw [hthreads]
    by_cases e : u = t
    · subst e
      rw [update_self]
      exact ok
    · rw [update_of_ne e]
      exact (inv.threads u hu).mono le
  passed := passed
  once x := by
    have change := Prec.sum_change (f := fun u => (s.threads u).calling x)
      (g := fun u => (s'.threads u).calling x) (Finset.mem_range.2 ht) fun u _ ne => by
        rw [hthreads, update_of_ne ne]
    have self : (s'.threads t).calling x = p.calling x := by rw [hthreads, update_self]
    have before := inv.once x
    have after := count x
    omega

lemma wrapTid_succ {a : Nat} (pos : 0 < n) : wrapTid n (a % n + 1) = (a + 1) % n := by
  have lt := Nat.mod_lt a pos
  unfold wrapTid
  rw [← Nat.mod_add_mod a n 1]
  split
  · have e : a % n + 1 = n := by omega
    rw [e, Nat.mod_self]
  · exact (Nat.mod_eq_of_lt (by omega)).symm

lemma ThreadOk.next (ok : ThreadOk whole n first value t p) (pc : p.pc = .test)
    (past : first (p.targetTid + 1) ≤ value p.targetTid) :
    ThreadOk whole n first value t p.next where
  shape := ok.shape
  seen j hj lt := by
    obtain ⟨-, tid⟩ := ok.victim (.inl pc)
    cases Nat.lt_succ_iff_lt_or_eq.1 lt with
    | inl lt => exact ok.seen j hj lt
    | inr e =>
      subst e
      rwa [tid] at past
  head _ lt := by
    obtain ⟨-, tid⟩ := ok.victim (.inl pc)
    simp only [DynamicThread.next] at lt ⊢
    rw [tid, wrapTid_succ (by omega)]
    rfl
  victim := by rintro (h | h) <;> cases h
  loaded := by rintro (h | h) <;> cases h
  left := nofun

lemma mem_chunk_iff (sound : whole.Sound) {range : NdRange} (shape : whole.Shape range) {i : Nat} :
    (computeChunkRange (calcChunkInfo whole) range i).Mem x ↔
      (computeChunkRange (calcChunkInfo whole) whole i).Mem x := by
  rw [mem_chunk sound shape, mem_chunk sound (NdRange.Shape.refl whole)]

@[simp] lemma calling_next : p.next.calling x = 0 := by simp [DynamicThread.calling, DynamicThread.next]

lemma calling_zero (pc : p.pc ≠ .call) : p.calling x = 0 := by simp [DynamicThread.calling, pc]

lemma bump_counter {C : Nat → ChunkIndex} (h : ∀ i < n, (C i).value = value i) {i : Nat} :
    ∀ j < n, (update C i (C i).add j).value = (update value i (value i + 1) j : Nat) := by
  intro j hj
  by_cases e : j = i
  · subst e
    simp [ChunkIndex.add, h j hj]
  · simp [update_of_ne e, h j hj]

lemma bump_target {C : Nat → ChunkIndex} {i : Nat} (j : Nat) : (update C i (C i).add j).target = (C j).target := by
  by_cases e : j = i
  · subst e
    simp [ChunkIndex.add]
  · rw [update_of_ne e]

lemma DynamicInv.step (sound : whole.Sound) (inv : DynamicInv whole n first value s)
    (h : dynamicStep (calcChunkInfo whole) n s t = some s') : ∃ value', DynamicInv whole n first value' s' := by
  unfold dynamicStep at h
  split at h
  · cases h
  · have ht : t < n := by omega
    have ok := inv.threads t ht
    simp only at h
    split at h
    · rename_i pc
      have calling : ∀ x, (s.threads t).calling x = 0 := fun x => calling_zero (by simp [pc])
      split at h
      · -- the thread loads a counter
        rename_i more
        cases h
        have tid := ok.head pc more
        have below : wrapTid n (s.threads t).targetTid < n := by
          rw [tid]
          exact Nat.mod_lt _ (by omega)
        refine ⟨value, inv.move ht (fun _ => le_rfl) inv.counter (fun _ _ => rfl) rfl
          { shape := ok.shape, seen := ok.seen, head := nofun, victim := fun _ => ⟨more, tid⟩
            loaded := fun _ => ⟨inv.target _ below, (inv.counter _ below).le⟩, left := nofun }
          inv.passed fun x => ?_⟩
        rw [calling x, calling_zero (by simp)]
      · -- the thread has been through all counters
        rename_i done
        cases h
        refine ⟨value, inv.move ht (fun _ => le_rfl) inv.counter (fun _ _ => rfl) rfl
          { shape := ok.shape, seen := ok.seen, head := nofun
            victim := by rintro (h | h) <;> cases h
            loaded := by rintro (h | h) <;> cases h
            left := fun _ => by simpa using done } inv.passed fun x => ?_⟩
        rw [calling x, calling_zero (by simp)]
    · rename_i pc
      have calling : ∀ x, (s.threads t).calling x = 0 := fun x => calling_zero (by simp [pc])
      obtain ⟨more, tid⟩ := ok.victim (.inl pc)
      obtain ⟨target, index⟩ := ok.loaded (.inl pc)
      have below : (s.threads t).targetTid < n := by
        rw [tid]
        exact Nat.mod_lt _ (by omega)
      split at h
      · -- the thread takes the next number of the counter
        have counter := inv.counter _ below
        have le : ∀ i, value i ≤ update value (s.threads t).targetTid
            (value (s.threads t).targetTid + 1) i := fun i => by
          by_cases e : i = (s.threads t).targetTid
          · subst e
            simp
          · simp [update_of_ne e]
        have low := inv.low _ below
        have add := bump_counter inv.counter (i := (s.threads t).targetTid)
        have keep := bump_target (C := s.chunkIndex) (i := (s.threads t).targetTid)
        split at h
        · -- it is past the target
          rename_i past
          cases h
          rw [counter, target] at past
          have past : first ((s.threads t).targetTid + 1) ≤ value (s.threads t).targetTid := by
            exact_mod_cast past
          refine ⟨_, inv.move ht le add (fun _ _ => keep _) rfl ?_ inv.passed fun x => ?_⟩
          · have ok' : ThreadOk whole n first value t
                { s.threads t with chunkIndex := (s.chunkIndex (s.threads t).targetTid).value } :=
              { shape := ok.shape, seen := ok.seen, head := ok.head, victim := ok.victim
                loaded := fun _ => ⟨target, counter.le⟩, left := ok.left }
            exact (ok'.next pc past).mono le
          · rw [calling x, calling_next, claimed_past past]
        · -- it is the number of a chunk
          rename_i inside
          cases h
          rw [counter, target] at inside
          have inside : value (s.threads t).targetTid < first ((s.threads t).targetTid + 1) := by
            omega
          refine ⟨_, inv.move ht le add (fun _ _ => keep _) rfl
            { shape := ?_, seen := fun j hj lt => (ok.seen j hj lt).trans (le _), head := nofun
              victim := fun _ => ⟨more, tid⟩, loaded := fun _ => ⟨target, ?_⟩, left := nofun }
            inv.passed fun x => ?_⟩
          · rw [counter]
            exact computeChunkRange_shape sound ok.shape
          · rw [counter]
            exact Int.ofNat_le.2 (le (s.threads t).targetTid)
          · rw [calling x, claimed_bump below low inside]
            simp only [DynamicThread.calling, counter, true_and, mem_chunk_iff sound ok.shape,
              decide_eq_true_eq]
            omega
      · -- the counter was past its target already
        rename_i past
        cases h
        have past : first ((s.threads t).targetTid + 1) ≤ value (s.threads t).targetTid := by
          rw [target] at past
          omega
        refine ⟨value, inv.move ht (fun _ => le_rfl) inv.counter (fun _ _ => rfl) rfl
          (ok.next pc past) inv.passed fun x => ?_⟩
        rw [calling x, calling_next]
    · -- the user function is called
      rename_i pc
      cases h
      refine ⟨value, inv.move ht (fun _ => le_rfl) inv.counter (fun _ _ => rfl) rfl
        { shape := ok.shape, seen := ok.seen, head := nofun
          victim := fun _ => ok.victim (.inr pc), loaded := fun _ => ok.loaded (.inr pc)
          left := nofun } (fun c hc => ?_) fun x => ?_⟩
      · cases List.mem_append.1 hc with
        | inl hc => exact inv.passed c hc
        | inr hc =>
          rw [List.mem_singleton.1 hc]
          exact ok.shape
      have done : (s.threads t).calling x = [(s.threads t).range].countP fun r => decide (r.Mem x) := by
        simp [DynamicThread.calling, pc, List.countP_singleton]
      rw [List.countP_append, ← done, calling_zero (p := { s.threads t with pc := .test }) (by simp)]
      omega
    · cases h

lemma DynamicInv.reachable {pf : Pf} (sound : whole.Sound)
    (info : ⟨whole, pf.chunkInfo, pf.totalChunks⟩ = calcChunkInfo whole) (threads : pf.numThreads.toNat = n)
    (value : ∀ i < n, (pf.chunkIndex i).value = first i)
    (target : ∀ i < n, (pf.chunkIndex i).target = first (i + 1))
    (h : (dynamicLoop pf whole).Reachable s) : ∃ value', DynamicInv whole n first value' s := by
  subst threads
  refine h.inv (I := fun s => ∃ value', DynamicInv whole pf.numThreads.toNat first value' s)
    (fun s hs => ⟨first, ?_⟩) fun s tid s' ⟨value, inv⟩ _ step => ?_
  · cases hs
    refine ⟨value, target, fun _ _ => le_rfl, fun t ht => ?_, nofun, fun x => ?_⟩
    · refine ⟨.refl whole, fun j _ lt => absurd lt (Nat.not_lt_zero j), fun _ _ => ?_, ?_, ?_, nofun⟩
      · have : ¬t ≥ pf.numThreads.toNat := by omega
        simp [dynamicStart, wrapTid, this, Nat.mod_eq_of_lt ht]
      · rintro (h | h) <;> cases h
      · rintro (h | h) <;> cases h
    · rw [claimed_start]
      simp [dynamicStart, DynamicThread.calling]
  · exact inv.step sound (by rw [← info]; exact step)

end Inv

section Once
variable {env : Env} {E : Egroups} {req : Request} {d : PfDesc} {g : EgroupInfo} {k : Int} {range : NdRange}

lemma resolve_le_chunks (checked : req.check env E = some d) (hr : d.range = some range)
    (resolved : req.resolve env E = some (g, k)) : k ≤ (calcChunkInfo range).totalChunks := by
  obtain ⟨-, -, spec⟩ := req.check_spec checked
  obtain ⟨r, -, accepted, -⟩ := spec range hr
  rw [← rangeChunks_eq accepted]
  obtain ⟨d', eq, h⟩ := Option.bind_eq_some_iff.1 resolved
  cases checked.symm.trans eq
  have le : ∀ e, parallelForNumThreads env d e ≤
      (List.range range.dim.toNat).foldl (fun n d => n * dimChunks (range.ndRange d)) 1 := by
    intro e
    unfold parallelForNumThreads
    rw [hr]
    cases e with
    | none => exact (min_le_left _ _).trans (min_le_right _ _)
    | some g => exact ((min_le_left _ _).trans (min_le_left _ _)).trans (min_le_right _ _)
  obtain ⟨id, -, rfl⟩ | ⟨G, -, -, rfl⟩ := parallelForResolve_cases h
  · exact le _
  · exact le _

/-- Where the numbers of thread `i` begin when `N` chunks are shared among `n` threads (C++ the values
of `kupl_dynamic_policy_prepare_common`). -/
def firstChunk (N n i : Nat) : Nat := i * (N / n) + min (i * (N / n)) (N % n)

lemma firstChunk_mono {N n i : Nat} : firstChunk N n i ≤ firstChunk N n (i + 1) := by
  have le : i * (N / n) ≤ (i + 1) * (N / n) := Nat.mul_le_mul_right _ (Nat.le_succ i)
  exact Nat.add_le_add le (min_le_min_right _ le)

lemma firstChunk_last {N n : Nat} (pos : 1 ≤ n) (le : n ≤ N) : firstChunk N n n = N := by
  have base : n ≤ n * (N / n) := Nat.le_mul_of_pos_right n (Nat.div_pos le pos)
  have rest := Nat.mod_lt N pos
  unfold firstChunk
  rw [min_eq_right (by omega)]
  exact Nat.div_add_mod N n

lemma dynamicPrepareCommon_start {pf : Pf} {n N i : Nat} (num : pf.numThreads = n)
    (total : (calcChunkInfo range).totalChunks = N) (lt : i < n) :
    ((dynamicPrepareCommon pf range).chunkIndex i).value = firstChunk N n i ∧
      ((dynamicPrepareCommon pf range).chunkIndex i).target = firstChunk N n (i + 1) := by
  have lt : (i : Int) < n := by omega
  have total : (pf.calcChunkInfo range).totalChunks = N := total
  have num : (pf.calcChunkInfo range).numThreads = n := num
  have base : (N : Int).tdiv n = (N / n : Nat) := Int.ofNat_tdiv _ _
  have rest : (N : Int).tmod n = (N % n : Nat) := Int.ofNat_tmod _ _
  simp only [dynamicPrepareCommon, total, num, lt, if_true, base, rest, firstChunk]
  push_cast
  exact ⟨rfl, rfl⟩

lemma dynamicLoop_count {pf : Pf} {s : DynamicState} (sound : range.Sound) (pos : 1 ≤ pf.numThreads)
    (le : pf.numThreads ≤ (calcChunkInfo range).totalChunks)
    (reach : (dynamicLoop (dynamicPrepareCommon pf range) range).Reachable s)
    (left : ∀ tid < pf.numThreads.toNat, (s.threads tid).pc = .left) :
    (∀ c ∈ s.log, range.Shape c) ∧ ∀ x, s.log.countP (fun r => decide (r.Mem x)) =
      if range.Mem x then 1 else 0 := by
  obtain ⟨n, hn⟩ := Int.eq_ofNat_of_zero_le (by omega : 0 ≤ pf.numThreads)
  obtain ⟨N, hN⟩ := Int.eq_ofNat_of_zero_le (by omega : 0 ≤ (calcChunkInfo range).totalChunks)
  have start (i) (hi : i < n) := dynamicPrepareCommon_start hn hN hi
  have num : (dynamicPrepareCommon pf range).numThreads.toNat = n := by
    have : (dynamicPrepareCommon pf range).numThreads = pf.numThreads := rfl
    omega
  obtain ⟨value, inv⟩ := DynamicInv.reachable sound rfl num (fun i hi => (start i hi).1)
    (fun i hi => (start i hi).2) reach
  -- the thread `0` has seen every counter past its target
  have all : ∀ i < n, firstChunk N n (i + 1) ≤ value i := by
    intro i hi
    have ok := inv.threads 0 (by omega)
    have seen := ok.seen i hi (by have := ok.left (left 0 (by omega)); omega)
    rwa [Nat.zero_add, Nat.mod_eq_of_lt hi] at seen
  have mono : ∀ i < n, firstChunk N n i ≤ firstChunk N n (i + 1) := fun _ _ => firstChunk_mono
  have zero : firstChunk N n 0 = 0 := by simp [firstChunk]
  refine ⟨inv.passed, fun x => ?_⟩
  have calling : ∑ t ∈ Finset.range n, (s.threads t).calling x = 0 :=
    Finset.sum_eq_zero fun t ht => calling_zero (by
      rw [left t (by have := Finset.mem_range.1 ht; omega)]
      nofun)
  have once := inv.once x
  have count := chunk_count sound x
  rw [hN, Int.toNat_natCast] at count
  rw [calling, claimed_all mono all, zero,
    firstChunk_last (by omega) (by omega), Nat.sub_zero, ← List.range_eq_range', count] at once
  exact once

/-- When all threads of a region have left, each point of its range was passed to the user function in
one call, and nothing else was. -/
theorem dynamicLoop_once {pf : Pf} {s : DynamicState} (checked : req.check env E = some d) (hr : d.range = some range)
    (resolved : req.resolve env E = some (g, k)) (pos : 1 ≤ k) (threads : pf.numThreads = k)
    (reach : (dynamicLoop (dynamicPrepareCommon pf range) range).Reachable s)
    (left : ∀ tid < k.toNat, (s.threads tid).pc = .left) (x : Nat → Int) :
    s.log.countP (fun r => decide (r.Mem x)) = if range.Mem x then 1 else 0 := by
  subst threads
  obtain ⟨-, -, spec⟩ := req.check_spec checked
  obtain ⟨r, -, accepted, -⟩ := spec range hr
  exact (dynamicLoop_count (checkRange_sound accepted) pos (resolve_le_chunks checked hr resolved) reach left).2 x

end Once

/-- A loop over a plane, up in steps of two and down in steps of one, on two threads. -/
def planeDesc : PfDesc where
  fieldMask := fieldDefault
  range := some ⟨2, fun d => if d = 0 then ⟨0, 3, 2, 1⟩ else ⟨1, -1, -1, 0⟩⟩
  egroup := some 0
  concurrency := 2
  policy := .dynamic

/-- Two threads share a plane. -/
theorem dynamicLoop_once_plane : ∃ d range, ∃ s : DynamicState,
    (Request.parallelFor planeDesc (some 1) 0).check fourEnv (fourGroup [0, 1]) = some d ∧
      d.range = some range ∧ (∀ tid < 2, (s.threads tid).pc = .left) ∧
      (dynamicLoop (dynamicPrepareCommon { Pf.zero with numThreads := 2 } range) range).Reachable s ∧
      ∀ x, s.log.countP (fun r => decide (r.Mem x)) = if range.Mem x then 1 else 0 := by
  have threads : ((Request.parallelFor planeDesc (some 1) 0).resolve fourEnv
      (fourGroup [0, 1])).map Prod.snd = some 2 := by decide
  obtain ⟨⟨g, k⟩, resolved, rfl⟩ := Option.map_eq_some_iff.1 threads
  have run : (((Request.parallelFor planeDesc (some 1) 0).check fourEnv (fourGroup [0, 1])).bind
      fun d => d.range).any (fun range =>
        let pf := dynamicPrepareCommon { Pf.zero with numThreads := 2 } range
        ((dynamicLoop pf range).run (fun _ _ => True) (dynamicStart pf range) (List.replicate 9 [0, 1]).flatten).any
            fun s => decide (∀ tid < (2 : Nat), (s.threads tid).pc = .left)) = true := by decide +kernel
  obtain ⟨range, hrange, run⟩ := (Option.any_eq_true _ _).1 run
  obtain ⟨d, checked, hr⟩ := Option.bind_eq_some_iff.1 hrange
  obtain ⟨s, reach, left⟩ := Machine.exists_reach _ rfl run
  exact ⟨d, range, s, checked, hr, left, reach, dynamicLoop_once checked hr resolved (by decide) rfl reach left⟩

/-- The numbers that the threads of a region have at first differ in length by one at most. -/
def Pf.Even (pf : Pf) : Prop :=
  ∀ i j : Nat, i < pf.numThreads → j < pf.numThreads →
    (pf.chunkIndex i).target - (pf.chunkIndex i).value ≤ (pf.chunkIndex j).target - (pf.chunkIndex j).value + 1

lemma firstChunk_uneven {N n : Nat} (base : 2 ≤ N / n) (rest : 2 ≤ N % n) :
    firstChunk N n 0 + firstChunk N n n + 2 ≤ firstChunk N n 1 + firstChunk N n (n - 1) := by
  have pos : 1 ≤ n := by
    by_contra zero
    rw [show n = 0 by omega, Nat.div_zero] at base
    omega
  have lt := Nat.mod_lt N pos
  have back : n * (N / n) = (n - 1) * (N / n) + N / n := by
    rw [← Nat.succ_mul, Nat.succ_eq_add_one, Nat.sub_add_cancel pos]
  have many : n - 1 ≤ (n - 1) * (N / n) := Nat.le_mul_of_pos_right _ (by omega)
  unfold firstChunk
  omega

lemma firstChunk_even {N n : Nat} (even : N / n = 1 ∨ N % n ≤ 1) (i j : Nat) (pos : 1 ≤ N / n) :
    firstChunk N n (i + 1) + firstChunk N n j ≤ firstChunk N n (j + 1) + firstChunk N n i + 1 := by
  unfold firstChunk
  rw [Nat.succ_mul, Nat.succ_mul]
  obtain one | few := even
  · rw [one, Nat.mul_one, Nat.mul_one]
    omega
  · obtain rfl | some := Nat.eq_zero_or_pos i
    · omega
    · omega

/-- The counters of a range, accepted or not, are even where every thread has one chunk for certain, or where at
most one chunk is left over. -/
theorem dynamicPrepareCommon_even_iff {r : NdRange} {pf : Pf} (pos : 1 ≤ pf.numThreads)
    (le : pf.numThreads ≤ (calcChunkInfo r).totalChunks) :
    (dynamicPrepareCommon pf r).Even ↔ (calcChunkInfo r).totalChunks.tdiv pf.numThreads = 1 ∨
      (calcChunkInfo r).totalChunks.tmod pf.numThreads ≤ 1 := by
  obtain ⟨n, hn⟩ := Int.eq_ofNat_of_zero_le (by omega : 0 ≤ pf.numThreads)
  obtain ⟨N, hN⟩ := Int.eq_ofNat_of_zero_le (by omega : 0 ≤ (calcChunkInfo r).totalChunks)
  have start (i) (hi : i < n) := dynamicPrepareCommon_start hn hN hi
  have num : (dynamicPrepareCommon pf r).numThreads = n := hn
  have div : (N : Int).tdiv n = (N / n : Nat) := Int.ofNat_tdiv _ _
  have mod : (N : Int).tmod n = (N % n : Nat) := Int.ofNat_tmod _ _
  have one : 1 ≤ N / n := (Nat.one_le_div_iff (by omega)).2 (by omega)
  rw [hn, hN, div, mod]
  constructor
  · intro even
    by_contra uneven
    have more := even 0 (n - 1) (by omega) (by omega)
    obtain ⟨first, second⟩ := start 0 (by omega)
    obtain ⟨last, end_⟩ := start (n - 1) (by omega)
    rw [Nat.zero_add] at second
    rw [Nat.sub_add_cancel (by omega)] at end_
    have := @firstChunk_uneven N n (by omega) (by omega)
    omega
  · intro even i j hi hj
    obtain ⟨first, second⟩ := start i (by omega)
    obtain ⟨last, end_⟩ := start j (by omega)
    rw [first, second, last, end_]
    have := firstChunk_even (N := N) (n := n) (by omega) i j one
    omega

/-- Seven chunks on three threads. -/
theorem dynamicPrepareCommon_even_iff_three : ∃ r, checkRange ⟨1, fun _ => ⟨0, 7, 1, 1⟩⟩ .dynamic = some r ∧
    ((dynamicPrepareCommon { Pf.zero with numThreads := 3 } r).Even ↔
      (calcChunkInfo r).totalChunks.tdiv 3 = 1 ∨ (calcChunkInfo r).totalChunks.tmod 3 ≤ 1) := by
  have accepted : (checkRange ⟨1, fun _ => ⟨0, 7, 1, 1⟩⟩ .dynamic).any fun r =>
      decide ((calcChunkInfo r).totalChunks = 7) := by decide
  obtain ⟨r, hr, total⟩ := (Option.any_eq_true _ _).1 accepted
  have total := of_decide_eq_true total
  exact ⟨r, hr, @dynamicPrepareCommon_even_iff r { Pf.zero with numThreads := 3 } (by decide)
    (by rw [total]; decide)⟩

/-- Eight chunks on three threads: the first one has four of them. -/
theorem dynamicPrepareCommon_not_even :
    ¬ ∀ (range r : NdRange) (pf : Pf), checkRange range .dynamic = some r → 1 ≤ pf.numThreads →
      pf.numThreads ≤ (calcChunkInfo r).totalChunks → (dynamicPrepareCommon pf r).Even := by
  intro even
  have accepted : (checkRange ⟨1, fun _ => ⟨0, 8, 1, 1⟩⟩ .dynamic).any fun r =>
      decide ((calcChunkInfo r).totalChunks = 8) := by decide
  obtain ⟨r, hr, total⟩ := (Option.any_eq_true _ _).1 accepted
  have total := of_decide_eq_true total
  have num : (dynamicPrepareCommon { Pf.zero with numThreads := 3 } r).numThreads = 3 := rfl
  have more := even _ r { Pf.zero with numThreads := 3 } hr (by decide) (by rw [total]; decide) 0 1
    (by rw [num]; decide) (by rw [num]; decide)
  obtain ⟨first, second⟩ := @dynamicPrepareCommon_start r { Pf.zero with numThreads := 3 } 3 8 0
    rfl total (by decide)
  obtain ⟨last, end_⟩ := @dynamicPrepareCommon_start r { Pf.zero with numThreads := 3 } 3 8 1
    rfl total (by decide)
  rw [first, second, last, end_] at more
  exact absurd more (by decide)

end Kupl.Loop
