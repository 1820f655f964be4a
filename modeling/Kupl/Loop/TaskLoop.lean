import Kupl.Loop.Region
import Kupl.Machine.Run
import Kupl.Range.Chunk

/-!
# Loops as chunk tasks

Loops under `KUPL_LOOP_POLICY_TASK` in `mt/kupl_parallel_for.cpp`: `kupl_task_policy_impl` makes a task
of every chunk and runs ready tasks until its own are done; `task_policy_loop_func` is what a chunk
task runs.

A chunk task knows its number and the master of its region, nothing else. When it runs it reads the
function, the range and the chunk size from the slot `g_pf[master_eid]`, which is the slot of that
master at level `0`. The master may start further regions in the meantime, since it runs whatever is
ready while it waits.

`taskLoops` is the machine of all regions: any call of `kupl_parallel_for` or
`kupl_parallel_for_reduce` by any executor begins at any time, and pending chunk tasks run in any order
on any executor. Of regions without chunk tasks only what they write to the slots matters here.
`taskLoops_ok` says in which runs the chunk tasks do the work of their own regions.
-/

namespace Kupl.Loop
open Kupl.Range Kupl.Group List

/-- The function of a region. -/
inductive Fn where
  | plain (func : Nat)
  | reduce (func : Nat)
  deriving DecidableEq, Repr

/-- The function passed to a call. -/
def Request.fn : Request → Option Fn
  | .parallelFor _ func _ => func.map .plain
  | .reduce _ func _ _ => func.map .reduce

/-- The arguments passed to a call. -/
def Request.args : Request → Nat
  | .parallelFor _ _ args | .reduce _ _ args _ => args

/-- The dimension a chunk task divides, as the checks of the call settle it. -/
def Request.taskRange (env : Env) (E : Egroups) (req : Request) : Option KuplRange :=
  (req.check env E).bind fun d => d.range.map fun range => range.ndRange 0

structure ChunkCall where
  fn : Fn
  args : Nat
  range : KuplRange
  tid : Int
  tnum : Int

/-- What a chunk task calls (C++ `task_policy_loop_func`); `none` where it uses a null pointer. -/
def taskPolicyLoopFunc (P : Slots) (taskId masterEid geid : Nat) : Option ChunkCall :=
  let pf := P 0 masterEid
  match pf.range with
  | none => none
  | some range =>
    let taskRange := taskChunk (range.ndRange 0) (pf.chunkInfo 0).chunksize taskId
    let tid := pf.egroup.tid geid
    match pf.rdFunc, pf.func with
    | some func, _ => some ⟨.reduce func, pf.args, taskRange, tid, pf.numThreads⟩
    | none, some func => some ⟨.plain func, pf.args, taskRange, tid, pf.numThreads⟩
    | none, none => none

/-- A chunk task (C++ `kupl_task_args_t`), with the executor it is bound to and the region that made
it. -/
structure Task where
  region : Nat
  taskId : Nat
  masterEid : Nat
  executorId : Nat

/-- The tasks of a region (C++ the loop of `kupl_task_policy_impl` over the selected executors, from
the executor number `eidx` and the task number `taskId` on). -/
def regionTasks (region master : Nat) (baseChunks remainChunks : Int) : List Nat → Nat → Nat → List Task
  | [], _, _ => []
  | eid :: eids, eidx, taskId =>
    let numTasks := (baseChunks + if (eidx : Int) < remainChunks then 1 else 0).toNat
    (List.range' taskId numTasks).map (fun id => ⟨region, id, master, eid⟩) ++
      regionTasks region master baseChunks remainChunks eids (eidx + 1) (taskId + numTasks)

/-- A region of chunk tasks: its slot, and what its call was given. -/
structure TaskRegion where
  level : Nat
  master : Nat
  fn : Fn
  args : Nat
  range : KuplRange
  ended : Bool

structure ChunkRun where
  region : Nat
  taskId : Nat
  call : ChunkCall

/-- The state of all loops: the slots, the regions so far, their tasks and the chunks that were run. -/
structure TaskState where
  slots : Slots
  regions : List TaskRegion
  pending : List Task
  running : List Task
  log : List ChunkRun

/-- What may happen next. -/
inductive TaskLabel where
  /-- An executor makes a call. -/
  | begin (env : Env) (req : Request)
  /-- The executor `geid` starts a pending task. -/
  | exec (i geid : Nat)
  /-- A running task returns. -/
  | ret (i : Nat)
  /-- The master of a region finds its counter at `0` and returns. -/
  | finish (region : Nat)

def beginTasks (region : Nat) (pf : Pf) : List Task :=
  regionTasks region pf.masterEid (pf.totalChunks.tdiv pf.numThreads)
    (pf.totalChunks.tmod pf.numThreads) (pf.egroup.limit pf.numThreads.toNat) 0 0

/-- One step. A region on no threads, which divides by zero, is no step. -/
def taskStep (E : Egroups) (s : TaskState) : TaskLabel → Option TaskState
  | .begin env req =>
    let (P, start) := beginRegion env E s.slots req
    match start, req.fn, req.taskRange env E with
    | .task level master, some fn, some range =>
      if (P level master).numThreads ≤ 0 then none
      else some { s with
        slots := P
        regions := s.regions ++ [{ level, master, fn, args := req.args, range, ended := false }]
        pending := s.pending ++ beginTasks s.regions.length (P level master) }
    | .task _ _, _, _ => none
    | _, _, _ => some { s with slots := P }
  | .exec i geid =>
    match s.pending[i]? with
    | none => none
    | some t =>
      match taskPolicyLoopFunc s.slots t.taskId t.masterEid geid with
      | none => none
      | some call => some { s with
          pending := s.pending.eraseIdx i
          running := t :: s.running
          log := ⟨t.region, t.taskId, call⟩ :: s.log }
  | .ret i => if i < s.running.length then some { s with running := s.running.eraseIdx i } else none
  | .finish i =>
    match s.regions[i]? with
    | none => none
    | some r =>
      if r.ended ∨ (s.pending ++ s.running).any fun t => t.region = i then none
      else some { s with
        slots := s.slots.set r.level r.master
          { s.slots r.level r.master with postFunc := none }
        regions := s.regions.set i { r with ended := true } }

/-- All loops over some groups. What earlier loops left in the slots is arbitrary. -/
def taskLoops (E : Egroups) : Machine TaskState TaskLabel where
  init s := s.regions = [] ∧ s.pending = [] ∧ s.running = [] ∧ s.log = []
  step := taskStep E

/-- No region under way works on a slot. -/
def TaskState.Free (s : TaskState) (level master : Nat) : Prop :=
  ∀ r ∈ s.regions, r.ended = true ∨ ¬(r.level = level ∧ r.master = master)

instance (s : TaskState) (level master : Nat) : Decidable (s.Free level master) :=
  inferInstanceAs (Decidable (∀ r ∈ s.regions, _ ∨ _))

/-- A call leaves the slots of the regions under way alone. If its own chunks become tasks, they find
it in its slot: it is at level `0`, no reduce function was left there, and its chunks fit its
range. -/
def Undisturbed (E : Egroups) (s : TaskState) : TaskLabel → Prop
  | .begin env req => ∀ slot ∈ req.slot env E, s.Free slot.1 slot.2 ∧
      (req.IsTask → slot.1 = 0 ∧ (req.isReduce = false → (s.slots 0 slot.2).rdFunc = none) ∧
        ∀ range ∈ req.taskRange env E, range.ChunksFit)
  | _ => True

instance (E : Egroups) (s : TaskState) : ∀ a, Decidable (Undisturbed E s a)
  | .begin env req => inferInstanceAs (Decidable (∀ slot ∈ req.slot env E, _ ∧ _))
  | .exec _ _ | .ret _ | .finish _ => isTrue trivial

/-- A chunk of a region: its own function with its own arguments on the chunk of its own range. -/
def TaskRegion.Owns (r : TaskRegion) (c : ChunkRun) : Prop :=
  c.call.fn = r.fn ∧ c.call.args = r.args ∧ c.call.range =
    taskChunk r.range (r.range.step * r.range.blocksize) c.taskId

instance (r : TaskRegion) (c : ChunkRun) : Decidable (r.Owns c) :=
  inferInstanceAs (Decidable (_ ∧ _))

def TaskState.runsOf (s : TaskState) (i : Nat) : List ChunkRun :=
  s.log.filter fun c => decide (c.region = i)

/-- Every chunk task works for its own region, and a region that has returned ran each iterate of its
range once, and nothing else. -/
structure TaskState.Ok (s : TaskState) : Prop where
  own : ∀ c ∈ s.log, ∃ r, s.regions[c.region]? = some r ∧ r.Owns c
  cover : ∀ i r, s.regions[i]? = some r → r.ended = true → ∀ x,
    (s.runsOf i).countP (fun c => decide (c.call.range.Mem x)) = if r.range.Mem x then 1 else 0

section Tasks
variable {region master : Nat} {base remain : Int} {eids : List Nat}

lemma regionTasks_ids {eidx taskId : Nat} (hb : 0 ≤ base) :
    (regionTasks region master base remain eids eidx taskId).map Task.taskId = List.range' taskId
        (eids.length * base.toNat + min (remain.toNat - eidx) eids.length) := by
  induction eids generalizing eidx taskId with
  | nil => simp [regionTasks]
  | cons eid eids ih =>
    simp only [regionTasks, map_append, map_map, ih]
    have ids : ∀ l : List Nat, l.map (Task.taskId ∘ fun id => (⟨region, id, master, eid⟩ : Task)) = l :=
      fun l => map_id l
    rw [ids, length_cons, Nat.succ_mul]
    have num : (base + if (eidx : Int) < remain then 1 else 0).toNat =
        base.toNat + (if eidx < remain.toNat then 1 else 0) := by
      split <;> split <;> omega
    rw [num]
    have join := @List.range'_append_1 taskId
      (base.toNat + if eidx < remain.toNat then 1 else 0)
      (eids.length * base.toNat + min (remain.toNat - (eidx + 1)) eids.length)
    rw [join]
    congr 1
    split <;> omega

lemma mem_regionTasks {eidx taskId : Nat} {t : Task} (h : t ∈ regionTasks region master base remain eids
    eidx taskId) :
    t.region = region ∧ t.masterEid = master := by
  induction eids generalizing eidx taskId with
  | nil => cases h
  | cons eid eids ih =>
    rw [regionTasks, mem_append] at h
    obtain h | h := h
    · obtain ⟨id, -, rfl⟩ := mem_map.1 h
      exact ⟨rfl, rfl⟩
    · exact ih h

lemma divide_total {total n : Int} (ht : 0 ≤ total) (hn : 0 < n) :
    n.toNat * (total.tdiv n).toNat + min ((total.tmod n).toNat - 0) n.toNat = total.toNat := by
  obtain ⟨t, rfl⟩ := Int.eq_ofNat_of_zero_le ht
  obtain ⟨m, rfl⟩ := Int.eq_ofNat_of_zero_le hn.le
  rw [← Int.ofNat_tdiv, ← Int.ofNat_tmod]
  simp only [Int.toNat_natCast, Nat.sub_zero]
  have hm : 0 < m := by omega
  rw [min_eq_left (Nat.mod_lt t hm).le]
  exact Nat.div_add_mod t m

lemma beginTasks_ids {i : Nat} {pf : Pf} {g k range} (slot : TaskSlot g k range master pf) (I : g.Ok)
    (size : g.size ≠ 0) (pos : 0 < k) (dim : range.dim = 1) (hb : 1 ≤ (range.ndRange 0).blocksize)
    (dir : (range.ndRange 0).Before (range.ndRange 0).lower (range.ndRange 0).upper) :
    (beginTasks i pf).map Task.taskId = List.range (calcChunk (range.ndRange 0)).chunks.toNat := by
  have total : pf.totalChunks = (calcChunk (range.ndRange 0)).chunks := by
    rw [slot.totalChunks]
    simp [Range.calcChunkInfo, dim]
  have nonneg := calcChunk_nonneg hb dir
  unfold beginTasks
  rw [slot.numThreads, slot.egroup, total, regionTasks_ids (Int.tdiv_nonneg nonneg pos.le),
    I.length_limit size, divide_total nonneg pos, range_eq_range']

end Tasks

lemma Request.taskRange_eq {env E d range} {req : Request} (hd : req.check env E = some d)
    (hr : d.range = some range) : req.taskRange env E = some (range.ndRange 0) := by
  simp [Request.taskRange, hd, hr]

lemma Request.check_task {env E d} {req : Request} (h : req.check env E = some d) (ht : req.IsTask)
    {range} (hr : d.range = some range) :
    range.dim = 1 ∧ 1 ≤ (range.ndRange 0).blocksize ∧
      (range.ndRange 0).Before (range.ndRange 0).lower (range.ndRange 0).upper := by
  obtain ⟨-, -, spec⟩ := Request.check_spec h
  obtain ⟨r, -, hc, dim⟩ := spec range hr
  have one : range.dim = 1 := (checkRange_spec hc).2.2.1.trans (dim ht.1)
  obtain ⟨c, hd⟩ := (checkRange_spec hc).2.2.2 0 (by rw [one]; decide)
  exact ⟨one, checkDim_blocksize hd, checkDim_before hd⟩

structure TaskRegion.Holds (r : TaskRegion) (pf : Pf) : Prop where
  range : ∃ range, pf.range = some range ∧ range.ndRange 0 = r.range
  chunk : (pf.chunkInfo 0).chunksize = r.range.step * r.range.blocksize
  args : pf.args = r.args
  fn : pf.rdFunc.map .reduce = some r.fn ∨ pf.rdFunc = none ∧ pf.func.map .plain = some r.fn

lemma TaskRegion.Holds.sameWork {r : TaskRegion} {pf pf' : Pf} (h : r.Holds pf)
    (same : pf'.SameWork pf) : r.Holds pf' := by
  obtain ⟨m, n, rfl⟩ := same
  exact ⟨h.range, h.chunk, h.args, h.fn⟩

lemma TaskRegion.Holds.owns {r : TaskRegion} {P : Slots} {taskId master geid : Nat} {call i} (h : r.Holds (P 0 master))
    (hc : taskPolicyLoopFunc P taskId master geid = some call) : r.Owns ⟨i, taskId, call⟩ := by
  obtain ⟨range, hr, e0⟩ := h.range
  simp only [taskPolicyLoopFunc, hr, h.chunk, e0, h.args] at hc
  split at hc
  · rename_i f _ hf
    obtain fn | ⟨none, -⟩ := h.fn
    · rw [hf] at fn
      cases hc
      exact ⟨Option.some.inj fn, rfl, rfl⟩
    · rw [hf] at none
      cases none
  · rename_i f hn hf
    obtain fn | ⟨-, fn⟩ := h.fn
    · rw [hn] at fn
      cases fn
    · rw [hf] at fn
      cases hc
      exact ⟨Option.some.inj fn, rfl, rfl⟩
  · cases hc

def TaskState.pendingOf (s : TaskState) (i : Nat) : List Task :=
  s.pending.filter fun t => decide (t.region = i)

/-- The invariant of the undisturbed runs. -/
structure TaskState.Inv (s : TaskState) : Prop where
  level : ∀ r ∈ s.regions, r.level = 0
  sane : ∀ r ∈ s.regions, 1 ≤ r.range.blocksize ∧ r.range.Before r.range.lower r.range.upper ∧
    r.range.ChunksFit
  holds : ∀ r ∈ s.regions, r.ended = false → r.Holds (s.slots 0 r.master)
  task : ∀ t ∈ s.pending, ∃ r, s.regions[t.region]? = some r ∧ r.ended = false ∧ t.masterEid = r.master
  ids : ∀ i r, s.regions[i]? = some r → ((s.pendingOf i).map Task.taskId ++ (s.runsOf i).map ChunkRun.taskId).Perm
      (List.range (calcChunk r.range).chunks.toNat)
  own : ∀ c ∈ s.log, ∃ r, s.regions[c.region]? = some r ∧ r.Owns c

section Step
variable {n : Nat} {E : Egroups} {s s' : TaskState} {env : Env} {req : Request}

lemma taskStep_begin (h : taskStep E s (.begin env req) = some s') :
    s' = { s with slots := (beginRegion env E s.slots req).1 } ∨
      ∃ P level master fn range, beginRegion env E s.slots req = (P, .task level master) ∧
        req.fn = some fn ∧ req.taskRange env E = some range ∧ 0 < (P level master).numThreads ∧
        s' = { s with
          slots := P
          regions := s.regions ++ [{ level, master, fn, args := req.args, range, ended := false }]
          pending := s.pending ++ beginTasks s.regions.length (P level master) } := by
  simp only [taskStep] at h
  generalize hout : beginRegion env E s.slots req = out at h ⊢
  obtain ⟨P, start⟩ := out
  simp only at h
  split at h
  · rename_i level master fn range hfn hrange
    split at h
    · cases h
    · cases h
      exact .inr ⟨P, level, master, fn, range, rfl, hfn, hrange, by omega, rfl⟩
  · cases h
  · cases h
    exact .inl rfl

lemma TaskState.Inv.frame (I : s.Inv) (hg : Undisturbed E s (.begin env req)) {r : TaskRegion} (hr : r ∈ s.regions)
    (live : r.ended = false) : r.Holds ((beginRegion env E s.slots req).1 0 r.master) := by
  refine (I.holds r hr live).sameWork (beginRegion_frame fun hs => ?_)
  obtain ended | other := (hg _ hs).1 r hr
  · rw [live] at ended
    cases ended
  · exact other ⟨I.level r hr, rfl⟩

lemma TaskRegion.holds_begin {P : Slots} {level master fn range}
    (hb : beginRegion env E s.slots req = (P, .task level master)) (hfn : req.fn = some fn)
    (hrange : req.taskRange env E = some range) (hg : Undisturbed E s (.begin env req)) :
    (⟨level, master, fn, req.args, range, false⟩ : TaskRegion).Holds (P level master) := by
  obtain ⟨d, g, k, rng, hd, hdr, -, hslot, isTask, fills, slot⟩ := beginRegion_task hb
  have e0 : rng.ndRange 0 = range :=
    Option.some.inj ((Request.taskRange_eq hd hdr).symm.trans hrange)
  obtain ⟨zero, noRd, -⟩ := (hg _ hslot).2 isTask
  subst zero
  refine ⟨⟨rng, slot.range, e0⟩, ?_, ?_, ?_⟩
  · rw [slot.chunkInfo, ← e0]
    rfl
  · cases req <;> exact fills.2.1
  · cases req with
    | parallelFor desc func args =>
      obtain ⟨hf, -, hrd, -⟩ := fills
      exact .inr ⟨hrd.trans (noRd rfl), by rw [hf]; exact hfn⟩
    | reduce desc func args rdArgs =>
      obtain ⟨hf, -⟩ := fills
      exact .inl (by rw [hf]; exact hfn)

lemma TaskState.Inv.fresh (I : s.Inv) : s.pendingOf s.regions.length = [] ∧ s.runsOf s.regions.length = [] := by
  constructor
  · refine filter_eq_nil_iff.2 fun t ht eq => ?_
    obtain ⟨r, hr, -⟩ := I.task t ht
    rw [of_decide_eq_true eq, List.getElem?_eq_none le_rfl] at hr
    cases hr
  · refine filter_eq_nil_iff.2 fun c hc eq => ?_
    obtain ⟨r, hr, -⟩ := I.own c hc
    rw [of_decide_eq_true eq, List.getElem?_eq_none le_rfl] at hr
    cases hr

lemma getElem?_append_left_of_some {α : Type*} {l l' : List α} {i : Nat} {a : α}
    (h : l[i]? = some a) : (l ++ l')[i]? = some a := by
  rw [List.getElem?_append_left (List.getElem?_eq_some_iff.1 h).1]
  exact h

lemma TaskState.Inv.begin (hb : Built n E) (I : s.Inv) (hg : Undisturbed E s (.begin env req))
    (h : taskStep E s (.begin env req) = some s') : s'.Inv := by
  obtain rfl | ⟨P, level, master, fn, range, hs, hfn, hrange, pos, rfl⟩ := taskStep_begin h
  · exact ⟨I.level, I.sane, fun r hr live => I.frame hg hr live, I.task, I.ids, I.own⟩
  obtain ⟨d, g, k, rng, hd, hdr, hres, hslot, isTask, fills, slot⟩ := beginRegion_task hs
  have holds := TaskRegion.holds_begin hs hfn hrange hg
  obtain ⟨dim, block, dir⟩ := Request.check_task hd isTask hdr
  have e0 : rng.ndRange 0 = range :=
    Option.some.inj ((Request.taskRange_eq hd hdr).symm.trans hrange)
  obtain ⟨zero, -, fit⟩ := (hg _ hslot).2 isTask
  subst zero
  have tasks : (beginTasks s.regions.length (P 0 master)).map Task.taskId =
      List.range (calcChunk range).chunks.toNat := by
    rw [slot.numThreads] at pos
    rw [← e0]
    exact beginTasks_ids slot (Request.resolve_ok hb hres) (Request.resolve_size hres pos) pos dim
      block dir
  have mem : ∀ t ∈ beginTasks s.regions.length (P 0 master), t.region = s.regions.length ∧
    t.masterEid = master := by
    intro t ht
    obtain ⟨h1, h2⟩ := mem_regionTasks ht
    exact ⟨h1, h2.trans slot.masterEid⟩
  refine ⟨?_, ?_, ?_, ?_, ?_, ?_⟩
  · intro r hr
    obtain hr | hr := mem_append.1 hr
    · exact I.level r hr
    · rw [mem_singleton.1 hr]
  · intro r hr
    obtain hr | hr := mem_append.1 hr
    · exact I.sane r hr
    · rw [mem_singleton.1 hr]
      exact ⟨e0 ▸ block, e0 ▸ dir, fit range hrange⟩
  · intro r hr live
    obtain hr | hr := mem_append.1 hr
    · have := I.frame hg hr live
      rwa [hs] at this
    · rw [mem_singleton.1 hr]
      exact holds
  · intro t ht
    obtain ht | ht := mem_append.1 ht
    · obtain ⟨r, hr, rest⟩ := I.task t ht
      exact ⟨r, getElem?_append_left_of_some hr, rest⟩
    · obtain ⟨h1, h2⟩ := mem t ht
      refine ⟨⟨0, master, fn, req.args, range, false⟩, ?_, rfl, h2⟩
      rw [h1]
      exact List.getElem?_concat_length
  · intro i r hr
    have old : ∀ l : List Task, (⟨P, s.regions ++
        [⟨0, master, fn, req.args, range, false⟩], s.pending ++ l, s.running, s.log⟩ :
        TaskState).pendingOf i = s.pendingOf i ++ l.filter fun t => decide (t.region = i) :=
      fun l => filter_append s.pending l
    rw [old]
    by_cases hi : i = s.regions.length
    · subst hi
      rw [List.getElem?_concat_length] at hr
      cases hr
      have all : (beginTasks s.regions.length (P 0 master)).filter
          (fun t => decide (t.region = s.regions.length)) =
          beginTasks s.regions.length (P 0 master) :=
        filter_eq_self.2 fun t ht => decide_eq_true (mem t ht).1
      have runs := I.fresh.2
      simp only [TaskState.runsOf] at runs ⊢
      rw [I.fresh.1, all, nil_append, tasks, runs]
      simp
    · have lt : i < s.regions.length := by
        have := (List.getElem?_eq_some_iff.1 hr).1
        rw [length_append, length_singleton] at this
        omega
      rw [List.getElem?_append_left lt] at hr
      have none : (beginTasks s.regions.length (P 0 master)).filter
          (fun t => decide (t.region = i)) = [] :=
        filter_eq_nil_iff.2 fun t ht eq => hi ((of_decide_eq_true eq).symm.trans (mem t ht).1)
      rw [none, append_nil]
      exact I.ids i r hr
  · intro c hc
    obtain ⟨r, hr, own⟩ := I.own c hc
    exact ⟨r, getElem?_append_left_of_some hr, own⟩

lemma TaskState.Inv.exec (I : s.Inv) {i geid : Nat} (h : taskStep E s (.exec i geid) = some s') : s'.Inv := by
  simp only [taskStep] at h
  split at h
  · cases h
  rename_i t ht
  split at h
  · cases h
  rename_i call hc
  cases h
  obtain ⟨hi, rfl⟩ := List.getElem?_eq_some_iff.1 ht
  have perm : s.pending.Perm (s.pending[i] :: s.pending.eraseIdx i) :=
    (getElem_cons_eraseIdx_perm hi).symm
  obtain ⟨r, hr, live, master⟩ := I.task _ (getElem_mem hi)
  have own : r.Owns ⟨s.pending[i].region, s.pending[i].taskId, call⟩ := by
    rw [master] at hc
    exact (I.holds r (mem_of_getElem? hr) live).owns hc
  refine ⟨I.level, I.sane, I.holds, fun t ht => I.task t (mem_of_mem_eraseIdx ht), ?_, ?_⟩
  · intro j q hq
    have ids := I.ids j q hq
    have waiting : ((s.pendingOf j).map Task.taskId).Perm
        (((s.pending[i] :: s.pending.eraseIdx i).filter fun t => decide (t.region = j)).map
          Task.taskId) := (perm.filter _).map _
    refine (List.Perm.symm ?_).trans ids
    refine (waiting.append_right _).trans ?_
    simp only [TaskState.pendingOf, TaskState.runsOf]
    -- the task moves from the waiting ones to the runs of its region
    by_cases hj : s.pending[i].region = j
    · rw [filter_cons_of_pos (by simpa using hj), filter_cons_of_pos (by simpa using hj)]
      exact perm_middle.symm
    · rw [filter_cons_of_neg (by simpa using hj), filter_cons_of_neg (by simpa using hj)]
  · intro c hc
    obtain rfl | hc := mem_cons.1 hc
    · exact ⟨r, hr, own⟩
    · exact I.own c hc

lemma TaskState.Inv.finish (I : s.Inv) {i : Nat} (h : taskStep E s (.finish i) = some s') : s'.Inv := by
  simp only [taskStep] at h
  split at h
  · cases h
  rename_i r hr
  split at h
  · cases h
  rename_i idle
  cases h
  obtain ⟨hi, -⟩ := List.getElem?_eq_some_iff.1 hr
  -- a region keeps what its call was given
  have back : ∀ (j : Nat) (q : TaskRegion), (s.regions.set i { r with ended := true })[j]? = some q →
      ∃ q0, s.regions[j]? = some q0 ∧ q.level = q0.level ∧ q.master = q0.master ∧ q.fn = q0.fn ∧
        q.args = q0.args ∧ q.range = q0.range ∧ (q.ended = false → q = q0) := by
    intro j q hq
    by_cases hj : j = i
    · subst hj
      rw [List.getElem?_set_self hi] at hq
      cases hq
      exact ⟨r, hr, rfl, rfl, rfl, rfl, rfl, nofun⟩
    · rw [List.getElem?_set_ne (Ne.symm hj)] at hq
      exact ⟨q, hq, rfl, rfl, rfl, rfl, rfl, fun _ => rfl⟩
  have mem : ∀ q ∈ s.regions.set i { r with ended := true },
      ∃ q0 ∈ s.regions, q.level = q0.level ∧ q.range = q0.range ∧ (q.ended = false → q = q0) := by
    intro q hq
    obtain ⟨j, hj⟩ := mem_iff_getElem?.1 hq
    obtain ⟨q0, h0, l, -, -, -, rng, same⟩ := back j q hj
    exact ⟨q0, mem_of_getElem? h0, l, rng, same⟩
  refine ⟨?_, ?_, ?_, ?_, ?_, ?_⟩
  · intro q hq
    obtain ⟨q0, h0, l, -⟩ := mem q hq
    exact l.trans (I.level q0 h0)
  · intro q hq
    obtain ⟨q0, h0, -, rng, -⟩ := mem q hq
    rw [rng]
    exact I.sane q0 h0
  · intro q hq live
    obtain ⟨q0, h0, -, -, same⟩ := mem q hq
    obtain rfl := same live
    have holds := I.holds q h0 live
    by_cases at_ : 0 = r.level ∧ q.master = r.master
    · simp only
      rw [at_.1, at_.2, Slots.set_self, ← at_.1, ← at_.2]
      exact ⟨holds.range, holds.chunk, holds.args, holds.fn⟩
    · simp only
      rwa [Slots.set_ne at_]
  · intro t ht
    obtain ⟨q, hq, rest⟩ := I.task t ht
    have ne : i ≠ t.region := by
      rintro rfl
      exact idle (.inr (any_eq_true.2 ⟨t, mem_append_left _ ht, by simp⟩))
    exact ⟨q, by rw [List.getElem?_set_ne ne]; exact hq, rest⟩
  · intro j q hq
    obtain ⟨q0, h0, -, -, -, -, rng, -⟩ := back j q hq
    rw [rng]
    exact I.ids j q0 h0
  · intro c hc
    obtain ⟨q, hq, own⟩ := I.own c hc
    by_cases hj : c.region = i
    · rw [hj] at hq ⊢
      rw [hr] at hq
      cases hq
      exact ⟨_, List.getElem?_set_self hi, own⟩
    · exact ⟨q, by rw [List.getElem?_set_ne (Ne.symm hj)]; exact hq, own⟩

lemma TaskState.Inv.step (hb : Built n E) (I : s.Inv) {a : TaskLabel} (hg : Undisturbed E s a)
    (h : taskStep E s a = some s') : s'.Inv := by
  cases a with
  | begin env req => exact I.begin hb hg h
  | exec i geid => exact I.exec h
  | ret i =>
    simp only [taskStep] at h
    split at h
    · cases h
      exact ⟨I.level, I.sane, I.holds, I.task, I.ids, I.own⟩
    · cases h
  | finish i => exact I.finish h

lemma TaskState.Inv.ok (I : s.Inv) : s.Ok := by
  refine ⟨I.own, fun i r hr ended x => ?_⟩
  have none : s.pendingOf i = [] := by
    refine filter_eq_nil_iff.2 fun t ht eq => ?_
    obtain ⟨q, hq, live, -⟩ := I.task t ht
    rw [of_decide_eq_true eq, hr] at hq
    cases hq
    rw [ended] at live
    cases live
  have ids := I.ids i r hr
  rw [none, map_nil, nil_append] at ids
  obtain ⟨block, dir, fit⟩ := I.sane r (mem_of_getElem? hr)
  have chunks : (s.runsOf i).countP (fun c => decide (c.call.range.Mem x)) =
      ((s.runsOf i).map ChunkRun.taskId).countP fun t : Nat =>
        decide ((taskChunk r.range (r.range.step * r.range.blocksize) t).Mem x) := by
    rw [countP_map]
    refine countP_congr fun c hc => ?_
    obtain ⟨hlog, hci⟩ := mem_filter.1 hc
    obtain ⟨q, hq, own⟩ := I.own c hlog
    rw [of_decide_eq_true hci, hr] at hq
    cases hq
    rw [own.2.2]
    rfl
  rw [chunks, ids.countP_eq, taskChunk_count block dir fit]

/-- In the runs in which no call disturbs a region of chunk tasks, the chunk tasks of every region run
its own function on its own range, and a region that has returned covered its range once. -/
theorem taskLoops_ok (hb : Built n E) (h : (taskLoops E).Reach (Undisturbed E) s) : s.Ok := by
  refine (h.inv ?_ fun s a s' I hg hs => TaskState.Inv.step hb I hg hs).ok
  rintro s ⟨hr, hp, -, hl⟩
  refine ⟨?_, ?_, ?_, ?_, ?_, ?_⟩ <;> simp [hr, hp, hl]

end Step

/-- A loop over `0, …, n - 1` as tasks of two executors. -/
def lineDesc (n : Int) : PfDesc where
  fieldMask := fieldDefault
  range := some ⟨1, fun _ => ⟨0, n, 1, 1⟩⟩
  egroup := some 0
  concurrency := 2
  policy := .task

def taskInit : TaskState := ⟨fun _ _ => .zero, [], [], [], []⟩

/-- A line in two tasks. -/
theorem taskLoops_ok_line : ∃ s : TaskState, s.regions.any TaskRegion.ended = true ∧ s.Ok := by
  obtain ⟨s, h, ended⟩ := Machine.exists_reach (M := taskLoops (fourGroup [0, 1]))
    (g := Undisturbed (fourGroup [0, 1]))
    (s := taskInit) (P := fun s => s.regions.any TaskRegion.ended = true)
    [.begin fourEnv (.parallelFor (lineDesc 2) (some 1) 0), .exec 1 0, .exec 0 1, .ret 0, .ret 0, .finish 0]
    ⟨rfl, rfl, rfl, rfl⟩ (by decide +kernel)
  exact ⟨s, ended, taskLoops_ok (fourGroup_built (by decide)) h⟩

def TaskState.astray (s : TaskState) : Bool :=
  s.log.any fun c => (s.regions[c.region]?).all fun r => !decide (r.Owns c)

/-- The master of a loop starts another one while it waits: the chunk tasks of the first run the
function of the second. -/
theorem taskLoops_astray : Built 4 (fourGroup [0, 1]) ∧
    ∃ s, (taskLoops (fourGroup [0, 1])).run (fun _ _ => True) taskInit
      [.begin fourEnv (.parallelFor (lineDesc 4) (some 1) 0),
        .begin fourEnv (.parallelFor (lineDesc 2) (some 2) 0), .exec 0 0] = some s ∧ ¬s.Ok := by
  refine ⟨fourGroup_built (by decide), ?_⟩
  have run : ((taskLoops (fourGroup [0, 1])).run (fun _ _ => True) taskInit
      [.begin fourEnv (.parallelFor (lineDesc 4) (some 1) 0),
        .begin fourEnv (.parallelFor (lineDesc 2) (some 2) 0), .exec 0 0]).any
      TaskState.astray = true := by decide +kernel
  obtain ⟨s, hs, astray⟩ := (Option.any_eq_true _ _).1 run
  refine ⟨s, hs, fun ok => ?_⟩
  obtain ⟨c, hc, bad⟩ := any_eq_true.1 astray
  obtain ⟨r, hr, own⟩ := ok.own c hc
  simp [hr, own] at bad

end Kupl.Loop
