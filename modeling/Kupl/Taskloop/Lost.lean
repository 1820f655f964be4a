import Mathlib.Data.List.TakeWhile
import Kupl.Loop.TaskLoop
import Kupl.Taskloop.Even

/-!
# Tasks that are not created

What becomes of a loop when the allocation of a task fails. `kupl_task_policy_impl` of `mt/kupl_parallel_for.cpp`
leaves the chunk out and returns `KUPL_OK`, and so does a dispatch task of `mt/kupl_graph.cpp`, which gives up the
other blocks of its executor when `kupl_graph_add_taskloop` has long returned. `kupl_taskloop_linear` and
`kupl_taskloop_concurrent` return `KUPL_ERROR` for the tasks that they create themselves.

`alloc`, `block` and `dispatch` say of each task whether its allocation succeeds.
-/

namespace Kupl.Taskloop
open Range Kupl.Group Word Kupl.Cut List

/-- Whether a call reports success, and the tasks it creates (C++ `kupl_task_policy_impl`). -/
def taskPolicyImpl (alloc : Nat → Bool) (region : Nat) (pf : Loop.Pf) : Bool × List Loop.Task :=
  (true, (Loop.beginTasks region pf).filter fun t => alloc t.taskId)

/-- Tasks are created up to the first one that cannot be allocated. -/
def createAll {α : Type} (alloc : α → Bool) (tasks : List α) : Bool × List α :=
  (tasks.all alloc, tasks.takeWhile alloc)

/-- Whether a call reports success, and the tasks that come of it (C++ `kupl_graph_add_taskloop`): its own, or those
of the dispatch tasks that it creates. -/
def addTaskloop (dispatch : Nat → Bool) (block : Nat × Int → Bool) (g : EgroupInfo) (info : TaskloopInfo) :
    Bool × List (Nat × Int) :=
  if info.esize * taskloopThreshold > info.totalTasks then createAll block (taskloopLinear g info)
  else
    let sent := createAll (fun p => dispatch p.1) (forEachEgroup g).reverse.zipIdx
    (sent.1, sent.2.flatMap fun p =>
      (createAll block (taskloopDispatch info p.1 (g.size - 1 - p.2 : Int))).2)

/-- Success is reported only when each number below the total is that of a task. -/
def Honest (total : Int) (ok : Bool) (numbers : List Int) : Prop :=
  ok = true → ∀ id : Nat, (id : Int) < total → (id : Int) ∈ numbers

section Policy
variable {n : Nat} {E : Egroups} {env : Loop.Env} {P P' : Loop.Slots} {req : Loop.Request} {level master : Nat}
  {alloc : Nat → Bool}

lemma policy_honest (built : Built n E) (begin_ : Loop.beginRegion env E P req = (P', .task level master))
    (pos : 0 < (P' level master).numThreads) (region : Nat) :
    Honest (P' level master).totalChunks (taskPolicyImpl alloc region (P' level master)).1
        ((taskPolicyImpl alloc region (P' level master)).2.map fun t => (t.taskId : Int)) ↔
      ∀ id : Nat, (id : Int) < (P' level master).totalChunks → alloc id = true := by
  obtain ⟨d, g, k, range, checked, hasRange, resolved, -, isTask, -, slot⟩ := Loop.beginRegion_task begin_
  obtain ⟨dim, blocksize, before⟩ := Loop.Request.check_task checked isTask hasRange
  have ids : (Loop.beginTasks region (P' level master)).map Loop.Task.taskId =
      List.range (P' level master).totalChunks.toNat := by
    rw [slot.numThreads] at pos
    rw [Loop.beginTasks_ids slot (Loop.Request.resolve_ok built resolved) (Loop.Request.resolve_size resolved pos) pos
      dim blocksize before, slot.totalChunks]
    simp [Range.calcChunkInfo, dim]
  constructor
  · intro honest id lt
    obtain ⟨t, ht, same⟩ := mem_map.1 (honest rfl id lt)
    rw [← Int.ofNat_inj.1 same]
    exact (mem_filter.1 ht).2
  · intro all _ id lt
    have mem : id ∈ (Loop.beginTasks region (P' level master)).map Loop.Task.taskId := by
      rw [ids, mem_range]
      omega
    obtain ⟨t, ht, rfl⟩ := mem_map.1 mem
    exact mem_map.2 ⟨t, mem_filter.2 ⟨ht, all t.taskId lt⟩, rfl⟩

end Policy

section Blocks
variable {g : EgroupInfo} {info : TaskloopInfo} {total n : Nat} {dispatch : Nat → Bool} {block : Nat × Int → Bool}
  {created tasks : List (Nat × Int)} {numbers : List Nat}

lemma eq_of_covers (sub : created.Sublist tasks) (ids : (tasks.map Prod.snd).Perm (numbers.map Int.ofNat))
    (le : numbers.length ≤ total) (covers : ∀ id : Nat, (id : Int) < total →
      (id : Int) ∈ created.map Prod.snd) :
    created = tasks ∧ numbers.length = total := by
  have subset : (List.range total).map Int.ofNat ⊆ created.map Prod.snd := by
    intro x hx
    obtain ⟨id, lt, rfl⟩ := mem_map.1 hx
    exact covers id (Int.ofNat_lt.2 (mem_range.1 lt))
  have nodup : ((List.range total).map Int.ofNat).Nodup :=
    nodup_range.map fun _ _ => Int.ofNat_inj.1
  have most := (subperm_of_subset nodup subset).length_le
  have same := ids.length_eq
  have fewer := sub.length_le
  simp only [length_map, length_range] at most same
  exact ⟨sub.eq_of_length (by omega), by omega⟩

lemma taskNumbers_length {c : Nat} (pos : 0 < n) (le : c ≤ n) (some : 0 < total) :
    (taskNumbers total n c).length ≤ total ∧ ((taskNumbers total n c).length = total → c = n) := by
  unfold taskNumbers
  split
  · rw [length_range]
    refine ⟨linearStart_le le, fun full => ?_⟩
    by_contra ne
    have := linearStart_lt pos (by omega : c < n) some
    omega
  · rw [length_range']
    refine ⟨Nat.sub_le _ _, fun full => ?_⟩
    by_contra ne
    have each : 1 ≤ total / n := (Nat.le_div_iff_mul_le pos).2 (by omega)
    have share := Nat.mul_le_mul_right (total / n) (by omega : 1 ≤ n - c)
    unfold Cut.share at full
    omega

/-- The call itself meets an allocation that fails. -/
def Refused (dispatch : Nat → Bool) (block : Nat × Int → Bool) (g : EgroupInfo) (info : TaskloopInfo) : Prop :=
  if info.esize * taskloopThreshold > info.totalTasks then ∃ t ∈ taskloopLinear g info, block t = false
  else ∃ eid ∈ forEachEgroup g, dispatch eid = false

lemma ok_iff : (addTaskloop dispatch block g info).1 = true ↔ ¬Refused dispatch block g info := by
  unfold addTaskloop Refused
  split
  · simp only [createAll, all_eq_true, not_exists, not_and, Bool.not_eq_false]
  · simp only [createAll, all_eq_true, not_exists, not_and, Bool.not_eq_false]
    constructor
    · intro all eid mem
      obtain ⟨i, at_i⟩ := mem_iff_getElem?.1 (mem_reverse.2 mem)
      exact all (eid, i) (mem_zipIdx_iff_getElem?.2 at_i)
    · exact fun all p mem => all p.1 (mem_reverse.1 (fst_mem_of_mem_zipIdx mem))

lemma created_sublist (ok : (addTaskloop dispatch block g info).1 = true) :
    (addTaskloop dispatch block g info).2.Sublist (taskloopTasks g info) := by
  unfold addTaskloop taskloopTasks at *
  split
  · exact takeWhile_sublist _
  · rename_i many
    rw [if_neg many] at ok
    simp only [createAll] at ok ⊢
    rw [takeWhile_eq_self_iff.2 (all_eq_true.1 ok)]
    exact List.Sublist.flatMap_right _ fun p _ => takeWhile_sublist _

lemma created_block {t : Nat × Int} (mem : t ∈ (addTaskloop dispatch block g info).2) : block t = true := by
  unfold addTaskloop at mem
  split at mem
  · exact mem_takeWhile_imp mem
  · obtain ⟨p, -, mem⟩ := mem_flatMap.1 mem
    exact mem_takeWhile_imp mem

lemma created_all (ok : (addTaskloop dispatch block g info).1 = true)
    (all : ∀ t ∈ taskloopTasks g info, block t = true) :
    (addTaskloop dispatch block g info).2 = taskloopTasks g info := by
  unfold addTaskloop taskloopTasks at *
  split
  · rename_i few
    rw [if_pos few] at all
    exact takeWhile_eq_self_iff.2 all
  · rename_i many
    rw [if_neg many] at ok all
    simp only [createAll] at ok ⊢
    rw [takeWhile_eq_self_iff.2 (all_eq_true.1 ok)]
    refine flatMap_congr fun p hp => takeWhile_eq_self_iff.2 fun t ht => ?_
    exact all t (mem_flatMap.2 ⟨p, hp, ht⟩)

lemma taskloop_honest (S : Shares info total n) (I : g.Ok) (size : g.size = n) (some : 0 < total) :
    Honest total (addTaskloop dispatch block g info).1 ((addTaskloop dispatch block g info).2.map Prod.snd) ↔
      Refused dispatch block g info ∨ g.size = g.eidSet.card ∧ ∀ t ∈ taskloopTasks g info, block t = true := by
  have ids := taskloopTasks_ids S I size
  have length := taskNumbers_length S.pos (size ▸ I.card_le) some
  constructor
  · intro honest
    by_cases refused : Refused dispatch block g info
    · exact .inl refused
    · have ok := ok_iff.2 refused
      obtain ⟨same, full⟩ := eq_of_covers (created_sublist ok) ids length.1 (honest ok)
      refine .inr ⟨size.trans (length.2 full).symm, fun t ht => ?_⟩
      rw [← same] at ht
      exact created_block ht
  · rintro (refused | ⟨members, all⟩) ok id lt
    · exact absurd refused (ok_iff.1 ok)
    · have number : taskNumbers total n g.eidSet.card = List.range total := by
        rw [taskNumbers_eq fun _ => members.symm.trans size, ← members, size, linearStart_last]
      rw [created_all ok all, ids.mem_iff, number]
      exact mem_map.2 ⟨id, mem_range.2 (Int.ofNat_lt.1 lt), rfl⟩

end Blocks

section Headline
variable {E : Egroups} {n : Nat}

/-- Success is reported only when nothing is lost: for chunks if and only if each one is allocated, and for blocks if
and only if the call itself meets a failed allocation, or each block is allocated and the size of the group is the
number of its members. -/
theorem taskFailures_iff (built : Built n E) :
    (∀ (env : Loop.Env) (P P' : Loop.Slots) (req : Loop.Request) (level master region : Nat) (alloc : Nat → Bool),
      Loop.beginRegion env E P req = (P', .task level master) → 0 < (P' level master).numThreads →
      (Honest (P' level master).totalChunks (taskPolicyImpl alloc region (P' level master)).1
          ((taskPolicyImpl alloc region (P' level master)).2.map fun t => (t.taskId : Int)) ↔
        ∀ id : Nat, (id : Int) < (P' level master).totalChunks → alloc id = true)) ∧
    ∀ (h : Nat) (range : NdRange) (total : Int) (dispatch : Nat → Bool) (block : Nat × Int → Bool),
      Loop.curSize (E h).cur ≠ 0 → totalTasks64 range = some total →
      let info := taskloopInfo range (Loop.curSize (E h).cur) total
      (Honest total (addTaskloop dispatch block (E h).cur info).1
          ((addTaskloop dispatch block (E h).cur info).2.map Prod.snd) ↔
        total ≤ 0 ∨ Refused dispatch block (E h).cur info ∨
          (E h).cur.size = (E h).cur.eidSet.card ∧ ∀ t ∈ taskloopTasks (E h).cur info, block t = true) := by
  refine ⟨fun env P P' req level master region alloc begin_ pos => policy_honest built begin_ pos region, ?_⟩
  intro h range total dispatch block accepted _
  have I : (E h).cur.Ok := (built.ok h).1
  have size := curSize_eq accepted
  have pos : 0 < (E h).cur.size := Nat.pos_of_ne_zero (size ▸ accepted)
  dsimp only
  rw [size]
  by_cases none : total ≤ 0
  · exact iff_of_true (fun _ id lt => absurd lt (by omega)) (.inl none)
  · obtain ⟨t, rfl⟩ := Int.eq_ofNat_of_zero_le (by omega : 0 ≤ total)
    have S := @taskloopInfo_shares t (E h).cur.size range pos
    rw [taskloop_honest S I rfl (by omega), or_iff_right none]

/-- The start of a loop of two chunks as tasks. -/
def lineCall : Loop.Slots × Loop.Start :=
  Loop.beginRegion Loop.fourEnv (Loop.fourGroup [0, 1]) (fun _ _ => .zero) (.parallelFor (Loop.lineDesc 2) (some 1) 0)

def fiveBlocks : NdRange := ⟨1, fun _ => ⟨0, 5, 1, 1⟩⟩

/-- Nothing fails. -/
theorem taskFailures_iff_line : Honest (lineCall.1 0 0).totalChunks
      (taskPolicyImpl (fun _ => true) 0 (lineCall.1 0 0)).1
      ((taskPolicyImpl (fun _ => true) 0 (lineCall.1 0 0)).2.map fun t => (t.taskId : Int)) ∧
    Honest 5 (addTaskloop (fun _ => true) (fun _ => true) (Loop.fourGroup [0, 1] 0).cur (taskloopInfo fiveBlocks 2 5)).1
      ((addTaskloop (fun _ => true) (fun _ => true) (Loop.fourGroup [0, 1] 0).cur
        (taskloopInfo fiveBlocks 2 5)).2.map Prod.snd) := by
  have built : Built 4 (Loop.fourGroup [0, 1]) := Loop.fourGroup_built (by decide)
  have task : lineCall = (lineCall.1, .task 0 0) := rfl
  refine ⟨((taskFailures_iff built).1 _ _ _ _ 0 0 0 _ task (by decide)).2 fun _ _ => rfl, ?_⟩
  exact ((taskFailures_iff built).2 0 fiveBlocks 5 _ _ (by decide) rfl).2 (.inr (.inr ⟨by decide, fun _ _ => rfl⟩))

/-- The second of two chunks is not allocated, and the third of five blocks is not allocated by the dispatch task:
both calls report success. -/
theorem taskFailures_lost : Built 4 (Loop.fourGroup [0, 1]) ∧ lineCall.2 = .task 0 0 ∧
    ¬Honest (lineCall.1 0 0).totalChunks (taskPolicyImpl (· = 0) 0 (lineCall.1 0 0)).1
      ((taskPolicyImpl (· = 0) 0 (lineCall.1 0 0)).2.map fun t => (t.taskId : Int)) ∧
    ∃ E, Built 4 E ∧ totalTasks64 fiveBlocks = some 5 ∧
      ¬Honest 5 (addTaskloop (fun _ => true) (·.2 ≠ 2) (E 0).cur (taskloopInfo fiveBlocks 1 5)).1
        ((addTaskloop (fun _ => true) (·.2 ≠ 2) (E 0).cur (taskloopInfo fiveBlocks 1 5)).2.map Prod.snd) := by
  refine ⟨Loop.fourGroup_built (by decide), rfl, fun honest => ?_, Loop.fourGroup [0],
    Loop.fourGroup_built (by decide), rfl, fun honest => ?_⟩
  · exact absurd (honest rfl 1 (by decide)) (by decide)
  · exact absurd (honest (by decide) 2 (by decide)) (by decide)

end Headline
end Kupl.Taskloop
