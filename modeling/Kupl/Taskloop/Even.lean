import Mathlib.Data.Int.ConditionallyCompleteOrder
import Kupl.Taskloop.Ids

/-!
# The shares of the executors

What each executor gets of the tasks that `kupl_taskloop_linear` and `kupl_taskloop_dispatch` of
`src/mt/kupl_graph.cpp` create: a run of consecutive numbers, one longer for some executors than for the
others. The runs hold all numbers where the size of the group is the number of its members.
-/

namespace Kupl.Taskloop
open Range Kupl.Group Word Kupl.Cut List

/-- The indices of the block of a task in some dimensions (C++ `block_idx`). -/
def blockIndices (info : TaskloopInfo) : List Nat → Int → List Int
  | [], _ => []
  | d :: ds, taskId => taskId.tmod (info.blocks d) :: blockIndices info ds (taskId.tdiv (info.blocks d))

/-- Each number is that of one task, and each member has a run of numbers. -/
structure Even (g : EgroupInfo) (total : Int) (tasks : List (Nat × Int)) : Prop where
  once : (tasks.map Prod.snd).Perm ((List.range total.toNat).map Int.ofNat)
  runs : ∃ k, ∀ eid ∈ forEachEgroup g, ∃ start len, k ≤ len ∧ len ≤ k + 1 ∧
    (tasks.filter (·.1 = eid)).map Prod.snd = (List.range' start len).map Int.ofNat

section Blocks
variable {info : TaskloopInfo} {range : NdRange} {ds : List Nat} {id id' : Int}

lemma blockIndices_inj (lt : id.natAbs < (ds.map fun d => (info.blocks d).natAbs).prod)
    (lt' : id'.natAbs < (ds.map fun d => (info.blocks d).natAbs).prod)
    (eq : blockIndices info ds id = blockIndices info ds id') : id = id' := by
  induction ds generalizing id id' with
  | nil =>
    rw [map_nil, prod_nil] at lt lt'
    omega
  | cons d ds ih =>
    have quot : ∀ {id : Int}, id.natAbs < ((d :: ds).map fun d => (info.blocks d).natAbs).prod →
        (id.tdiv (info.blocks d)).natAbs < (ds.map fun d => (info.blocks d).natAbs).prod := by
      intro id lt
      rw [Int.natAbs_tdiv]
      exact Nat.div_lt_of_lt_mul lt
    obtain ⟨rem, rest⟩ := List.cons.inj eq
    have div := ih (quot lt) (quot lt') rest
    rw [← Int.mul_tdiv_add_tmod id (info.blocks d), ← Int.mul_tdiv_add_tmod id' (info.blocks d), rem, div]

lemma totalTasks64_natAbs {total n : Int} (count : totalTasks64 range = some total) :
    total.natAbs = ((List.range range.dim.toNat).map fun d =>
      ((taskloopInfo range n total).blocks d).natAbs).prod := by
  have fold : ∀ (ds : List Nat) (t : Int),
      ds.foldlM (fun total d => do mul 64 total (← blockCount64 (range.ndRange d))) t = some total →
      total.natAbs = t.natAbs * (ds.map fun d => ((taskloopInfo range n total).blocks d).natAbs).prod := by
    intro ds
    induction ds with
    | nil =>
      intro t done
      cases done
      simp
    | cons d ds ih =>
      intro t done
      simp only [foldlM_cons, Option.bind_eq_bind, Option.bind_eq_some_iff] at done
      obtain ⟨_, ⟨b, hb, product⟩, rest⟩ := done
      obtain ⟨-, rfl⟩ := mul_eq_some.1 product
      have blocks : (taskloopInfo range n total).blocks d = b := by simp [taskloopInfo, hb]
      rw [ih _ rest, map_cons, prod_cons, blocks, Int.natAbs_mul, Nat.mul_assoc]
  rw [fold _ _ count]
  simp

end Blocks

section Runs
variable {g : EgroupInfo} {info : TaskloopInfo} {total n : Nat}

lemma filter_zipIdx {f : Nat → List Int} {l : List Nat} {k j e : Nat} (nodup : l.Nodup)
    (place : l[j]? = some e) : (((l.zipIdx k).flatMap fun p => (f p.2).map (Prod.mk p.1)).filter
      (·.1 = e)).map Prod.snd = f (k + j) := by
  have own : ∀ (a : Nat) (t : List Int), ((t.map (Prod.mk a)).filter (·.1 = e)).map Prod.snd =
      if a = e then t else [] := by
    intro a t
    rw [filter_map, map_map]
    split <;> simp [Function.comp_def, *]
  induction l generalizing k j with
  | nil => cases place
  | cons a l ih =>
    obtain ⟨fresh, nodup⟩ := nodup_cons.1 nodup
    rw [zipIdx_cons, flatMap_cons, filter_append, map_append, own]
    cases j with
    | zero =>
      obtain rfl : a = e := by simpa using place
      have rest : ((l.zipIdx (k + 1)).flatMap fun p => (f p.2).map (Prod.mk p.1)).filter (·.1 = a) = [] := by
        rw [filter_eq_nil_iff]
        intro q hq
        obtain ⟨p, hp, hq⟩ := mem_flatMap.1 hq
        obtain ⟨t, -, rfl⟩ := mem_map.1 hq
        have ne : p.1 ≠ a := fun eq => fresh (eq ▸ fst_mem_of_mem_zipIdx hp)
        simp [ne]
      rw [if_pos rfl, rest, map_nil, append_nil, Nat.add_zero]
    | succ j =>
      have place : l[j]? = some e := by simpa using place
      have other : a ≠ e := fun eq => fresh (eq ▸ mem_of_getElem? place)
      rw [if_neg other, nil_append, ih nodup place, Nat.add_right_comm, Nat.add_assoc]

lemma taskloopLinear_run (S : Shares info total n) (I : g.Ok) (le : g.eidSet.card ≤ n) {j e : Nat}
    (place : (forEachEgroup g)[j]? = some e) :
    ((taskloopLinear g info).filter (·.1 = e)).map Prod.snd =
      (List.range' (linearStart total n j) (linearStart total n (j + 1) - linearStart total n j)).map
        Int.ofNat := by
  have lt := (List.getElem?_eq_some_iff.1 place).1
  rw [forEachEgroup_length I] at lt
  rw [← map_id (List.range' _ _), ← linearTask_rounds (by omega : j < n)]
  unfold taskloopLinear
  rw [S.maxTasks, Int.toNat_natCast, filter_flatMap, map_flatMap, map_flatMap]
  refine flatMap_congr fun i _ => ?_
  have round := @linearRound_eq info total n S i (forEachEgroup g) 0 (by rw [forEachEgroup_length I]; omega)
  rw [linearStart_zero S.pos, Nat.add_zero] at round
  have own := @filter_zipIdx (fun e => (linearTask total n i e).map Int.ofNat) _ 0 _ _
    (forEachEgroup_nodup g) place
  rw [Nat.zero_add] at own
  rw [← own]
  simp only [Nat.cast_zero] at round
  rw [round]

lemma taskloopConcurrent_run (S : Shares info total n) (size : g.size = n)
    (le : (forEachEgroup g).length ≤ n) {j e : Nat} (place : (forEachEgroup g).reverse[j]? = some e) :
    ((taskloopConcurrent g info).filter (·.1 = e)).map Prod.snd = (List.range' (share total n (n - 1 - j))
        (share total n (n - 1 - j + 1) - share total n (n - 1 - j))).map Int.ofNat := by
  have lt := (List.getElem?_eq_some_iff.1 place).1
  rw [length_reverse] at lt
  have own := @filter_zipIdx (fun i => (taskloopDispatch info 0 (g.size - 1 - i : Int)).map Prod.snd) _ 0 _ _
    (nodup_reverse.2 (forEachEgroup_nodup g)) place
  have back : (g.size : Int) - 1 - (0 + j : Nat) = (n - 1 - j : Nat) := by omega
  rw [back, taskloopDispatch_ids S] at own
  rw [← own]
  simp only [taskloopConcurrent, taskloopDispatch, map_map, Function.comp_def]

lemma linearStart_lt {c : Nat} (pos : 0 < n) (lt : c < n) (some : 0 < total) : linearStart total n c < total := by
  have le : linearStart total n c ≤ linearStart total n (n - 1) := linearStart_mono (by omega)
  have last := @linearStart_succ total n (n - 1)
  have rem : total / n = 0 → total % n = total := fun none =>
    Nat.mod_eq_of_lt (Nat.lt_of_div_eq_zero pos none)
  rw [Nat.sub_add_cancel pos, linearStart_last] at last
  generalize total / n = quot at *
  split at last <;> omega

lemma even_linear (S : Shares info total n) (I : g.Ok) (all : n = g.eidSet.card) :
    Even g total (taskloopLinear g info) := by
  have ids := taskloopLinear_ids S I all.ge
  rw [← all, linearStart_last] at ids
  refine ⟨ids, total / n, fun eid mem => ?_⟩
  obtain ⟨j, place⟩ := mem_iff_getElem?.1 mem
  have run := taskloopLinear_run S I all.ge place
  rw [linearStart_succ, Nat.add_sub_cancel_left] at run
  refine ⟨_, _, Nat.le_add_right _ _, ?_, run⟩
  split <;> omega

lemma even_concurrent (S : Shares info total n) (I : g.Ok) (size : g.size = n)
    (all : n = g.eidSet.card) : Even g total (taskloopConcurrent g info) := by
  have ids := taskloopConcurrent_ids S I size all.ge
  rw [← all, Nat.sub_self, share_zero, Nat.sub_zero, ← range_eq_range'] at ids
  have len := forEachEgroup_length I
  refine ⟨ids, total / n, fun eid mem => ?_⟩
  obtain ⟨j, place⟩ := mem_iff_getElem?.1 (mem_reverse.2 mem)
  have run := taskloopConcurrent_run S size (by omega) place
  rw [share_succ, Nat.add_sub_cancel_left] at run
  refine ⟨_, _, Nat.le_add_right _ _, ?_, run⟩
  split <;> omega

lemma even_nil {t : Int} (le : t ≤ 0) : Even g t [] := by
  have none : t.toNat = 0 := by omega
  refine ⟨by rw [none]; rfl, 0, fun eid _ => ⟨0, 0, le_rfl, Nat.le_succ 0, rfl⟩⟩

lemma taskloopConcurrent_nil {range : NdRange} {t : Int} (le : t ≤ 0) :
    taskloopConcurrent g (taskloopInfo range n t) = [] := by
  obtain ⟨most, least⟩ := @taskloopInfo_nil range n t le
  unfold taskloopConcurrent
  rw [flatMap_eq_nil_iff]
  intro p _
  simp only [taskloopDispatch]
  split <;> simp only [most, least] <;> rfl

end Runs

section Headline
variable {E : Egroups} {range : NdRange} {n h : Nat} {total : Int}

/-- Both ways create each task once, in even runs, and the blocks differ. -/
structure Agreed (g : EgroupInfo) (info : TaskloopInfo) : Prop where
  linear : Even g info.totalTasks (taskloopLinear g info)
  concurrent : Even g info.totalTasks (taskloopConcurrent g info)
  distinct : Set.InjOn (blockIndices info (List.range info.dim.toNat)) (Set.Ico 0 info.totalTasks)

/-- The ways agree if and only if the group is as large as the number of its members, or there is no
task. -/
theorem taskloopShares_iff (built : Built n E) (accepted : Loop.curSize (E h).cur ≠ 0)
    (count : totalTasks64 range = some total) :
    Agreed (E h).cur (taskloopInfo range (Loop.curSize (E h).cur) total) ↔
      (E h).cur.size = (E h).cur.eidSet.card ∨ total ≤ 0 := by
  have I : (E h).cur.Ok := (built.ok h).1
  have size := curSize_eq accepted
  have pos : 0 < (E h).cur.size := Nat.pos_of_ne_zero (size ▸ accepted)
  rw [size]
  generalize (E h).cur = g at *
  constructor
  · intro agreed
    by_cases none : total ≤ 0
    · exact .inr none
    · obtain ⟨t, rfl⟩ := Int.eq_ofNat_of_zero_le (by omega : 0 ≤ total)
      have S := @taskloopInfo_shares t g.size range pos
      have ids := (agreed.linear.once.symm.trans (taskloopLinear_ids S I I.card_le)).length_eq
      simp only [S.totalTasks, length_map, length_range, Int.toNat_natCast] at ids
      apply Or.inl
      apply le_antisymm _ I.card_le
      apply le_of_not_gt
      intro lacking
      have lt := linearStart_lt pos lacking (by omega : 0 < t)
      omega
  · intro ok
    have distinct : Set.InjOn (blockIndices (taskloopInfo range g.size total)
        (List.range (taskloopInfo range g.size total).dim.toNat)) (Set.Ico 0 total) := by
      intro id hid id' hid' eq
      have product := @totalTasks64_natAbs range total g.size count
      have low := Set.mem_Ico.1 hid
      have low' := Set.mem_Ico.1 hid'
      exact blockIndices_inj (product ▸ (by omega)) (product ▸ (by omega)) eq
    by_cases none : total ≤ 0
    · refine ⟨?_, ?_, distinct⟩
      · rw [taskloopLinear_nil none]
        exact even_nil none
      · rw [taskloopConcurrent_nil none]
        exact even_nil none
    · obtain ⟨t, rfl⟩ := Int.eq_ofNat_of_zero_le (by omega : 0 ≤ total)
      have S := @taskloopInfo_shares t g.size range pos
      have all := ok.resolve_right none
      exact ⟨even_linear S I all, even_concurrent S I rfl all, distinct⟩

/-- Two executors share three tasks. -/
theorem taskloopShares_two : ∃ E, Built 2 E ∧
    Agreed (E 0).cur (taskloopInfo ⟨1, fun _ => ⟨0, 3, 1, 1⟩⟩ (Loop.curSize (E 0).cur) 3) := by
  have built : Built 2 _ := .create 0 .none (rfl : egroupCreate 2 [0, 1] = some _)
  exact ⟨_, built, (taskloopShares_iff built (by decide) rfl).2 (.inl (by decide))⟩

/-- A group that has taken over its only member a second time counts two, and the second of two tasks is
not created. -/
theorem taskloopShares_lent : ∃ E, Built 2 E ∧ Loop.curSize (E 0).cur ≠ 0 ∧
    totalTasks64 ⟨1, fun _ => ⟨0, 2, 1, 1⟩⟩ = some 2 ∧
    ¬Agreed (E 0).cur (taskloopInfo ⟨1, fun _ => ⟨0, 2, 1, 1⟩⟩ (Loop.curSize (E 0).cur) 2) := by
  have first : Built 2 _ := .create 0 .none (rfl : egroupCreate 2 [0] = some _)
  have both : Built 2 _ := .create 1 first (rfl : egroupCreate 2 [0] = some _)
  refine ⟨_, .borrow 0 1 both, by decide, rfl, fun agreed => ?_⟩
  exact absurd agreed.linear.once.length_eq (by decide)

end Headline
end Kupl.Taskloop
