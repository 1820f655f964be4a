import Kupl.Taskloop.Add

/-!
# The numbers of the tasks of a loop

Which tasks `kupl_taskloop_linear` and `kupl_taskloop_concurrent` of `src/mt/kupl_graph.cpp` create. The
tasks are shared among as many executors as the size of the group says, in blocks of consecutive
numbers. A group that has taken over members it already had is larger than the number of its members,
and the shares of the executors it lacks are not created: those of the last ones in the linear case, and
of the first ones in the concurrent case.
-/

namespace Kupl.Taskloop
open Range Kupl.Group Word Kupl.Cut List

lemma flatMap_comm_perm {α β γ : Type*} (l : List α) (m : List β) (f : α → β → List γ) :
    (l.flatMap fun a => m.flatMap (f a)).Perm (m.flatMap fun b => l.flatMap fun a => f a b) := by
  induction l with
  | nil => simp
  | cons a l ih =>
    simp only [flatMap_cons]
    exact (ih.append_left _).trans (flatMap_append_perm m _ _)

lemma forEachEgroup_nodup (g : EgroupInfo) : (forEachEgroup g).Nodup :=
  List.Nodup.filter _ nodup_range'

lemma forEachEgroup_length {g : EgroupInfo} (I : g.Ok) : (forEachEgroup g).length = g.eidSet.card := by
  have mem : (forEachEgroup g).toFinset = g.eidSet := by
    ext e
    rw [mem_toFinset, forEachEgroup, mem_filter, mem_range'_1]
    constructor
    · exact fun h => of_decide_eq_true h.2
    · intro h
      have low := I.low e h
      have high := I.high e h
      exact ⟨by omega, decide_eq_true h⟩
  rw [← mem, toFinset_card_of_nodup (forEachEgroup_nodup g)]

lemma curSize_eq {g : EgroupInfo} (some : Loop.curSize g ≠ 0) : Loop.curSize g = g.size := by
  unfold Loop.curSize at some ⊢
  split
  · rename_i big
    rw [if_pos big] at some
    exact absurd rfl some
  · rfl

/-- Where the tasks of a member begin in the linear case: the last members have one more. -/
def linearStart (total n e : Nat) : Nat := e * (total / n) + (e + total % n - n)

section Shares
variable {info : TaskloopInfo} {total n : Nat}

/-- The tasks are shared among `n` executors. -/
structure Shares (info : TaskloopInfo) (total n : Nat) : Prop where
  pos : 0 < n
  esize : info.esize = n
  totalTasks : info.totalTasks = total
  minTasks : info.minTasks = (total / n : Nat)
  extraTasks : info.extraTasks = (total % n : Nat)
  maxTasks : info.maxTasks = (total / n + if 0 < total % n then 1 else 0 : Nat)

lemma taskloopInfo_shares {range : NdRange} (pos : 0 < n) : Shares (taskloopInfo range n total) total n := by
  refine ⟨pos, rfl, rfl, rfl, rfl, ?_⟩
  simp only [taskloopInfo]
  rw [← Int.ofNat_tdiv, ← Int.ofNat_tmod]
  split <;> split <;> omega

@[simp] lemma linearStart_zero (pos : 0 < n) : linearStart total n 0 = 0 := by
  have := Nat.mod_lt total pos
  rw [linearStart, Nat.zero_mul]
  omega

lemma linearStart_succ {e : Nat} : linearStart total n (e + 1) =
    linearStart total n e + (total / n + if n ≤ e + total % n then 1 else 0) := by
  rw [linearStart, linearStart, Nat.succ_mul]
  split <;> omega

lemma linearStart_last : linearStart total n n = total := by
  rw [linearStart, Nat.add_sub_cancel_left]
  exact Nat.div_add_mod total n

lemma linearStart_mono : Monotone (linearStart total n) :=
  monotone_nat_of_le_succ fun e => by
    rw [linearStart_succ]
    exact Nat.le_add_right _ _

lemma linearStart_le {e : Nat} (le : e ≤ n) : linearStart total n e ≤ total := by
  have last := @linearStart_mono total n _ _ le
  rwa [linearStart_last] at last

/-- A member gets a task in a round unless the round is one of the larger shares and its own is not. -/
def linearTask (total n i e : Nat) : List Nat :=
  if i = total / n ∧ e + total % n < n then [] else [i + linearStart total n e]

section
variable (S : Shares info total n)
include S

lemma linearRound_eq {i : Nat} {eids : List Nat} {e : Nat} (le : e + eids.length ≤ n) :
    linearRound info i eids e ((i + linearStart total n e : Nat) : Int) =
      (eids.zipIdx e).flatMap fun p => ((linearTask total n i p.2).map Int.ofNat).map (Prod.mk p.1) := by
  induction eids generalizing e with
  | nil => rfl
  | cons eid eids ih =>
    rw [length_cons] at le
    have ih := ih (by omega : e + 1 + eids.length ≤ n)
    have next := @linearStart_succ total n e
    have round : ∀ t : Int, linearRound info i (eid :: eids) e t =
        if (i : Int) = info.minTasks ∧ (e : Int) + info.extraTasks < info.esize then
          linearRound info i eids ((e + 1 : Nat) : Int) (t + info.minTasks)
        else (eid, t) :: linearRound info i eids ((e + 1 : Nat) : Int)
          (t + info.minTasks + if (e : Int) + info.extraTasks ≥ info.esize then 1 else 0) :=
      fun _ => rfl
    rw [zipIdx_cons, flatMap_cons, ← ih, round, S.minTasks, S.extraTasks, S.esize]
    unfold linearTask
    split
    · rename_i skip
      have skip' : i = total / n ∧ e + total % n < n := by omega
      have start : ((i + linearStart total n e : Nat) : Int) + (total / n : Nat) =
          ((i + linearStart total n (e + 1) : Nat) : Int) := by
        rw [next, if_neg (by omega)]
        push_cast
        ring
      rw [if_pos skip', start]
      rfl
    · rename_i go
      have go' : ¬(i = total / n ∧ e + total % n < n) := by omega
      have start : ((i + linearStart total n e : Nat) : Int) + (total / n : Nat) +
          (if (e : Int) + (total % n : Nat) ≥ n then 1 else 0) =
          ((i + linearStart total n (e + 1) : Nat) : Int) := by
        rw [next]
        split <;> split <;> omega
      rw [if_neg go', start]
      rfl

lemma linearRound_ids {i : Nat} {eids : List Nat} {e : Nat} (le : e + eids.length ≤ n) :
    (linearRound info i eids e ((i + linearStart total n e : Nat) : Int)).map Prod.snd =
      ((List.range' e eids.length).flatMap (linearTask total n i)).map Int.ofNat := by
  rw [linearRound_eq S le, map_flatMap, map_flatMap, ← zipIdx_map_snd, flatMap_map]
  refine flatMap_congr fun p _ => ?_
  rw [map_map]
  exact map_id _

omit S in
lemma linearTask_rounds {e : Nat} (lt : e < n) :
    ((List.range (total / n + if 0 < total % n then 1 else 0)).flatMap fun i =>
      linearTask total n i e) = (List.range' (linearStart total n e)
        (linearStart total n (e + 1) - linearStart total n e)).map id := by
  have place : ∀ k : Nat, (List.range k).flatMap (fun i => [i + linearStart total n e]) =
      (List.range' (linearStart total n e) k).map id := by
    intro k
    rw [map_id, List.range'_eq_map_range, ← flatMap_singleton' (List.map _ _), flatMap_map]
    simp only [Nat.add_comm]
  have small : ∀ i ∈ List.range (total / n), linearTask total n i e = [i + linearStart total n e] := by
    intro i hi
    have := mem_range.1 hi
    exact if_neg (by omega)
  rw [linearStart_succ, Nat.add_sub_cancel_left]
  by_cases more : n ≤ e + total % n
  · have all : ∀ i, linearTask total n i e = [i + linearStart total n e] :=
      fun i => if_neg (by omega)
    rw [if_pos more, if_pos (by omega)]
    simp only [all]
    exact place _
  · rw [if_neg more, Nat.add_zero]
    split
    · have none : linearTask total n (total / n) e = [] := if_pos ⟨rfl, by omega⟩
      rw [range_succ, flatMap_append, flatMap_congr small, flatMap_singleton, none, append_nil]
      exact place _
    · rw [Nat.add_zero, flatMap_congr small]
      exact place _

lemma taskloopLinear_ids {g : EgroupInfo} (I : g.Ok)
    (le : g.eidSet.card ≤ n) : ((taskloopLinear g info).map Prod.snd).Perm
      ((List.range (linearStart total n g.eidSet.card)).map Int.ofNat) := by
  have len := forEachEgroup_length I
  have rounds : (taskloopLinear g info).map Prod.snd =
      ((List.range (total / n + if 0 < total % n then 1 else 0)).flatMap fun i =>
        (List.range g.eidSet.card).flatMap (linearTask total n i)).map Int.ofNat := by
    unfold taskloopLinear
    rw [S.maxTasks, Int.toNat_natCast, map_flatMap, map_flatMap]
    refine flatMap_congr fun i _ => ?_
    have round := @linearRound_ids info total n S i (forEachEgroup g) 0 (by omega)
    rw [linearStart_zero S.pos, Nat.add_zero, len, ← range_eq_range'] at round
    exact round
  have cut := flatMap_cut (f := id) (a := linearStart total n) (n := g.eidSet.card) fun e _ =>
    linearStart_mono (Nat.le_succ e)
  rw [linearStart_zero S.pos, Nat.sub_zero, ← range_eq_range', map_id] at cut
  rw [rounds]
  refine List.Perm.map _ ((flatMap_comm_perm _ _ _).trans (List.Perm.of_eq ?_))
  rw [← cut]
  refine flatMap_congr fun e he => linearTask_rounds ?_
  have := mem_range.1 he
  omega

lemma taskloopDispatch_ids (eid e : Nat) : (taskloopDispatch info eid e).map Prod.snd = (List.range' (share total n e)
      (share total n (e + 1) - share total n e)).map Int.ofNat := by
  rw [share_succ, Nat.add_sub_cancel_left, share, List.range'_eq_map_range, map_map]
  simp only [taskloopDispatch, S.extraTasks, S.minTasks, S.maxTasks, map_map]
  by_cases small : total % n ≠ 0 ∧ total % n ≤ e
  · have small' : ((total % n : Nat) : Int) ≠ 0 ∧ (e : Int) ≥ (total % n : Nat) := by omega
    rw [if_pos small', if_pos small', if_neg (by omega), Int.toNat_natCast, Nat.add_zero]
    refine map_congr_left fun i _ => ?_
    simp only [Function.comp_apply, min_eq_left small.2]
    push_cast
    rfl
  · have small' : ¬(((total % n : Nat) : Int) ≠ 0 ∧ (e : Int) ≥ (total % n : Nat)) := by omega
    rw [if_neg small', if_neg small', Int.toNat_natCast]
    by_cases none : total % n = 0
    · rw [if_neg (by omega), if_neg (by omega)]
      refine map_congr_left fun i _ => ?_
      simp only [Function.comp_apply, none]
      push_cast
      simp
    · have lt : e < total % n := by omega
      rw [if_pos (by omega), if_pos lt]
      refine map_congr_left fun i _ => ?_
      simp only [Function.comp_apply, min_eq_right lt.le]
      push_cast
      ring_nf
      rfl

lemma taskloopConcurrent_ids {g : EgroupInfo} (I : g.Ok) (size : g.size = n)
    (le : g.eidSet.card ≤ n) : ((taskloopConcurrent g info).map Prod.snd).Perm
      ((List.range' (share total n (n - g.eidSet.card))
        (total - share total n (n - g.eidSet.card))).map Int.ofNat) := by
  have len := forEachEgroup_length I
  generalize g.eidSet.card = c at *
  have ids : (taskloopConcurrent g info).map Prod.snd = (List.range c).flatMap fun j =>
      (List.range' (share total n (n - 1 - j))
        (share total n (n - 1 - j + 1) - share total n (n - 1 - j))).map Int.ofNat := by
    unfold taskloopConcurrent
    rw [map_flatMap, range_eq_range', ← len, ← length_reverse, ← zipIdx_map_snd 0, flatMap_map]
    refine flatMap_congr fun p hp => ?_
    have lt := mem_zipIdx hp
    rw [length_reverse] at lt
    have member : (g.size : Int) - 1 - (p.2 : Int) = ((n - 1 - p.2 : Nat) : Int) := by omega
    rw [← taskloopDispatch_ids S p.1, ← member]
  have back : (List.range c).map (n - 1 - ·) = (List.range' (n - c) c).reverse := by
    rw [reverse_range', show n - c + c - 1 = n - 1 by omega]
  have cut := flatMap_cut (f := Int.ofNat) (a := fun t => share total n (n - c + t)) (n := c)
    fun t _ => share_mono (Nat.le_succ _)
  simp only [Nat.add_zero, show n - c + c = n by omega, share_last S.pos] at cut
  rw [ids, ← cut]
  have rows := flatMap_map (fun j => n - 1 - j) (fun e => (List.range' (share total n e)
    (share total n (e + 1) - share total n e)).map Int.ofNat) (List.range c)
  rw [← rows, back, List.range'_eq_map_range]
  refine ((reverse_perm _).flatMap_right _).trans (List.Perm.of_eq ?_)
  rw [flatMap_map]
  rfl

end

/-- The numbers of the tasks of a loop that is shared among `n` executors, of which `c` are there. -/
def taskNumbers (total n c : Nat) : List Nat :=
  if total < n * 5 then List.range (linearStart total n c)
  else List.range' (share total n (n - c)) (total - share total n (n - c))

lemma taskNumbers_nodup {c : Nat} : (taskNumbers total n c).Nodup := by
  unfold taskNumbers
  split
  · exact nodup_range
  · exact nodup_range'

lemma taskNumbers_lt {c id : Nat} (le : c ≤ n) (mem : id ∈ taskNumbers total n c) : id < total := by
  unfold taskNumbers at mem
  split at mem
  · have start := @linearStart_le total n c le
    have lt := mem_range.1 mem
    omega
  · have range := mem_range'_1.1 mem
    omega

lemma taskNumbers_eq {c : Nat} (members : n * 5 ≤ total → c = n) :
    taskNumbers total n c = List.range (linearStart total n c) := by
  unfold taskNumbers
  split
  · rfl
  · rename_i many
    rw [members (by omega), Nat.sub_self, share_zero, linearStart_last, Nat.sub_zero, range_eq_range']

lemma taskNumbers_members {c : Nat} (pos : 0 < n) (le : c ≤ n) (zero : 0 ∈ taskNumbers total n c)
    (many : n * 5 ≤ total) : c = n := by
  unfold taskNumbers at zero
  rw [if_neg (by omega), mem_range'_1] at zero
  apply le_antisymm le
  apply le_of_not_gt
  intro lacking
  have each : 1 ≤ total / n := (Nat.le_div_iff_mul_le pos).2 (by omega)
  have share := Nat.mul_le_mul_right (total / n) (by omega : 1 ≤ n - c)
  unfold Cut.share at zero
  omega

lemma taskloopTasks_ids {g : EgroupInfo} (S : Shares info total n) (I : g.Ok) (size : g.size = n) :
    ((taskloopTasks g info).map Prod.snd).Perm
      ((taskNumbers total n g.eidSet.card).map Int.ofNat) := by
  have le : g.eidSet.card ≤ n := size ▸ I.card_le
  have threshold : info.esize * taskloopThreshold > info.totalTasks ↔ total < n * 5 := by
    rw [S.esize, S.totalTasks, taskloopThreshold]
    omega
  simp only [taskloopTasks, taskNumbers, threshold]
  split
  · exact taskloopLinear_ids S I le
  · exact taskloopConcurrent_ids S I size le

end Shares

section Nil
variable {g : EgroupInfo} {range : NdRange} {n : Nat} {total : Int}

lemma taskloopInfo_nil (le : total ≤ 0) : (taskloopInfo range n total).maxTasks.toNat = 0 ∧
    (taskloopInfo range n total).minTasks.toNat = 0 := by
  obtain ⟨t, rfl⟩ : ∃ t : Nat, total = -t := ⟨total.natAbs, by omega⟩
  have quot := Int.tdiv_nonneg (Int.natCast_nonneg t) (Int.natCast_nonneg n)
  have rem := Int.tmod_nonneg n (Int.natCast_nonneg t)
  simp only [taskloopInfo, Int.neg_tdiv, Int.neg_tmod]
  rw [if_neg (by omega)]
  omega

lemma taskloopLinear_nil (le : total ≤ 0) : taskloopLinear g (taskloopInfo range n total) = [] := by
  rw [taskloopLinear, (taskloopInfo_nil le).1]
  rfl

lemma taskloopTasks_nil (pos : 0 < n) (le : total ≤ 0) : taskloopTasks g (taskloopInfo range n total) = [] := by
  have linear : (taskloopInfo range n total).esize * taskloopThreshold >
      (taskloopInfo range n total).totalTasks := by
    simp only [taskloopInfo, taskloopThreshold]
    omega
  rw [taskloopTasks, if_pos linear, taskloopLinear_nil le]

end Nil

end Kupl.Taskloop
