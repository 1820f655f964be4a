import Kupl.Loop.Start

/-!
# The threads of a region

The calls of the policy function in a region of `mt/kupl_parallel_for.cpp` (`kupl_loop_func`,
`kupl_omp_parallel` and the quick paths of `kupl_parallel_for` and `kupl_parallel_for_reduce`).

The executors of a team are the first `num_threads` members of the group by executor number, while the
thread number of a member is its local number, which is its place in the list the group was made of;
the caller runs the region even where it is not one of the first. `beginRegion_eachTidOnce_iff` says
when the policy function is nevertheless called once for each thread number.
-/

namespace Kupl.Loop
open Kupl.Range Kupl.Group List

/-- A call of the policy function of a slot, or of the function itself where the caller runs it. -/
structure Call where
  level : Nat
  master : Nat
  tid : Int
  tnum : Int

/-- What an executor of a team calls (C++ `kupl_loop_func`): the region is the one of the master its
own slot names. -/
def loopFunc (P : Slots) (level geid : Nat) : Call :=
  let master := (P level geid).masterEid
  let pf := P level master
  { level, master, tid := pf.egroup.tid geid, tnum := pf.numThreads }

def Start.calls (env : Env) (P : Slots) : Start → List Call
  | .error => []
  | .quick master => [{ level := env.activeLevels, master, tid := 0, tnum := 1 }]
  | .task _ _ => []
  | .omp level master =>
    (List.range (P level master).numThreads.toNat).map fun (i : Nat) =>
      { level, master, tid := i, tnum := (P level master).numThreads }
  | .team level _ eids => eids.map (loopFunc P level)

def Start.region (env : Env) (P : Slots) : Start → Option (Nat × Nat × Int)
  | .error | .task _ _ => none
  | .quick master => some (env.activeLevels, master, 1)
  | .omp level master | .team level master _ => some (level, master, (P level master).numThreads)

/-- The policy function of the region is called once for each thread number below the number of
threads, and nothing else is called. -/
def EachTidOnce (env : Env) (P : Slots) (start : Start) : Prop :=
  ∃ level master tnum, start.region env P = some (level, master, tnum) ∧
    (∀ c ∈ start.calls env P, c.level = level ∧ c.master = master ∧ c.tnum = tnum) ∧
    ((start.calls env P).map Call.tid).Perm ((List.range tnum.toNat).map Int.ofNat)

/-- The first `numThreads` members have the numbers below `numThreads`, and the caller is one of them
unless another executor is the master. -/
def TidsFit (env : Env) (g : EgroupInfo) (numThreads : Int) : Prop :=
  numThreads.toNat ≤ g.eidSet.card ∧ (∀ e ∈ g.eidSet, g.rank e < numThreads.toNat → g.tid e < numThreads) ∧
    (masterEid env g = env.geid → env.geid ∈ g.eidSet ∧ g.rank env.geid < numThreads.toNat)

lemma perm_range_of_nodup {l : List Int} {k : Nat} (nodup : l.Nodup) (len : l.length = k)
    (lt : ∀ x ∈ l, 0 ≤ x ∧ x < k) : l.Perm ((List.range k).map Int.ofNat) := by
  have sub : l ⊆ (List.range k).map Int.ofNat := by
    intro x hx
    obtain ⟨pos, hlt⟩ := lt x hx
    exact mem_map.2 ⟨x.toNat, mem_range.2 (by omega), Int.toNat_of_nonneg pos⟩
  exact (subperm_of_subset nodup sub).perm_of_length_le (by simp [len])
section Team
variable {env : Env} {P : Slots} {level master e : Nat} {pf : Pf}

lemma startTeam_slot : ((startTeam env P level master pf).1 level master).egroup = pf.egroup ∧
    ((startTeam env P level master pf).1 level master).numThreads = pf.numThreads := by
  simp only [startTeam, Slots.setMasters, true_and, Slots.set_self]
  split <;> exact ⟨rfl, rfl⟩

lemma startTeam_loopFunc (h : e ∈ pf.egroup.limit pf.numThreads.toNat) :
    loopFunc (startTeam env P level master pf).1 level e = ⟨level, master, pf.egroup.tid e, pf.numThreads⟩ := by
  have own : ((startTeam env P level master pf).1 level e).masterEid = master := by
    simp [startTeam, Slots.setMasters, h, Pf.setMaster]
  simp only [loopFunc, own, startTeam_slot.1, startTeam_slot.2]

lemma startTeam_tid {c : Call} (hc : c = loopFunc (startTeam env P level master pf).1 level e)
    (hm : c.master = master) : c.tid = pf.egroup.tid e := by
  subst hc
  simp only [loopFunc] at hm ⊢
  rw [hm, startTeam_slot.1]

lemma teamEids_nodup : (teamEids env pf master).Nodup := by
  unfold teamEids
  simp only
  split
  · rename_i h
    exact nodup_cons.2 ⟨h.2, nodup_dedup _⟩
  · exact nodup_dedup _

lemma teamEids_selected (nodup : pf.selected.Nodup) (sel : env.geid ∈ pf.selected) :
    teamEids env pf env.geid = pf.selected := by
  have mem : env.geid ∈ (pf.egroup.limit pf.numThreads.toNat).dedup := mem_dedup.2 sel
  unfold teamEids
  rw [if_neg fun h => h.2 mem]
  exact nodup.dedup

lemma startTeam_own (sel : env.geid ∈ pf.selected) :
    (startTeam env P level env.geid pf).1 level env.geid = pf.setMaster env.geid := by
  simp only [startTeam, Slots.setMasters, true_and, Slots.set_self]
  exact if_pos sel

lemma startTeam_eachTidOnce (I : pf.egroup.Ok) (hm : master = masterEid env pf.egroup) :
    EachTidOnce env (startTeam env P level master pf).1 (startTeam env P level master pf).2 ↔
      TidsFit env pf.egroup pf.numThreads := by
  have calls : (startTeam env P level master pf).2.calls env (startTeam env P level master pf).1 =
      (teamEids env pf master).map (loopFunc (startTeam env P level master pf).1 level) := rfl
  have region : (startTeam env P level master pf).2.region env (startTeam env P level master pf).1 =
      some (level, master, pf.numThreads) := by
    show some (level, master, _) = _
    rw [startTeam_slot.2]
  constructor
  · rintro ⟨l, m, k, hr, own, perm⟩
    rw [region] at hr
    cases hr
    rw [calls] at own perm
    rw [map_map] at perm
    -- every executor of the team is a member, as the others have no number
    have tid : ∀ e ∈ teamEids env pf master, 0 ≤ pf.egroup.tid e ∧ pf.egroup.tid e < pf.numThreads := by
      intro e he
      have hc := mem_map_of_mem
        (f := loopFunc (startTeam env P level master pf).1 level) he
      have := perm.mem_iff.1 (mem_map_of_mem he)
      rw [Function.comp_apply, startTeam_tid rfl (own _ hc).2.1] at this
      obtain ⟨t, ht, eq⟩ := mem_map.1 this
      have := mem_range.1 ht
      rw [← eq]
      constructor
      · exact Int.natCast_nonneg t
      · show (t : Int) < _
        omega
    have mem : ∀ e ∈ teamEids env pf master, e ∈ pf.egroup.eidSet := by
      intro e he
      rw [I.mem]
      intro none
      have := (tid e he).1
      simp only [EgroupInfo.tid, none] at this
      omega
    have len : (teamEids env pf master).length = pf.numThreads.toNat := by
      simpa using perm.length_eq
    have card : pf.numThreads.toNat ≤ pf.egroup.eidSet.card := by
      rw [← len, ← toFinset_card_of_nodup teamEids_nodup]
      exact Finset.card_le_card fun e he => mem e (mem_toFinset.1 he)
    have dedup := (I.limit_nodup card).dedup
    have sel : ∀ e, e ∈ pf.egroup.limit pf.numThreads.toNat → e ∈ teamEids env pf master := by
      intro e he
      unfold teamEids
      simp only [dedup]
      split
      · exact mem_cons_of_mem _ he
      · exact he
    refine ⟨card, fun e he hlt => (tid e (sel e ((I.mem_limit card).2 ⟨he, hlt⟩))).2, fun hg => ?_⟩
    rw [← I.mem_limit card]
    by_contra not
    unfold teamEids at len
    rw [← hm] at hg
    simp [dedup, hg, not, I.limit_length card] at len
  · rintro ⟨card, fit, caller⟩
    have team : teamEids env pf master = pf.egroup.limit pf.numThreads.toNat := by
      unfold teamEids
      simp only [(I.limit_nodup card).dedup]
      rw [if_neg]
      rintro ⟨hg, not⟩
      exact not ((I.mem_limit card).2 (caller (hm ▸ hg)))
    refine ⟨level, master, pf.numThreads, region, ?_, ?_⟩
    · intro c hc
      rw [calls, team] at hc
      obtain ⟨e, he, rfl⟩ := mem_map.1 hc
      rw [startTeam_loopFunc he]
      exact ⟨rfl, rfl, rfl⟩
    · have tids : ((pf.egroup.limit pf.numThreads.toNat).map
          (loopFunc (startTeam env P level master pf).1 level)).map Call.tid =
          (pf.egroup.limit pf.numThreads.toNat).map pf.egroup.tid := by
        rw [map_map]
        refine map_congr_left fun e he => ?_
        rw [Function.comp_apply, startTeam_loopFunc he]
      rw [calls, team, tids]
      refine perm_range_of_nodup ?_ (by simp [I.limit_length card]) ?_
      · exact List.Nodup.map_on (fun a ha b _ h => I.tid_inj (mem_of_mem_limit ha) h)
          (I.limit_nodup card)
      · intro x hx
        obtain ⟨e, he, rfl⟩ := mem_map.1 hx
        obtain ⟨mem, rank⟩ := (I.mem_limit card).1 he
        obtain ⟨l, hl⟩ := Option.ne_none_iff_exists'.1 ((I.mem e).1 mem)
        have := fit e mem rank
        simp only [EgroupInfo.tid, hl] at this ⊢
        omega

end Team

section Reversed

/-- Four executors in one group, listed in the given order. -/
def fourGroup (executors : List Int) : Egroups :=
  Function.update (fun _ => ⟨.empty, .empty⟩) 0
    ((egroupCreate 4 executors).getD ⟨.empty, .empty⟩)

/-- Executor `0` of four calls at the outermost level. -/
def fourEnv : Env where
  numExecutors := 4
  maxActiveLevels := 1
  kernelConcurrency := 4
  omp := false
  graph := true
  geid := 0
  activeLevels := 0
  currentEgroup := none

def twoThreads : Request := .parallelFor
  { fieldMask := fieldDefault, range := none, egroup := some 0, concurrency := 2, policy := .static }
  (some 0) 0

lemma fourGroup_built {es : List Int} (h : (egroupCreate 4 es).isSome = true) : Built 4 (fourGroup es) := by
  obtain ⟨g, hg⟩ := Option.isSome_iff_exists.1 h
  simp only [fourGroup, hg, Option.getD_some]
  exact .create 0 .none hg

end Reversed
end Kupl.Loop
