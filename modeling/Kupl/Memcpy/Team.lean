import Kupl.Loop.Region

/-!
# The region of a copy (`kupl_parallel_for.cpp`, `kupl_executor.cpp`)

| source | here |
|---|---|
| `KUPL_EXECUTOR_COUNT`, `KUPL_KERNEL_CONCURRENCY`, `g_num_places` | `Config` |
| `kupl_executor_count_init` | `Config.numExecutors` |
| `kupl_executor_init` | `Config.concurrency` |
| `kupl_set_kernel_concurrency`, `kupl_set_kernel_concurrency_local` | `Setter`, `Concurrency.set` |
| `kupl_get_kernel_concurrency_inner` | `Concurrency.inner` |
| `kupl_invoke_parallel` | `request`, `regionCalls` |

A copy asks for a region without a range on as many threads as the concurrency says. `regionCalls` is the thread number
and the number of threads of every call of its function: none where the region is rejected.
-/

namespace Kupl.Memcpy
open Kupl.Loop Kupl.Group List

/-- What the start finds of the configuration and of the machine. -/
structure Config where
  executorCount : Nat
  kernelConcurrency : Nat
  numPlaces : Nat

/-- The bounds of the two variables, and the places that fit into a set of processors. -/
structure Config.Accepted (cfg : Config) : Prop where
  executorCount : cfg.executorCount ≤ 1024
  kernelConcurrency : cfg.kernelConcurrency ≤ 1024
  numPlaces : 1 ≤ cfg.numPlaces ∧ cfg.numPlaces ≤ 1024

/-- (C++ `kupl_executor_count_init`). -/
def Config.numExecutors (cfg : Config) : Nat := if cfg.executorCount = 0 then cfg.numPlaces else cfg.executorCount

/-- The concurrency of the program and of a thread (C++ `g_kernel_concurrency`, `g_kernel_concurrency_local`). -/
structure Concurrency where
  all : Int
  own : Int

/-- (C++ `kupl_executor_init`). -/
def Config.concurrency (cfg : Config) : Concurrency where
  all := if cfg.kernelConcurrency ≠ 0 then cfg.kernelConcurrency else -1
  own := -1

/-- The calls that change the concurrency. -/
inductive Setter where
  | all (num : Int)
  | own (num : Int)

/-- A number of threads outside of the executors becomes all of them. -/
def clamp (n : Nat) (num : Int) : Int := if num < 1 ∨ num > n then n else num

/-- (C++ `kupl_set_kernel_concurrency`, `kupl_set_kernel_concurrency_local`). -/
def Concurrency.set (n : Nat) (c : Concurrency) : Setter → Concurrency
  | .all num => { c with all := clamp n num }
  | .own num => { c with own := clamp n num }

/-- (C++ `kupl_get_kernel_concurrency_inner`). -/
def Concurrency.inner (n : Nat) (c : Concurrency) : Int :=
  if c.own ≠ -1 then c.own else if c.all ≠ -1 then c.all else n

/-- A call of a thread: what was configured and set, the regions it is in, the groups and the slots. -/
structure Situation where
  cfg : Config
  setters : List Setter
  maxActiveLevels : Nat
  omp : Bool
  geid : Nat
  activeLevels : Nat
  currentEgroup : Option Nat
  groups : Egroups
  slots : Slots
  /-- There is memory for a new group (C++ `kupl_get_global_egroup`). -/
  created : Bool

namespace Situation
variable (S : Situation)

def numExecutors : Nat := S.cfg.numExecutors

def threads : Int := (S.setters.foldl (Concurrency.set S.numExecutors) S.cfg.concurrency).inner S.numExecutors

/-- What the region reads. -/
def env : Env where
  numExecutors := S.numExecutors
  maxActiveLevels := S.maxActiveLevels
  kernelConcurrency := S.threads
  omp := S.omp
  graph := true
  geid := S.geid
  activeLevels := S.activeLevels
  currentEgroup := S.currentEgroup

/-- The descriptor of the region (C++ `kupl_invoke_parallel`). -/
def request : Request :=
  .parallelFor { fieldMask := fieldDefault, range := none, egroup := none, concurrency := S.threads, policy := .static }
    (some 0) 0

/-- The calls of the function of a region that has begun, by the thread number and the number of threads. -/
def calls (P : Slots) (start : Start) : List (Int × Int) :=
  match start.region S.env P with
  | none => []
  | some (level, master, _) =>
    ((start.calls S.env P).filter fun c => c.level = level ∧ c.master = master).map fun c => (c.tid, c.tnum)

def regionCalls : List (Int × Int) :=
  if S.currentEgroup = none ∧ S.created = false then []
  else
    let (P, start) := beginRegion S.env S.groups S.slots S.request
    S.calls P start

/-- What can be: an accepted configuration, groups from the calls of the library and an executor. -/
structure Ok : Prop where
  cfg : S.cfg.Accepted
  groups : Built S.numExecutors S.groups
  geid : S.geid < 1024

/-- An executor that runs the function of a region on a team: one that is selected, or the caller as the master if its
slot names it already. -/
def Runs (g : EgroupInfo) (k : Int) (e : Nat) : Prop :=
  e ∈ g.limit k.toNat ∨ (e = S.geid ∧ masterEid S.env g = S.geid ∧
    (S.slots S.activeLevels S.geid).masterEid = S.geid)

/-- Every thread number is the one of an executor that runs the function. -/
def Numbered (g : EgroupInfo) (k : Int) : Prop := ∀ t < k.toNat, ∃ e, S.Runs g k e ∧ g.tid e = t

/-- The region is accepted, and every part is run: outside of a group the executors are numbered in order. -/
def Serves : Prop :=
  S.threads ≤ S.numExecutors ∧
    match S.currentEgroup with
    | none => S.created = true
    | some h =>
      let g := (S.groups h).cur
      let k := min S.threads (curSize g)
      S.request.Quick S.env g k ∨ (0 < k ∧ (S.omp = true ∨ S.Numbered g k))

end Situation

lemma clamp_bounds {n : Nat} (num : Int) (pos : 1 ≤ n) : 1 ≤ clamp n num ∧ clamp n num ≤ n := by
  unfold clamp
  split <;> omega

/-- What the two variables may hold. -/
structure Concurrency.Fine (c : Concurrency) : Prop where
  all : c.all = -1 ∨ 1 ≤ c.all ∧ c.all ≤ 1024
  own : c.own = -1 ∨ 1 ≤ c.own ∧ c.own ≤ 1024

lemma Concurrency.Fine.foldl {n : Nat} (pos : 1 ≤ n) (le : n ≤ 1024) {c : Concurrency} (F : c.Fine)
    (l : List Setter) :
    (l.foldl (Concurrency.set n) c).Fine := by
  induction l generalizing c with
  | nil => exact F
  | cons setter l ih =>
    apply ih
    cases setter with
    | all num =>
      have bounds := clamp_bounds num pos
      exact ⟨.inr ⟨bounds.1, by show clamp n num ≤ 1024; omega⟩, F.own⟩
    | own num =>
      have bounds := clamp_bounds num pos
      exact ⟨F.all, .inr ⟨bounds.1, by show clamp n num ≤ 1024; omega⟩⟩

lemma Config.Accepted.numExecutors {cfg : Config} (A : cfg.Accepted) :
    1 ≤ cfg.numExecutors ∧ cfg.numExecutors ≤ 1024 := by
  have places := A.numPlaces
  have executors := A.executorCount
  unfold Config.numExecutors
  split <;> omega

namespace Situation.Ok
variable {S : Situation}

lemma threads (ok : S.Ok) : 1 ≤ S.threads ∧ S.threads ≤ 1024 := by
  obtain ⟨pos, le⟩ := ok.cfg.numExecutors
  have start : S.cfg.concurrency.Fine := by
    refine ⟨?_, .inl rfl⟩
    have := ok.cfg.kernelConcurrency
    dsimp only [Config.concurrency]
    split <;> omega
  have fine := start.foldl pos le S.setters
  have all := fine.all
  have own := fine.own
  rw [Situation.threads, Concurrency.inner]
  unfold Situation.numExecutors
  split
  · omega
  · split <;> omega

lemma check (ok : S.Ok) :
    S.request.check S.env S.groups = if S.threads ≤ S.numExecutors then some S.request.desc else none := by
  have bounds := ok.threads
  show parallelForCheck _ _ _ _ = _
  have mask : ¬ (some 0 = (none : Option Nat) ∨ fieldDefault &&& fieldDefault ≠ fieldDefault) := by decide
  have given : ¬ S.threads = concurrencyDefault := by
    show ¬ S.threads = -1
    omega
  rw [parallelForCheck, if_neg mask]
  dsimp only [Situation.request, Request.desc]
  rw [Option.any_none, if_neg Bool.false_ne_true, if_neg given]
  by_cases le : S.threads ≤ S.numExecutors
  · have inside : ¬ (S.threads ≤ 0 ∨ S.threads > S.numExecutors) := by omega
    rw [if_pos le]
    exact if_neg inside
  · have outside : S.threads ≤ 0 ∨ S.threads > S.numExecutors := by omega
    rw [if_neg le]
    exact if_pos outside

lemma resolve_none (ok : S.Ok) (many : ¬ S.threads ≤ S.numExecutors) : S.request.resolve S.env S.groups = none := by
  rw [Request.resolve, ok.check, if_neg many]
  rfl

lemma resolve_group (ok : S.Ok) {h : Nat} (le : S.threads ≤ S.numExecutors) (inside : S.currentEgroup = some h) :
    S.request.resolve S.env S.groups = some ((S.groups h).cur, min S.threads (curSize (S.groups h).cur)) := by
  rw [Request.resolve, ok.check, if_pos le]
  have group : S.request.desc.egroup.or S.env.currentEgroup = some h := by
    show S.currentEgroup = some h
    exact inside
  have number : parallelForNumThreads S.env S.request.desc (some (S.groups h).cur) =
      min S.threads (curSize (S.groups h).cur) := by
    show min (min S.threads (curSize (S.groups h).cur)) S.threads = _
    omega
  show parallelForResolve _ _ _ = _
  rw [parallelForResolve, group]
  dsimp only
  rw [number]

end Situation.Ok

lemma createLoop_range {n i m : Nat} (info : EgroupInfo) (le : i + m ≤ n)
    (fresh : ∀ e, i ≤ e → info.eid2lid e = none) :
    ∃ g, createLoop n i info ((List.range' i m).map Int.ofNat) = some g ∧
      ∀ e, g.eid2lid e = if i ≤ e ∧ e < i + m then some e else info.eid2lid e := by
  induction m generalizing i info with
  | zero =>
    refine ⟨info, rfl, fun e => ?_⟩
    rw [if_neg (by omega)]
  | succ m ih =>
    have valid : ¬ (Int.ofNat i ≥ n ∨ Int.ofNat i < 0) := by
      show ¬ ((i : Int) ≥ n ∨ (i : Int) < 0)
      omega
    have free : info.eid2lid (Int.ofNat i).toNat = none := fresh i le_rfl
    rw [List.range'_succ, map_cons, createLoop, if_neg valid]
    rw [if_pos free]
    obtain ⟨g, made, lids⟩ := ih (i := i + 1)
      ⟨info.size + 1, if i < info.minEid then i else info.minEid, if i > info.maxEid then i else info.maxEid,
        insert i info.eidSet, Function.update info.eid2lid i (some i)⟩ (by omega)
      (fun e above => (Function.update_of_ne (by omega) _ _).trans (fresh e (by omega)))
    refine ⟨g, made, fun e => ?_⟩
    rw [lids e]
    dsimp only
    by_cases same : e = i
    · rw [same, if_neg (by omega), Function.update_self, if_pos (by omega)]
    · rw [Function.update_of_ne same]
      by_cases range : i + 1 ≤ e ∧ e < i + 1 + m
      · rw [if_pos range, if_pos (by omega)]
      · rw [if_neg range, if_neg (by omega)]

namespace Situation.Ok
variable {S : Situation} {g : EgroupInfo} {k t n : Int} {e : Nat}

lemma resolve_global (ok : S.Ok) (le : S.threads ≤ S.numExecutors) (outside : S.currentEgroup = none) :
    ∃ g, S.request.resolve S.env S.groups = some (g, S.threads) ∧
      ∀ e, g.eid2lid e = if e < S.threads.toNat then some e else none := by
  have bounds := ok.threads
  have check := ok.check
  rw [if_pos le] at check
  obtain ⟨info, made, lids⟩ := createLoop_range (n := S.numExecutors) (i := 0) (m := S.threads.toNat) .empty
    (by omega) (fun _ _ => rfl)
  have number : parallelForNumThreads S.env S.request.desc none = S.threads := by
    show min S.threads S.threads = _
    omega
  have fits : ¬ (((List.range S.threads.toNat).map Int.ofNat).length > executorIdMax ∨
      ((List.range S.threads.toNat).map Int.ofNat).length > S.numExecutors) := by
    rw [length_map, length_range, executorIdMax]
    omega
  have enough : ¬ (S.threads < 1 ∨ S.threads > S.numExecutors) := by omega
  have group : globalEgroup S.env S.threads = some ⟨info, info⟩ := by
    rw [globalEgroup]
    refine (if_neg enough).trans ?_
    rw [egroupCreate]
    refine (if_neg fits).trans ?_
    rw [range_eq_range']
    exact congrArg (Option.map fun info => (⟨info, info⟩ : Egroup)) made
  have none : S.request.desc.egroup.or S.env.currentEgroup = none := outside
  refine ⟨info, ?_, fun e => ?_⟩
  · rw [Request.resolve, check]
    show parallelForResolve _ _ _ = _
    rw [parallelForResolve, none]
    dsimp only
    rw [number, group]
    rfl
  · rw [lids e, Nat.zero_add]
    by_cases lt : e < S.threads.toNat
    · rw [if_pos ⟨Nat.zero_le e, lt⟩, if_pos lt]
    · rw [if_neg fun h => lt h.2, if_neg lt]
      rfl

lemma numbered_global (I : g.Ok) (lids : ∀ e, g.eid2lid e = if e < k.toNat then some e else none) :
    S.Numbered g k := by
  have set : g.eidSet = Finset.range k.toNat := by
    ext e
    rw [I.mem, lids, Finset.mem_range]
    split
    case isTrue lt => exact ⟨fun _ => lt, fun _ none => by cases none⟩
    case isFalse ge => exact ⟨fun some => absurd rfl some, fun lt => absurd lt ge⟩
  intro t lt
  refine ⟨t, .inl ?_, ?_⟩
  · rw [I.mem_limit (by rw [set, Finset.card_range]), set, EgroupInfo.rank, set]
    refine ⟨Finset.mem_range.2 lt, lt_of_le_of_lt ?_ lt⟩
    have sub : (Finset.range k.toNat).filter (· < t) ⊆ Finset.range t := by
      intro e mem
      exact Finset.mem_range.2 (Finset.mem_filter.1 mem).2
    exact (Finset.card_le_card sub).trans (Finset.card_range t).le
  · rw [EgroupInfo.tid, lids, if_pos lt]

lemma calls_rejected (rejected : S.request.resolve S.env S.groups = none) : S.regionCalls = [] := by
  rw [Situation.regionCalls]
  split
  · rfl
  · have begins : Begins S.env S.groups S.slots S.request (beginRegion S.env S.groups S.slots S.request) :=
      beginRegion_begins
    generalize beginRegion S.env S.groups S.slots S.request = out at begins
    cases begins with
    | rejected => rfl
    | quick res | run res | task _ _ res => cases rejected.symm.trans res

lemma calls_quick (made : ¬ (S.currentEgroup = none ∧ S.created = false))
    (res : S.request.resolve S.env S.groups = some (g, k)) (quick : S.request.Quick S.env g k) :
    S.regionCalls = [(0, 1)] := by
  rw [Situation.regionCalls, if_neg made]
  have begins : Begins S.env S.groups S.slots S.request (beginRegion S.env S.groups S.slots S.request) :=
    beginRegion_begins
  generalize beginRegion S.env S.groups S.slots S.request = out at begins
  cases begins with
  | rejected none => cases res.symm.trans none
  | quick => simp [Situation.calls, Start.region, Start.calls, Situation.env]
  | run res' not | task _ _ res' not =>
    cases res.symm.trans res'
    exact absurd quick not

lemma begin_run (ok : S.Ok) (le : S.threads ≤ S.numExecutors) (res : S.request.resolve S.env S.groups = some (g, k))
    (quick : ¬ S.request.Quick S.env g k) : beginRegion S.env S.groups S.slots S.request =
      startRun S.env S.slots S.activeLevels (masterEid S.env g)
        (noRangePrepare ((S.slots S.activeLevels (masterEid S.env g)).fill S.request.desc (some 0) 0 g k)) := by
  have check := ok.check
  rw [if_pos le] at check
  rw [Request.resolve, check] at res
  have check' : parallelForCheck S.env S.groups S.request.desc (some 0) = some S.request.desc := check
  have res' : parallelForResolve S.env S.groups S.request.desc = some (g, k) := res
  show beginParallelFor S.env S.groups S.slots S.request.desc (some 0) 0 = _
  rw [beginParallelFor, check']
  dsimp only
  rw [res']
  exact if_neg quick

lemma calls_omp (ok : S.Ok) (made : ¬ (S.currentEgroup = none ∧ S.created = false))
    (le : S.threads ≤ S.numExecutors)
    (res : S.request.resolve S.env S.groups = some (g, k)) (quick : ¬ S.request.Quick S.env g k) (omp : S.omp = true) :
    S.regionCalls = (List.range k.toNat).map fun i : Nat => ((i : Int), k) := by
  have omp' : S.env.omp = true := omp
  obtain ⟨master, isMaster⟩ : ∃ master, master = masterEid S.env g := ⟨_, rfl⟩
  obtain ⟨pf, isPf⟩ : ∃ pf, pf = noRangePrepare ((S.slots S.activeLevels master).fill S.request.desc
    (some 0) 0 g k) :=
    ⟨_, rfl⟩
  have range : pf.range = none := by rw [isPf]; rfl
  have number : pf.numThreads = k := by rw [isPf]; rfl
  rw [Situation.regionCalls, if_neg made, ok.begin_run le res quick, ← isMaster, ← isPf, startRun,
    if_pos omp', startOmp,
    range, Option.any_none, if_neg Bool.false_ne_true]
  simp only [Situation.calls, Start.region, Start.calls, Slots.set_self, number]
  rw [filter_eq_self.2, map_map]
  · rfl
  · intro c mem
    obtain ⟨i, -, rfl⟩ := mem_map.1 mem
    exact decide_eq_true ⟨rfl, rfl⟩

lemma mem_calls_team (ok : S.Ok) (made : ¬ (S.currentEgroup = none ∧ S.created = false))
    (le : S.threads ≤ S.numExecutors) (res : S.request.resolve S.env S.groups = some (g, k))
    (quick : ¬ S.request.Quick S.env g k) (team : S.omp = false) :
    (t, n) ∈ S.regionCalls ↔ n = k ∧ ∃ e, S.Runs g k e ∧ g.tid e = t := by
  have team' : ¬ S.env.omp = true := by
    show ¬ S.omp = true
    rw [team]
    exact Bool.false_ne_true
  obtain ⟨master, isMaster⟩ : ∃ master, master = masterEid S.env g := ⟨_, rfl⟩
  obtain ⟨pf, isPf⟩ : ∃ pf, pf = noRangePrepare ((S.slots S.activeLevels master).fill S.request.desc
    (some 0) 0 g k) :=
    ⟨_, rfl⟩
  have group : pf.egroup = g := by rw [isPf]; rfl
  have number : pf.numThreads = k := by rw [isPf]; rfl
  have own : pf.masterEid = (S.slots S.activeLevels master).masterEid := by rw [isPf]; rfl
  obtain ⟨P, isP⟩ : ∃ P, P = (startTeam S.env S.slots S.activeLevels master pf).1 := ⟨_, rfl⟩
  have slot : (P S.activeLevels master).egroup = g ∧ (P S.activeLevels master).numThreads = k := by
    rw [isP, startTeam_slot.1, startTeam_slot.2]
    exact ⟨group, number⟩
  have selected (e) (mem : e ∈ g.limit k.toNat) : loopFunc P S.activeLevels e =
    ⟨S.activeLevels, master, g.tid e, k⟩ := by
    rw [isP, ← group, ← number]
    apply startTeam_loopFunc
    rwa [group, number]
  have calls : S.regionCalls = (((teamEids S.env pf master).map (loopFunc P S.activeLevels)).filter fun c =>
      c.level = S.activeLevels ∧ c.master = master).map fun c => (c.tid, c.tnum) := by
    rw [Situation.regionCalls, if_neg made, ok.begin_run le res quick, ← isMaster, ← isPf, startRun, if_neg team']
    show S.calls (startTeam S.env S.slots S.activeLevels master pf).1
      (Start.team S.activeLevels master (teamEids S.env pf master)) = _
    rw [← isP]
    rfl
  have eids (e) : e ∈ teamEids S.env pf master ↔ e ∈ g.limit k.toNat ∨ (e = S.geid ∧ master = S.geid) := by
    rw [teamEids, group, number]
    split
    case isTrue out =>
      rw [mem_cons, mem_dedup]
      refine ⟨fun h => h.symm.imp_right fun same => ⟨same, out.1⟩, fun h => h.symm.imp_left fun same => same.1⟩
    case isFalse not =>
      rw [mem_dedup]
      refine ⟨.inl, fun h => ?_⟩
      by_contra out
      obtain ⟨same, isGeid⟩ := h.resolve_left out
      exact not ⟨isGeid, fun mem => out (same ▸ mem_dedup.1 mem)⟩
  rw [calls, mem_map]
  constructor
  · rintro ⟨c, mem, pair⟩
    obtain ⟨made, at_⟩ := mem_filter.1 mem
    obtain ⟨e, isEid, rfl⟩ := mem_map.1 made
    obtain ⟨-, sameMaster⟩ := of_decide_eq_true at_
    obtain ⟨tid, tnum⟩ := Prod.ext_iff.1 pair
    by_cases mem : e ∈ g.limit k.toNat
    · rw [selected e mem] at tid tnum
      exact ⟨tnum.symm, e, .inl mem, tid⟩
    · -- a caller that is not selected looks at the slot that its own slot names
      obtain ⟨rfl, isGeid⟩ := ((eids e).1 isEid).resolve_left mem
      have named : (P S.activeLevels S.geid).masterEid = (S.slots S.activeLevels S.geid).masterEid := by
        rw [isP]
        dsimp only [startTeam, Slots.setMasters]
        rw [if_neg (fun h => mem (by rw [← group, ← number]; exact h.2)), ← isGeid, Slots.set_self, own]
      have ownMaster : (S.slots S.activeLevels S.geid).masterEid = master := by
        rw [← named]
        exact sameMaster
      have tid' : (P S.activeLevels (P S.activeLevels S.geid).masterEid).egroup.tid S.geid = t := tid
      have tnum' : (P S.activeLevels (P S.activeLevels S.geid).masterEid).numThreads = n := tnum
      rw [named, ownMaster, slot.1] at tid'
      rw [named, ownMaster, slot.2] at tnum'
      exact ⟨tnum'.symm, S.geid, .inr ⟨rfl, isMaster.symm.trans isGeid, ownMaster.trans isGeid⟩, tid'⟩
  · rintro ⟨rfl, e, runs, rfl⟩
    by_cases mem : e ∈ g.limit n.toNat
    · refine ⟨⟨S.activeLevels, master, g.tid e, n⟩, mem_filter.2 ⟨?_, by simp⟩, rfl⟩
      exact mem_map.2 ⟨e, (eids e).2 (.inl mem), selected e mem⟩
    · obtain ⟨rfl, isGeid, named⟩ := runs.resolve_left mem
      have named' : (P S.activeLevels S.geid).masterEid = master := by
        rw [isP]
        dsimp only [startTeam, Slots.setMasters]
        rw [if_neg (fun h => mem (by rw [← group, ← number]; exact h.2)), ← isMaster.trans isGeid,
          Slots.set_self, own,
          isMaster.trans isGeid, named]
      refine ⟨loopFunc P S.activeLevels S.geid, mem_filter.2 ⟨?_, ?_⟩, ?_⟩
      · exact mem_map.2 ⟨S.geid, (eids _).2 (.inr ⟨rfl, isMaster.trans isGeid⟩), rfl⟩
      · exact decide_eq_true ⟨rfl, named'⟩
      · rw [loopFunc, named', slot.1, slot.2]

end Situation.Ok

/-- Calls with every thread number below some number of threads. -/
def Complete (calls : List (Int × Int)) : Prop := ∃ k : Nat, 0 < k ∧ ∀ t < k, ((t : Int), (k : Int)) ∈ calls

namespace Situation.Ok
variable {S : Situation} {g : EgroupInfo} {k t n : Int} {e : Nat}

lemma complete_group (ok : S.Ok) (made : ¬ (S.currentEgroup = none ∧ S.created = false))
    (le : S.threads ≤ S.numExecutors) (res : S.request.resolve S.env S.groups = some (g, k)) (nonneg : 0 ≤ k) :
    Complete S.regionCalls ↔ S.request.Quick S.env g k ∨ (0 < k ∧ (S.omp = true ∨ S.Numbered g k)) := by
  by_cases quick : S.request.Quick S.env g k
  · rw [calls_quick made res quick]
    refine iff_of_true ⟨1, Nat.one_pos, fun t lt => ?_⟩ (.inl quick)
    rw [Nat.lt_one_iff.1 lt]
    exact mem_singleton_self _
  have cast : ((k.toNat : Nat) : Int) = k := Int.toNat_of_nonneg nonneg
  cases omp : S.omp with
  | true =>
    rw [ok.calls_omp made le res quick omp]
    constructor
    · rintro ⟨n, pos, all⟩
      obtain ⟨i, range, same⟩ := mem_map.1 (all 0 pos)
      have := mem_range.1 range
      exact .inr ⟨by omega, .inl rfl⟩
    · intro cond
      have pos := (cond.resolve_left quick).1
      refine ⟨k.toNat, by omega, fun t lt => mem_map.2 ⟨t, mem_range.2 lt, ?_⟩⟩
      rw [cast]
  | false =>
    constructor
    · rintro ⟨n, pos, all⟩
      have number := ((ok.mem_calls_team made le res quick omp).1 (all 0 pos)).1
      refine .inr ⟨by omega, .inr fun t lt => ?_⟩
      exact ((ok.mem_calls_team made le res quick omp).1 (all t (by omega))).2
    · intro cond
      obtain ⟨pos, numbered⟩ := cond.resolve_left quick
      have numbered := numbered.resolve_left Bool.false_ne_true
      refine ⟨k.toNat, by omega, fun t lt => ?_⟩
      exact (ok.mem_calls_team made le res quick omp).2 ⟨cast, numbered t lt⟩

lemma complete_iff (ok : S.Ok) : Complete S.regionCalls ↔ S.Serves := by
  have empty : ¬ Complete [] := fun ⟨k, pos, all⟩ => nomatch all 0 pos
  have bounds := ok.threads
  rw [Situation.Serves]
  by_cases le : S.threads ≤ S.numExecutors
  · cases inside : S.currentEgroup with
    | none =>
      cases made : S.created with
      | false =>
        rw [Situation.regionCalls, if_pos ⟨inside, made⟩]
        exact iff_of_false empty fun h => nomatch h.2
      | true =>
        obtain ⟨g, res, lids⟩ := ok.resolve_global le inside
        have numbered := numbered_global (S := S) (Request.resolve_ok ok.groups res) lids
        have made' : ¬ (S.currentEgroup = none ∧ S.created = false) := fun h => nomatch made.symm.trans h.2
        rw [ok.complete_group made' le res (by omega)]
        exact iff_of_true (.inr ⟨by omega, .inr numbered⟩) ⟨le, rfl⟩
    | some h =>
      have made : ¬ (S.currentEgroup = none ∧ S.created = false) := fun h' => nomatch inside.symm.trans h'.1
      rw [ok.complete_group made le (ok.resolve_group le inside) (by omega)]
      exact ⟨fun h => ⟨le, h⟩, And.right⟩
  · rw [calls_rejected (ok.resolve_none le)]
    exact iff_of_false empty fun h => le h.1

lemma calls_small (ok : S.Ok) : ∃ k : Nat, k ≤ 1024 ∧ (∀ c ∈ S.regionCalls, c.2 = k) ∧
    (0 < k → ∀ c ∈ S.regionCalls, c.1 = -1 ∨ 0 ≤ c.1 ∧ c.1 < 1024) ∧
    (k = 0 → ∃ t, ∀ c ∈ S.regionCalls, c.1 = t) := by
  have bounds := ok.threads
  by_cases made : S.currentEgroup = none ∧ S.created = false
  · rw [Situation.regionCalls, if_pos made]
    exact ⟨0, by omega, (by rintro _ ⟨⟩), (by rintro ⟨⟩), fun _ => ⟨0, (by rintro _ ⟨⟩)⟩⟩
  by_cases le : S.threads ≤ S.numExecutors
  case neg =>
    rw [calls_rejected (ok.resolve_none le)]
    exact ⟨0, by omega, (by rintro _ ⟨⟩), (by rintro ⟨⟩), fun _ => ⟨0, (by rintro _ ⟨⟩)⟩⟩
  -- the number of threads is not larger than the group, if there are any
  obtain ⟨g, k, res, nonneg, few, small⟩ : ∃ g k, S.request.resolve S.env S.groups = some (g, k) ∧ 0 ≤ k ∧
    k ≤ 1024 ∧
      (0 < k → ∀ e l, g.eid2lid e = some l → l < 1024) := by
    cases inside : S.currentEgroup with
    | none =>
      obtain ⟨g, res, lids⟩ := ok.resolve_global le inside
      refine ⟨g, S.threads, res, by omega, by omega, fun _ e l lid => ?_⟩
      rw [lids] at lid
      split at lid
      · cases lid
        omega
      · cases lid
    | some h =>
      have res := ok.resolve_group le inside
      refine ⟨_, _, res, by omega, by omega, fun pos e l lid => ?_⟩
      have lt := (Request.resolve_ok ok.groups res).lt e l lid
      have max : executorIdMax = 1024 := rfl
      rw [curSize] at pos
      split at pos <;> omega
  by_cases quick : S.request.Quick S.env g k
  · rw [calls_quick made res quick]
    refine ⟨1, by omega, ?_, ?_, fun zero => by cases zero⟩
    · intro c mem
      cases mem_singleton.1 mem
      rfl
    · intro _ c mem
      cases mem_singleton.1 mem
      exact .inr ⟨le_rfl, by decide⟩
  have cast : ((k.toNat : Nat) : Int) = k := Int.toNat_of_nonneg nonneg
  refine ⟨k.toNat, by omega, ?_⟩
  rw [cast]
  cases omp : S.omp with
  | true =>
    rw [ok.calls_omp made le res quick omp]
    refine ⟨?_, ?_, ?_⟩
    · intro c mem
      obtain ⟨i, -, rfl⟩ := mem_map.1 mem
      rfl
    · intro _ c mem
      obtain ⟨i, range, rfl⟩ := mem_map.1 mem
      have := mem_range.1 range
      refine .inr ⟨?_, ?_⟩ <;> dsimp only <;> omega
    · intro zero
      rw [zero]
      exact ⟨0, (by rintro _ ⟨⟩)⟩
  | false =>
    refine ⟨?_, ?_, ?_⟩
    · intro c mem
      exact ((ok.mem_calls_team made le res quick omp).1 mem).1
    · intro pos c mem
      obtain ⟨-, e, -, tid⟩ := (ok.mem_calls_team made le res quick omp).1 mem
      rw [← tid, EgroupInfo.tid]
      cases lid : g.eid2lid e with
      | none => exact .inl rfl
      | some l =>
        have := small (by omega) e l lid
        refine .inr ⟨?_, ?_⟩ <;> dsimp only <;> omega
    · intro zero
      refine ⟨g.tid S.geid, fun c mem => ?_⟩
      obtain ⟨-, e, runs, tid⟩ := (ok.mem_calls_team made le res quick omp).1 mem
      have none : g.limit k.toNat = [] := by
        rw [zero]
        rfl
      have isGeid := (runs.resolve_left (by rw [none]; exact not_mem_nil)).1
      rw [← tid, isGeid]

end Situation.Ok
end Kupl.Memcpy
