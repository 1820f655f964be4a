import Kupl.Loop.Start
import Kupl.Machine.Run

/-!
# Levels and tables

The indices that `mt/kupl_parallel_for.cpp` forms from `active_levels` and the numbers of executors:
the entries of `g_pf` and `g_ult`, and the instances of `FlagBarrier`. `kupl_pf_init` makes
`KUPL_PARALLEL_MAX_ACTIVE_LEVEL` levels of one slot for each executor it starts with, and one `g_ult`
entry for each of them.

`active_levels` belongs to a thread and counts the bodies it is in. Four paths count it up (`Frame`);
`max_active_levels` bounds only the regions on a team, in an OpenMP loop or as tasks, and a region that
its caller runs alone is entered at every depth. An executor that is expanded for a thread from outside
has a number behind those of the tables.

`levels` is the machine of all threads. `levels_inside` says under which calls every index stays
inside of its table.
-/

namespace Kupl.Loop
open Kupl.Range Kupl.Group List

/-- C++ `KUPL_PARALLEL_MAX_ACTIVE_LEVEL`, and `KUPL_BARRIER_MAX_LEVELS`. -/
def maxLevels : Nat := 2

/-- An index into one of the tables. -/
inductive Access where
  | pf (index : Nat)
  | barrier (instance_ : Nat)
  | ult (index : Nat)

/-- The index is one of the table, with `n` executors at the beginning. -/
def Access.Inside (n : Nat) : Access → Prop
  | .pf index => index < n * maxLevels
  | .barrier instance_ => instance_ < maxLevels
  | .ult index => index < n

instance (n : Nat) : ∀ x : Access, Decidable (x.Inside n)
  | .pf _ | .barrier _ | .ult _ => inferInstanceAs (Decidable (_ < _))

/-- A body that counts `active_levels` up. -/
inductive Frame where
  /-- Of a region its caller runs alone. -/
  | alone
  /-- Of a chunk task. -/
  | task
  /-- Of a round of an OpenMP loop. -/
  | omp
  /-- Of `kupl_loop_func`, at a level and with the slot of a master. -/
  | region (level master : Nat)

/-- The rest of a call behind its tasks or its OpenMP loop. -/
inductive Rest where
  | task (level master : Nat) (reduce : Bool)
  | omp (level master : Nat)

/-- The groups, `g_pf`, the flags that are `FLAG_READY` by instance and executor, the bodies each thread
is in, the chunk tasks with the master each of them names, the rounds of OpenMP loops that are left,
the calls that wait for these, and the indices so far. -/
structure LevelState where
  groups : Egroups
  slots : Slots
  ready : Nat → Nat → Bool
  stack : Nat → List Frame
  tasks : List Nat
  rounds : List (Nat × Nat)
  rests : List Rest
  crashed : Bool
  accesses : List Access

namespace LevelState

/-- C++ `active_levels` of the thread of an executor. -/
def activeLevels (s : LevelState) (eid : Nat) : Nat := (s.stack eid).length

/-- Records indices. -/
def touch (s : LevelState) (xs : List Access) : LevelState := { s with accesses := s.accesses ++ xs }

/-- A thread enters a body. -/
def push (s : LevelState) (eid : Nat) (f : Frame) : LevelState :=
  { s with stack := Function.update s.stack eid (f :: s.stack eid) }

/-- The indices of C++ `kupl_reduce_post_func`. -/
def postAccesses (s : LevelState) (level master : Nat) : List Access :=
  (s.slots level master).selected.map .pf

/-- The entry of `g_pf` with an index, where there are `n` executors. -/
def entry (s : LevelState) (n index : Nat) : Pf := s.slots (index / n) (index % n)

end LevelState

/-- The private arguments that the policy functions of a reduce region take from `g_pf` (C++
`kupl_reduce_args_dup`). -/
def dupAccesses (pf : Pf) (eid : Nat) : List Access :=
  if pf.policyFunc.any PolicyFunc.isReduce then [.pf eid] else []

/-- An executor enters a region (C++ `kupl_loop_func` up to the policy function). -/
def enterRegion (n : Nat) (s : LevelState) (eid : Nat) : LevelState :=
  let level := s.activeLevels eid
  let master := (s.slots level eid).masterEid
  let pf := s.slots level master
  let s := { s with ready := fun l e => s.ready l e && !(l = level && e = eid) }
  s.touch (Access.pf (level * n + eid) :: .pf (level * n + master) :: .ult eid :: dupAccesses pf eid)
    |>.push eid (.region level master)

/-- The indices of a call up to the run of its region. -/
def callAccesses (env : Env) (E : Egroups) (req : Request) (start : Start) : List Access :=
  match req.resolve env E with
  | none => []
  | some (g, k) =>
    let n := env.numExecutors
    let level := env.activeLevels
    let master := masterEid env g
    let eids := g.limit k.toNat
    match req, start with
    | .parallelFor _ _ _, .team _ _ _ =>
      .pf (level * n + master) :: .barrier level :: eids.map fun eid => .pf (level * n + eid)
    | .parallelFor _ _ _, _ => [.pf (level * n + master)]
    | .reduce _ _ _ _, .quick _ => [.pf env.geid]
    | .reduce _ _ _ _, .team _ _ _ => .pf master :: .barrier level :: eids.map .pf
    | .reduce _ _ _ _, .task _ _ => .pf master :: eids.map .pf
    | .reduce _ _ _ _, _ => [.pf master]

/-- A call (C++ `kupl_parallel_for`, `kupl_parallel_for_reduce`). The region a caller runs alone writes
to the ult of its executor, and an expanded executor has none. -/
def callRegion (n : Nat) (s : LevelState) (env : Env) (req : Request) : LevelState :=
  let (P, start) := beginRegion env s.groups s.slots req
  let s := { s with slots := P }.touch (callAccesses env s.groups req start)
  match start with
  | .error => s
  | .quick _ =>
    if req.isReduce then s
    else if env.isExpand then { s with crashed := true }
    else s.push env.geid .alone
  | .task level master => { s with
      tasks := s.tasks ++ List.replicate (P level master).totalChunks.toNat master
      rests := s.rests ++ [.task level master req.isReduce] }
  | .omp level master => { s with
      rounds := s.rounds ++ List.replicate (P level master).numThreads.toNat (level, master)
      rests := s.rests ++ [.omp level master] }
  | .team level master _ =>
    let s := { s with
      ready := fun l e => s.ready l e || (l = level && e ∈ (P level master).selected) }
    if master = env.geid then enterRegion n s env.geid else s

/-- The indices behind a call. -/
def restAccesses (s : LevelState) : Rest → List Access
  | .task level master reduce => if reduce then s.postAccesses level master else []
  | .omp level master =>
    if (s.slots level master).postFunc.isSome then s.postAccesses level master else []

/-- The indices of a body that is left (C++ `kupl_loop_func` from `FlagBarrier::leave` on, the loop body
of `kupl_omp_parallel`). -/
def leaveAccesses (s : LevelState) (eid : Nat) : Frame → List Access
  | .alone | .task => []
  | .omp => [.ult eid]
  | .region level master =>
    let pf := s.slots level master
    .ult eid :: .barrier level ::
      if pf.postFunc.isSome ∧ pf.egroup.tid eid = 0 then s.postAccesses level master else []

/-- The indices of C++ `kupl_get_thread_num` and of `kupl_get_kernel_concurrency`. -/
def queryAccesses (n : Nat) (s : LevelState) (eid : Nat) : List Access :=
  if s.activeLevels eid = 0 then []
  else
    let index := (s.activeLevels eid - 1) * n + eid
    [.pf index, .pf ((s.activeLevels eid - 1) * n + (s.entry n index).masterEid)]

/-- What may happen next. -/
inductive LevelLabel where
  /-- A group is made or its members are moved. -/
  | create (h : Nat) (executors : List Int)
  | borrow (dest src : Nat)
  | ret (dest src : Nat)
  | reset (h : Nat)
  /-- A thread makes a call, from any body it is in. -/
  | call (env : Env) (req : Request)
  /-- A thread that looks for work finds the flag of its executor raised. -/
  | enter (eid : Nat)
  /-- A thread runs a chunk task. -/
  | task (i eid : Nat)
  /-- A thread runs a round of an OpenMP loop. -/
  | round (i eid : Nat)
  /-- A thread leaves the innermost of its bodies. -/
  | leave (eid : Nat)
  /-- A call goes on behind its tasks or its OpenMP loop. -/
  | finish (i : Nat)
  /-- `kupl_get_thread_num` or `kupl_get_kernel_concurrency` is called. -/
  | query (eid : Nat)

/-- One step, with `n` executors at the beginning and `max` for `max_active_levels`. -/
def levelStep (n max : Nat) (s : LevelState) (a : LevelLabel) : Option LevelState :=
  if s.crashed then none
  else match a with
  | .create h executors =>
    (egroupCreate n executors).map fun g => { s with groups := Function.update s.groups h g }
  | .borrow dest src => some { s with groups := egroupBorrow dest src s.groups }
  | .ret dest src => some { s with groups := egroupReturn dest src s.groups }
  | .reset h => some { s with groups := egroupReset h s.groups }
  | .call env req =>
    if env.numExecutors = n ∧ env.maxActiveLevels = max ∧ env.activeLevels = s.activeLevels env.geid
    then some (callRegion n s env req)
    else none
  | .enter eid => if s.ready (s.activeLevels eid) eid then some (enterRegion n s eid) else none
  | .task i eid =>
    match s.tasks[i]? with
    | none => none
    | some master =>
      -- the body takes the private arguments of the executor where a reduce function is set
      some ({ s with tasks := s.tasks.eraseIdx i }.touch
        (.pf master :: if (s.slots 0 master).rdFunc.isSome then [.pf eid] else [])
          |>.push eid .task)
  | .round i eid =>
    match s.rounds[i]? with
    | none => none
    | some (level, master) =>
      some ({ s with rounds := s.rounds.eraseIdx i }.touch
        (.ult eid :: dupAccesses (s.slots level master) eid) |>.push eid .omp)
  | .leave eid =>
    match s.stack eid with
    | [] => none
    | f :: fs => some
        { s.touch (leaveAccesses s eid f) with stack := Function.update s.stack eid fs }
  | .finish i =>
    match s.rests[i]? with
    | none => none
    | some rest => some ({ s with rests := s.rests.eraseIdx i }.touch (restAccesses s rest))
  | .query eid => some (s.touch (queryAccesses n s eid))

/-- The threads of a program with `n` executors, as C++ `kupl_pf_init` leaves the tables. -/
def levels (n max : Nat) : Machine LevelState LevelLabel where
  init s := s = ⟨fun _ => ⟨.empty, .empty⟩, fun _ _ => .zero, fun _ _ => false, fun _ => [], [], [],
    [], false, []⟩
  step := levelStep n max

/-- The calls whose indices stay inside: the group of a call has a member, and `kupl_parallel_for` is
called from less than two bodies; a reduce call that its caller runs alone, and a chunk task of a reduce
region, are run by an executor with a number inside of the slots; the rounds of an OpenMP loop are run
by executors from the beginning; and a thread asks for its number where its slot lies inside. -/
def Within (n : Nat) (s : LevelState) : LevelLabel → Prop
  | .call env req => ∀ r ∈ req.resolve env s.groups,
      if req.isReduce then
        if req.Quick env r.1 r.2 then env.geid < n * maxLevels else r.1.eidSet.Nonempty
      else r.1.eidSet.Nonempty ∧ env.activeLevels < maxLevels
  | .task i eid => ∀ master ∈ s.tasks[i]?, (s.slots 0 master).rdFunc = none ∨ eid < n * maxLevels
  | .round _ eid => eid < n
  | .query eid => s.activeLevels eid = 0 ∨ (s.activeLevels eid - 1) * n + eid < n * maxLevels
  | _ => True

instance (n : Nat) (s : LevelState) : ∀ a, Decidable (Within n s a)
  | .call env req => inferInstanceAs (Decidable (∀ r ∈ req.resolve env s.groups, ite _ _ _))
  | .task i _ => inferInstanceAs (Decidable (∀ master ∈ s.tasks[i]?, _ ∨ _))
  | .round _ _ => inferInstanceAs (Decidable (_ < _))
  | .query _ => inferInstanceAs (Decidable (_ ∨ _))
  | .create _ _ | .borrow _ _ | .ret _ _ | .reset _ | .enter _ | .leave _ | .finish _ => isTrue trivial

/-- The master and the members that a slot names are executors from the beginning. -/
structure Pf.Known (n : Nat) (pf : Pf) : Prop where
  master : pf.masterEid < n
  members : ∀ e ∈ pf.egroup.eidSet, e < n

def Frame.Inside (n eid : Nat) : Frame → Prop
  | .alone | .task => True
  | .omp => eid < n
  | .region level _ => level < maxLevels ∧ eid < n

/-- The invariant of the runs with calls that stay inside. -/
structure LevelState.Inv (n : Nat) (s : LevelState) : Prop where
  built : Built n s.groups
  slots : ∀ l e, (s.slots l e).Known n
  ready : ∀ l e, s.ready l e = true → l < maxLevels ∧ e < n
  frames : ∀ e, ∀ f ∈ s.stack e, f.Inside n e
  tasks : ∀ m ∈ s.tasks, m < n
  inside : ∀ x ∈ s.accesses, x.Inside n

section Slots
variable {n : Nat} {env : Env} {E : Egroups} {P : Slots} {g : EgroupInfo} {k : Int}

lemma index_inside {level eid : Nat} (hl : level < maxLevels) (he : eid < n) : level * n + eid < n * maxLevels := by
  have more : (level + 1) * n ≤ maxLevels * n := Nat.mul_le_mul_right n hl
  rw [Nat.succ_mul] at more
  rw [Nat.mul_comm n]
  omega

lemma first_inside {eid : Nat} (he : eid < n) : Access.Inside n (.pf eid) := by
  have first : 0 * n + eid < n * maxLevels := index_inside (by decide) he
  rwa [Nat.zero_mul, Nat.zero_add] at first

variable {pf : Pf} {level master : Nat} {req : Request}

lemma Pf.Known.selected (known : pf.Known n) : ∀ x ∈ pf.selected.map Access.pf, x.Inside n := by
  intro x hx
  obtain ⟨e, he, rfl⟩ := mem_map.1 hx
  exact first_inside (known.members e (mem_of_mem_limit he))

lemma known_set {level eid : Nat} (known : ∀ l e, (P l e).Known n) (hpf : pf.Known n) :
    ∀ l e, (P.set level eid pf l e).Known n := by
  intro l e
  by_cases at_ : l = level ∧ e = eid
  · obtain ⟨rfl, rfl⟩ := at_
    rwa [Slots.set_self]
  · rw [Slots.set_ne at_]
    exact known l e

lemma known_setMasters {eids : List Nat} (known : ∀ l e, (P l e).Known n)
    (hm : master < n) : ∀ l e, (P.setMasters level eids master l e).Known n := by
  intro l e
  unfold Slots.setMasters
  split
  · exact ⟨hm, (known l e).members⟩
  · exact known l e

lemma Request.resolve_lt (hb : Built env.numExecutors E)
    (h : req.resolve env E = some (g, k)) : ∀ e ∈ g.eidSet, e < env.numExecutors := by
  obtain ⟨d, -, h⟩ := Option.bind_eq_some_iff.1 h
  obtain ⟨id, rfl, -⟩ | ⟨G, hG, rfl, -⟩ := parallelForResolve_cases h
  · exact (hb.lt _).1
  · exact (egroupCreate_lt hG).1

lemma masterEid_lt (ok : g.Ok) (members : ∀ e ∈ g.eidSet, e < n) (ne : g.eidSet.Nonempty) :
    masterEid env g < n := by
  unfold masterEid
  split
  · rename_i mem
    exact members _ mem
  · obtain ⟨e, he⟩ := ne
    have low := ok.low e he
    have lt := members e he
    omega

lemma startTeam_known (known : ∀ l e, (P l e).Known n) (hpf : pf.Known n) (hm : master < n) :
    ∀ l e, ((startTeam env P level master pf).1 l e).Known n :=
  known_setMasters (known_set known hpf) hm

lemma startRun_known (known : ∀ l e, (P l e).Known n) (hpf : pf.Known n) (hm : master < n) :
    ∀ l e, ((startRun env P level master pf).1 l e).Known n := by
  unfold startRun
  split
  · exact known_set known hpf
  · exact startTeam_known known hpf hm

lemma startTask_known {range : NdRange} (known : ∀ l e, (P l e).Known n) (hpf : pf.Known n) :
    ∀ l e, ((startTask env P level master pf range).1 l e).Known n := by
  unfold startTask
  split
  · exact known_set known ⟨hpf.master, hpf.members⟩
  · exact known_set known hpf

lemma reducePolicyPrepare_masterEid : (reducePolicyPrepare pf).masterEid = pf.masterEid := by
  unfold reducePolicyPrepare
  split
  · rfl
  · split <;> rfl

lemma beginRegion_known (known : ∀ l e, (P l e).Known n)
    (group : ∀ g k, req.resolve env E = some (g, k) → (∀ e ∈ g.eidSet, e < n) ∧
      ((req.isReduce = true ∧ req.Quick env g k) ∨ masterEid env g < n)) :
    ∀ l e, ((beginRegion env E P req).1 l e).Known n := by
  cases req with
  | parallelFor desc func args =>
    simp only [beginRegion, beginParallelFor]
    split
    · exact known
    rename_i d hd
    split
    · exact known
    rename_i g k hr
    obtain ⟨members, quick | hm⟩ := group g k (by simp [Request.resolve, Request.check, hd, hr])
    · cases quick.1
    have old := (known env.activeLevels (masterEid env g)).master
    split
    · exact known_set known ⟨hm, (known _ _).members⟩
    split
    · exact startRun_known known ⟨old, members⟩ hm
    split
    · exact startRun_known known ⟨old, members⟩ hm
    · exact startRun_known known ⟨old, members⟩ hm
    · exact startTask_known known ⟨hm, members⟩
  | reduce desc func args rdArgs =>
    simp only [beginRegion, beginReduce]
    split
    · exact known
    rename_i d rd hd
    split
    · exact known
    rename_i g k hr
    obtain ⟨members, quick⟩ := group g k (by simp [Request.resolve, Request.check, hd, hr])
    split
    · exact known
    rename_i slow
    have hm : masterEid env g < n := quick.resolve_left fun q => slow q.2
    have hpf : (reducePolicyPrepare ((P 0 (masterEid env g)).fillReduce d func args rd g k)).Known n := by
      refine ⟨?_, ?_⟩
      · rw [reducePolicyPrepare_masterEid]
        exact (known 0 _).master
      · rw [reducePolicyPrepare_egroup]
        exact members
    split
    · split
      · exact known_set known hpf
      · split
        · exact known_setMasters (startTask_known known ⟨hm, hpf.members⟩) hm
        · exact startTask_known known ⟨hm, hpf.members⟩
    · exact startRun_known known hpf hm

/-- The level and the master of a region that its caller does not run alone. -/
def Start.At (level master : Nat) : Start → Prop
  | .error | .quick _ => True
  | .task l m | .omp l m | .team l m _ => l = level ∧ m = master

lemma beginRegion_at : (∃ g k, req.resolve env E = some (g, k) ∧
      ((beginRegion env E P req).2 = .quick (masterEid env g) ∧ req.Quick env g k ∨
        ¬req.Quick env g k ∧ (∀ m, (beginRegion env E P req).2 ≠ .quick m) ∧
          (beginRegion env E P req).2.At (req.level env) (masterEid env g))) ∨
      (req.resolve env E = none ∧ (beginRegion env E P req).2 = .error) := by
  have h : Begins env E P req (beginRegion env E P req) := beginRegion_begins
  generalize beginRegion env E P req = r at h
  cases h with
  | rejected hr => exact .inr ⟨hr, rfl⟩
  | quick hr hq => exact .inl ⟨_, _, hr, .inl ⟨rfl, hq⟩⟩
  | run hr hq =>
    refine .inl ⟨_, _, hr, .inr ⟨hq, ?_⟩⟩
    unfold startRun
    split
    · unfold startOmp
      split
      · exact ⟨nofun, trivial⟩
      · exact ⟨nofun, rfl, rfl⟩
    · exact ⟨nofun, rfl, rfl⟩
  | task _ _ hr hq _ hs =>
    refine .inl ⟨_, _, hr, .inr ⟨hq, ?_⟩⟩
    rcases hs with rfl | rfl
    · exact ⟨nofun, trivial⟩
    · exact ⟨nofun, rfl, rfl⟩

end Slots

section Step
variable {n : Nat} {s : LevelState}

lemma LevelState.Inv.touch {xs : List Access} (I : s.Inv n) (h : ∀ x ∈ xs, x.Inside n) : (s.touch xs).Inv n :=
  ⟨I.built, I.slots, I.ready, I.frames, I.tasks, fun x hx =>
    (mem_append.1 hx).elim (I.inside x) (h x)⟩

variable {eid : Nat}

section
variable (I : s.Inv n)
include I

lemma LevelState.Inv.push {f : Frame} (h : f.Inside n eid) : (s.push eid f).Inv n := by
  refine ⟨I.built, I.slots, I.ready, fun e x hx => ?_, I.tasks, I.inside⟩
  by_cases same : e = eid
  · subst same
    simp only [LevelState.push, Function.update_self] at hx
    rcases mem_cons.1 hx with rfl | hx
    · exact h
    · exact I.frames e x hx
  · simp only [LevelState.push, Function.update_of_ne same] at hx
    exact I.frames e x hx

omit I in
lemma dup_inside {pf : Pf} (h : eid < n * maxLevels) : ∀ x ∈ dupAccesses pf eid, x.Inside n := by
  intro x hx
  unfold dupAccesses at hx
  split at hx
  · rw [mem_singleton.1 hx]
    exact h
  · cases hx

lemma LevelState.Inv.post (level master : Nat) :
    ∀ x ∈ s.postAccesses level master, x.Inside n := (I.slots level master).selected

lemma LevelState.Inv.enter (hl : s.activeLevels eid < maxLevels) (he : eid < n) : (enterRegion n s eid).Inv n := by
  have hm := (I.slots (s.activeLevels eid) eid).master
  have cleared : LevelState.Inv n { s with
      ready := fun l e => s.ready l e && !(l = s.activeLevels eid && e = eid) } :=
    ⟨I.built, I.slots, fun l e h => I.ready l e (Bool.and_eq_true_iff.1 h).1, I.frames, I.tasks, I.inside⟩
  refine (cleared.touch fun x hx => ?_).push ⟨hl, he⟩
  rcases mem_cons.1 hx with rfl | hx
  · exact index_inside hl he
  rcases mem_cons.1 hx with rfl | hx
  · exact index_inside hl hm
  rcases mem_cons.1 hx with rfl | hx
  · exact he
  · exact dup_inside (first_inside he) x hx

lemma LevelState.Inv.leave_inside {f : Frame} (h : f.Inside n eid) : ∀ x ∈ leaveAccesses s eid f, x.Inside n := by
  intro x hx
  cases f with
  | alone | task => cases hx
  | omp =>
    rw [mem_singleton.1 hx]
    exact h
  | region level master =>
    rcases mem_cons.1 hx with rfl | hx
    · exact h.2
    rcases mem_cons.1 hx with rfl | hx
    · exact h.1
    · split at hx
      · exact I.post level master x hx
      · cases hx

lemma LevelState.Inv.rest_inside (r : Rest) : ∀ x ∈ restAccesses s r, x.Inside n := by
  intro x hx
  cases r with
  | task level master reduce =>
    cases reduce with
    | false => cases hx
    | true => exact I.post level master x hx
  | omp level master =>
    simp only [restAccesses] at hx
    split at hx
    · exact I.post level master x hx
    · cases hx

lemma LevelState.Inv.query_inside (h : s.activeLevels eid = 0 ∨ (s.activeLevels eid - 1) * n + eid < n * maxLevels) :
    ∀ x ∈ queryAccesses n s eid, x.Inside n := by
  intro x hx
  unfold queryAccesses at hx
  split at hx
  · cases hx
  · rename_i deep
    have h := h.resolve_left deep
    rcases mem_cons.1 hx with rfl | hx
    · exact h
    rw [mem_singleton.1 hx]
    refine index_inside ?_ (I.slots _ _).master
    by_contra out
    have : maxLevels * n ≤ (s.activeLevels eid - 1) * n := Nat.mul_le_mul_right n (by omega)
    rw [Nat.mul_comm] at this
    omega

omit I in
lemma call_inside {env : Env} {E : Egroups} {P : Slots} {req : Request} {g : EgroupInfo} {k : Int}
    (hr : req.resolve env E = some (g, k)) (members : ∀ e ∈ g.eidSet, e < env.numExecutors)
    (plain : req.isReduce = false → masterEid env g < env.numExecutors ∧ env.activeLevels < maxLevels)
    (quick : req.isReduce = true → req.Quick env g k → env.geid < env.numExecutors * maxLevels)
    (slow : req.isReduce = true → ¬req.Quick env g k → masterEid env g < env.numExecutors) :
    ∀ x ∈ callAccesses env E req (beginRegion env E P req).2, x.Inside env.numExecutors := by
  have limit : ∀ e ∈ g.limit k.toNat, e < env.numExecutors := fun e he =>
    members e (mem_of_mem_limit he)
  intro x hx
  unfold callAccesses at hx
  rw [hr] at hx
  have at_ := @beginRegion_at env E P req
  generalize (beginRegion env E P req).2 = start at at_ hx
  cases req with
  | parallelFor desc func args =>
    obtain ⟨hm, hl⟩ := plain rfl
    have own : Access.Inside env.numExecutors
        (.pf (env.activeLevels * env.numExecutors + masterEid env g)) := index_inside hl hm
    cases start with
    | team level master eids =>
      rcases mem_cons.1 hx with rfl | hx
      · exact own
      rcases mem_cons.1 hx with rfl | hx
      · exact hl
      obtain ⟨e, he, rfl⟩ := mem_map.1 hx
      exact index_inside hl (limit e he)
    | error | quick | task | omp =>
      rw [mem_singleton.1 hx]
      exact own
  | reduce desc func args rdArgs =>
    have all : ∀ x ∈ (g.limit k.toNat).map Access.pf, x.Inside env.numExecutors := by
      intro x hx
      obtain ⟨e, he, rfl⟩ := mem_map.1 hx
      exact first_inside (limit e he)
    rcases at_ with ⟨g', k', hr', at_⟩ | ⟨hr', -⟩
    swap
    · rw [hr] at hr'
      cases hr'
    rw [hr] at hr'
    cases hr'
    rcases at_ with ⟨rfl, hq⟩ | ⟨hq, notQuick, at_⟩
    · rw [mem_singleton.1 hx]
      exact quick rfl hq
    have own := first_inside (slow rfl hq)
    have level : env.activeLevels = 0 := by
      by_contra ne
      exact hq (.inl (by omega))
    cases start with
    | quick m => exact absurd rfl (notQuick m)
    | team level' master eids =>
      rcases mem_cons.1 hx with rfl | hx
      · exact own
      rcases mem_cons.1 hx with rfl | hx
      · rw [level]
        exact Nat.zero_lt_two
      · exact all x hx
    | task level' master =>
      rcases mem_cons.1 hx with rfl | hx
      · exact own
      · exact all x hx
    | error | omp =>
      rw [mem_singleton.1 hx]
      exact own

lemma LevelState.Inv.call {env : Env} {req : Request} (hn : env.numExecutors = n)
    (hact : env.activeLevels = s.activeLevels env.geid) (w : Within n s (.call env req)) :
    (callRegion n s env req).Inv n := by
  subst hn
  have group : ∀ g k, req.resolve env s.groups = some (g, k) → (∀ e ∈ g.eidSet, e < env.numExecutors) ∧
      (req.isReduce = false → masterEid env g < env.numExecutors ∧ env.activeLevels < maxLevels) ∧
      (req.isReduce = true → req.Quick env g k → env.geid < env.numExecutors * maxLevels) ∧
      (req.isReduce = true → ¬req.Quick env g k → masterEid env g < env.numExecutors) := by
    intro g k hr
    have ok := Request.resolve_ok I.built hr
    have members := Request.resolve_lt I.built hr
    have within := w (g, k) hr
    refine ⟨members, fun plain => ?_, fun red hq => ?_, fun red hq => ?_⟩
    · rw [if_neg (by rw [plain]; decide)] at within
      exact ⟨masterEid_lt ok members within.1, within.2⟩
    · rwa [if_pos red, if_pos hq] at within
    · rw [if_pos red, if_neg hq] at within
      exact masterEid_lt ok members within
  have known := @beginRegion_known _ env s.groups s.slots req I.slots fun g k hr => by
    obtain ⟨members, plain, -, slow⟩ := group g k hr
    refine ⟨members, ?_⟩
    cases hred : req.isReduce with
    | false => exact .inr (plain hred).1
    | true =>
      by_cases hq : req.Quick env g k
      · exact .inl ⟨rfl, hq⟩
      · exact .inr (slow hred hq)
  have at_ := @beginRegion_at env s.groups s.slots req
  have inside : ∀ x ∈ callAccesses env s.groups req (beginRegion env s.groups s.slots req).2,
      x.Inside env.numExecutors := by
    rcases at_ with ⟨g, k, hr, -⟩ | ⟨hr, -⟩
    · obtain ⟨members, plain, quick, slow⟩ := group g k hr
      exact call_inside hr members plain quick slow
    · intro x hx
      simp [callAccesses, hr] at hx
  unfold callRegion
  generalize beginRegion env s.groups s.slots req = r at known at_ inside
  obtain ⟨P, start⟩ := r
  have begun : LevelState.Inv env.numExecutors
      ({ s with slots := P }.touch (callAccesses env s.groups req start)) :=
    LevelState.Inv.touch ⟨I.built, known, I.ready, I.frames, I.tasks, I.inside⟩ inside
  -- a region that its caller does not run alone has a level and a master inside
  have place : ∀ level master, start.At level master → (∀ m, start ≠ .quick m) → start ≠ .error →
      (∀ l m, start.At l m → l = level ∧ m = master) →
        level < maxLevels ∧ env.activeLevels < maxLevels ∧ master < env.numExecutors := by
    intro level master own notQuick ne unique
    rcases at_ with ⟨g, k, hr, ⟨hq, -⟩ | ⟨hq, -, at_⟩⟩ | ⟨-, hq⟩
    · exact absurd hq (notQuick _)
    · obtain ⟨-, plain, -, slow⟩ := group g k hr
      obtain ⟨rfl, rfl⟩ := unique _ _ at_
      cases req with
      | parallelFor desc func args => exact ⟨(plain rfl).2, (plain rfl).2, (plain rfl).1⟩
      | reduce desc func args rdArgs =>
        refine ⟨Nat.zero_lt_two, ?_, slow rfl hq⟩
        have first : ¬1 ≤ env.activeLevels := fun deep => hq (.inl deep)
        have two : maxLevels = 2 := rfl
        omega
    · exact absurd hq ne
  cases start with
  | error => exact begun
  | quick master =>
    simp only
    split
    · exact begun
    · split
      · exact ⟨begun.built, begun.slots, begun.ready, begun.frames, begun.tasks, begun.inside⟩
      · exact begun.push trivial
  | task level master =>
    obtain ⟨-, -, hm⟩ := place level master ⟨rfl, rfl⟩ nofun nofun fun l m h => ⟨h.1.symm, h.2.symm⟩
    refine ⟨begun.built, begun.slots, begun.ready, begun.frames, fun m hm' => ?_, begun.inside⟩
    rcases mem_append.1 hm' with hm' | hm'
    · exact I.tasks m hm'
    · rw [eq_of_mem_replicate hm']
      exact hm
  | omp level master =>
    exact ⟨begun.built, begun.slots, begun.ready, begun.frames, begun.tasks, begun.inside⟩
  | team level master eids =>
    obtain ⟨hl, hact', hm⟩ :=
      place level master ⟨rfl, rfl⟩ nofun nofun fun l m h => ⟨h.1.symm, h.2.symm⟩
    have raised : LevelState.Inv env.numExecutors
        { ({ s with slots := P }.touch (callAccesses env s.groups req (.team level master eids))) with
          ready := fun l e => s.ready l e || (l = level && e ∈ (P level master).selected) } := by
      refine ⟨begun.built, begun.slots, fun l e h => ?_, begun.frames, begun.tasks, begun.inside⟩
      rcases Bool.or_eq_true_iff.1 h with h | h
      · exact I.ready l e h
      · simp only [Bool.and_eq_true, decide_eq_true_eq] at h
        obtain ⟨rfl, mem⟩ := h
        exact ⟨hl, (known _ _).members e (mem_of_mem_limit mem)⟩
    simp only
    split
    · rename_i own
      refine raised.enter ?_ (own ▸ hm)
      show s.activeLevels env.geid < maxLevels
      omega
    · exact raised

lemma LevelState.Inv.step {max : Nat} {s' : LevelState} {a : LevelLabel} (w : Within n s a)
    (h : levelStep n max s a = some s') : s'.Inv n := by
  unfold levelStep at h
  split at h
  · cases h
  cases a with
  | create g executors =>
    obtain ⟨G, hG, rfl⟩ := Option.map_eq_some_iff.1 h
    exact ⟨.create g I.built hG, I.slots, I.ready, I.frames, I.tasks, I.inside⟩
  | borrow dest src =>
    cases h
    exact ⟨.borrow dest src I.built, I.slots, I.ready, I.frames, I.tasks, I.inside⟩
  | ret dest src =>
    cases h
    exact ⟨.ret dest src I.built, I.slots, I.ready, I.frames, I.tasks, I.inside⟩
  | reset g =>
    cases h
    exact ⟨.reset g I.built, I.slots, I.ready, I.frames, I.tasks, I.inside⟩
  | call env req =>
    simp only at h
    split at h
    · rename_i of
      cases h
      exact I.call of.1 of.2.2 w
    · cases h
  | enter eid =>
    simp only at h
    split at h
    · rename_i raised
      cases h
      obtain ⟨hl, he⟩ := I.ready _ _ raised
      exact I.enter hl he
    · cases h
  | task i eid =>
    simp only at h
    split at h
    · cases h
    · rename_i master task
      cases h
      have hm := I.tasks master (mem_of_getElem? task)
      have rest : LevelState.Inv n { s with tasks := s.tasks.eraseIdx i } :=
        ⟨I.built, I.slots, I.ready, I.frames, fun m h => I.tasks m (mem_of_mem_eraseIdx h), I.inside⟩
      refine (rest.touch fun x hx => ?_).push trivial
      rcases mem_cons.1 hx with rfl | hx
      · exact first_inside hm
      · split at hx
        · rename_i rd
          rw [mem_singleton.1 hx]
          refine (w master task).resolve_left fun none => ?_
          rw [none] at rd
          cases rd
        · cases hx
  | round i eid =>
    simp only at h
    split at h
    · cases h
    · cases h
      have he : eid < n := w
      have rest : LevelState.Inv n { s with rounds := s.rounds.eraseIdx i } :=
        ⟨I.built, I.slots, I.ready, I.frames, I.tasks, I.inside⟩
      refine (rest.touch fun x hx => ?_).push he
      rcases mem_cons.1 hx with rfl | hx
      · exact he
      · exact dup_inside (first_inside he) x hx
  | leave eid =>
    simp only at h
    split at h
    · cases h
    · rename_i f fs stack
      cases h
      have all := I.frames eid
      rw [stack] at all
      have left := I.touch (I.leave_inside (all f mem_cons_self))
      refine ⟨left.built, left.slots, left.ready, fun e x hx => ?_, left.tasks, left.inside⟩
      by_cases same : e = eid
      · subst same
        simp only [Function.update_self] at hx
        exact all x (mem_cons_of_mem _ hx)
      · simp only [Function.update_of_ne same] at hx
        exact I.frames e x hx
  | finish i =>
    simp only at h
    split at h
    · cases h
    · rename_i rest hrest
      cases h
      have rests : LevelState.Inv n { s with rests := s.rests.eraseIdx i } :=
        ⟨I.built, I.slots, I.ready, I.frames, I.tasks, I.inside⟩
      exact rests.touch (I.rest_inside rest)
  | query eid =>
    cases h
    exact I.touch (I.query_inside w)

end

end Step

/-- As long as every call stays inside, every index does. -/
theorem levels_inside {n max : Nat} {s : LevelState} (pos : 1 ≤ n)
    (h : (levels n max).Reach (Within n) s) : ∀ x ∈ s.accesses, x.Inside n := by
  have inv : s.Inv n := by
    refine h.inv (fun s hs => ?_) fun s a s' I w st => I.step w st
    cases hs
    exact ⟨.none, fun _ _ => ⟨pos, fun e he => absurd he (Finset.notMem_empty e)⟩, nofun, nofun, nofun, nofun⟩
  exact inv.inside

/-- Executor `0` of four calls `kupl_parallel_for` on one thread, from so many bodies. -/
def aloneFrom (levels : Nat) : LevelLabel :=
  .call ⟨4, 1, 4, false, true, 0, levels, none⟩
    (.parallelFor ⟨fieldDefault, none, none, 1, .static⟩ (some 1) 0)

/-- A body inside of another one, and a thread that asks for its number there. -/
theorem levels_inside_nested : ∃ s, (levels 4 1).Reach (Within 4) s ∧ s.accesses.length = 4 ∧
    ∀ x ∈ s.accesses, x.Inside 4 := by
  refine Machine.shown_and [aloneFrom 0, aloneFrom 1, .query 0] rfl (by decide) fun s h _ => ?_
  exact levels_inside (by decide) h

/-- The third of three nested regions that their caller runs alone. -/
theorem levels_outside : ∃ s, (levels 4 1).Reachable s ∧ ∃ x ∈ s.accesses, ¬x.Inside 4 := by
  refine Machine.exists_reach [aloneFrom 0, aloneFrom 1, aloneFrom 2] rfl ?_
  decide

end Kupl.Loop
