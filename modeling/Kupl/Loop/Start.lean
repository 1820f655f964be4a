import Kupl.Loop.Slot

/-!
# The start of a region

The start of a region in `kupl_parallel_for` and `kupl_parallel_for_reduce` of
`mt/kupl_parallel_for.cpp`, up to the executors that run it: `beginParallelFor`, `beginReduce`.

A region runs on the caller alone, as chunk tasks, in an OpenMP loop, or on a team: the first
`num_threads` members of the group by executor number and the caller where it is a member. `Begins`
lists the ways a call starts with what each of them writes; `beginRegion_begins` is the lemma later
modules use in place of the definitions.
-/

namespace Kupl.Loop
open Kupl.Range Kupl.Group

/-- A call of `kupl_parallel_for` or of `kupl_parallel_for_reduce`. -/
inductive Request where
  | parallelFor (desc : PfDesc) (func : Option Nat) (args : Nat)
  | reduce (desc : PfDesc) (func : Option Nat) (args : Nat) (rdArgs : Option ReduceArgs)

/-- How a call goes on once its slot is written. -/
inductive Start where
  /-- `KUPL_ERROR`. -/
  | error
  /-- The caller runs the function itself, as thread `0` of `1`. -/
  | quick (master : Nat)
  /-- The chunks of the region become tasks. -/
  | task (level master : Nat)
  /-- An OpenMP loop over the thread numbers. -/
  | omp (level master : Nat)
  /-- The executors that run `kupl_loop_func`. -/
  | team (level master : Nat) (eids : List Nat)

/-- The executors the macro `KUPL_FOR_EACH_LIMIT_EGROUP` goes through. -/
def Pf.selected (pf : Pf) : List Nat := pf.egroup.limit pf.numThreads.toNat

/-- The executors that run `kupl_loop_func`: each one whose flag is raised, and the caller where it is
the master. -/
def teamEids (env : Env) (pf : Pf) (master : Nat) : List Nat :=
  let eids := (pf.egroup.limit pf.numThreads.toNat).dedup
  if master = env.geid ∧ env.geid ∉ eids then env.geid :: eids else eids

/-- A region for the flag barrier. -/
def startTeam (env : Env) (P : Slots) (level master : Nat) (pf : Pf) : Slots × Start :=
  ((P.set level master pf).setMasters level (pf.egroup.limit pf.numThreads.toNat) master,
    .team level master (teamEids env pf master))

/-- A region for the OpenMP backend (C++ the check of `kupl_omp_parallel`). -/
def startOmp (P : Slots) (level master : Nat) (pf : Pf) : Slots × Start :=
  (P.set level master pf,
    if pf.range.any fun range => range.dim ≠ 1 ∨ pf.policy ≠ .static then .error
    else .omp level master)

/-- A region on a team or in an OpenMP loop. -/
def startRun (env : Env) (P : Slots) (level master : Nat) (pf : Pf) : Slots × Start :=
  if env.omp then startOmp P level master pf else startTeam env P level master pf

/-- A region of chunk tasks (C++ the start of `kupl_task_policy_impl`). -/
def startTask (env : Env) (P : Slots) (level master : Nat) (pf : Pf) (range : NdRange) : Slots × Start :=
  if env.graph then (P.set level master (pf.calcChunkInfo range), .task level master)
  else (P.set level master pf, .error)

/-- C++ `kupl_parallel_for`, up to the run of the region. -/
def beginParallelFor (env : Env) (E : Egroups) (P : Slots) (desc : PfDesc) (func : Option Nat)
    (args : Nat) : Slots × Start :=
  match parallelForCheck env E desc func with
  | none => (P, .error)
  | some desc =>
    match parallelForResolve env E desc with
    | none => (P, .error)
    | some (egroup, numThreads) =>
      let master := masterEid env egroup
      let level := env.activeLevels
      if level ≥ env.maxActiveLevels ∨ env.isExpand ∨ (numThreads = 1 ∧ master = env.geid) then
        (P.set level master ((P level master).solo master), .quick master)
      else
        let pf := (P level master).fill desc func args egroup numThreads
        match desc.range with
        | none => startRun env P level master (noRangePrepare pf)
        | some range =>
          match desc.policy with
          | .static => startRun env P level master (staticPrepare pf range)
          | .dynamic => startRun env P level master (dynamicPrepare pf range)
          | .task => startTask env P level master (pf.setMaster master) range

/-- C++ `kupl_parallel_for_reduce`, up to the run of the region. Its slot is always one of level `0`. -/
def beginReduce (env : Env) (E : Egroups) (P : Slots) (desc : PfDesc) (func : Option Nat)
    (args : Nat) (rdArgs : Option ReduceArgs) : Slots × Start :=
  match reduceCheck env E desc func rdArgs with
  | none => (P, .error)
  | some (desc, rd) =>
    match parallelForResolve env E desc with
    | none => (P, .error)
    | some (egroup, numThreads) =>
      let master := masterEid env egroup
      if env.activeLevels ≥ 1 ∨ (numThreads = 1 ∧ master = env.geid) then (P, .quick master)
      else
        let pf := reducePolicyPrepare
          ((P 0 master).fillReduce desc func args rd egroup numThreads)
        match desc.range, desc.policy with
        | some range, .task =>
          if env.omp then startOmp P 0 master pf
          else
            let (P, start) := startTask env P 0 master (pf.setMaster master) range
            -- the private buffers are set up for the executors that get a chunk
            (if env.graph then P.setMasters 0 (egroup.limit numThreads.toNat) master else P, start)
        | _, _ => startRun env P 0 master pf

/-- The start of a call. -/
def beginRegion (env : Env) (E : Egroups) (P : Slots) : Request → Slots × Start
  | .parallelFor desc func args => beginParallelFor env E P desc func args
  | .reduce desc func args rdArgs => beginReduce env E P desc func args rdArgs

def Request.desc : Request → PfDesc
  | .parallelFor desc _ _ | .reduce desc _ _ _ => desc

def Request.check (env : Env) (E : Egroups) : Request → Option PfDesc
  | .parallelFor desc func _ => parallelForCheck env E desc func
  | .reduce desc func _ rdArgs => (reduceCheck env E desc func rdArgs).map Prod.fst

/-- The group and the number of threads of a call that passes its checks. -/
def Request.resolve (env : Env) (E : Egroups) (req : Request) : Option (EgroupInfo × Int) :=
  (req.check env E).bind (parallelForResolve env E)

def Request.level (env : Env) : Request → Nat
  | .parallelFor _ _ _ => env.activeLevels
  | .reduce _ _ _ _ => 0

/-- The caller runs the region alone. -/
def Request.Quick (env : Env) (g : EgroupInfo) (numThreads : Int) : Request → Prop
  | .parallelFor _ _ _ => env.activeLevels ≥ env.maxActiveLevels ∨ env.isExpand ∨
      (numThreads = 1 ∧ masterEid env g = env.geid)
  | .reduce _ _ _ _ => env.activeLevels ≥ 1 ∨ (numThreads = 1 ∧ masterEid env g = env.geid)

instance (env : Env) (g : EgroupInfo) (numThreads : Int) : ∀ req : Request, Decidable (req.Quick env g numThreads)
  | .parallelFor _ _ _ => inferInstanceAs (Decidable (_ ∨ _ ∨ _))
  | .reduce _ _ _ _ => inferInstanceAs (Decidable (_ ∨ _))

def Request.IsTask (req : Request) : Prop :=
  req.desc.policy = .task ∧ req.desc.range.isSome = true

instance (req : Request) : Decidable req.IsTask := inferInstanceAs (Decidable (_ ∧ _))

def Request.slot (env : Env) (E : Egroups) (req : Request) : Option (Nat × Nat) :=
  (req.resolve env E).bind fun r =>
    if req.Quick env r.1 r.2 then none else some (req.level env, masterEid env r.1)

/-- A call of `kupl_parallel_for_reduce`. -/
def Request.isReduce : Request → Bool
  | .parallelFor _ _ _ => false
  | .reduce _ _ _ _ => true

/-- The policy functions of `kupl_parallel_for_reduce`. -/
def PolicyFunc.isReduce : PolicyFunc → Bool
  | .noRange | .static | .ndStatic | .dynamic => false
  | .reduceNoRange | .reduceStatic | .reduceNdStatic | .reduceDynamic => true

/-- What a call leaves of the functions and arguments in the slot it fills. -/
def Request.Fills (old : Pf) (req : Request) (pf : Pf) : Prop :=
  match req with
  | .parallelFor _ func args => pf.func = func ∧ pf.args = args ∧ pf.rdFunc = old.rdFunc ∧
      pf.sharedArgs = old.sharedArgs ∧ pf.postFunc = old.postFunc
  | .reduce _ func args rdArgs => pf.rdFunc = func ∧ pf.args = args ∧ pf.sharedArgs = rdArgs ∧
      pf.postFunc = if req.IsTask then none else some .reducePost

/-- Two slots that differ in the master and the number of threads at most. -/
def Pf.SameWork (a b : Pf) : Prop :=
  ∃ masterEid numThreads, a = { b with masterEid := masterEid, numThreads := numThreads }

lemma Pf.SameWork.refl (a : Pf) : a.SameWork a := ⟨a.masterEid, a.numThreads, rfl⟩

structure TaskSlot (g : EgroupInfo) (k : Int) (range : NdRange) (master : Nat) (pf : Pf) : Prop where
  chunkInfo : pf.chunkInfo = (Range.calcChunkInfo range).chunkInfo
  totalChunks : pf.totalChunks = (Range.calcChunkInfo range).totalChunks
  masterEid : pf.masterEid = master
  egroup : pf.egroup = g
  numThreads : pf.numThreads = k
  range : pf.range = some range

/-- The ways a call starts. -/
inductive Begins (env : Env) (E : Egroups) (P : Slots) (req : Request) : Slots × Start → Prop where
  | rejected : req.resolve env E = none → Begins env E P req (P, .error)
  | quick {g k P'} : req.resolve env E = some (g, k) → req.Quick env g k →
      (∀ l e, (P' l e).SameWork (P l e)) → Begins env E P req (P', .quick (masterEid env g))
  | run {g k pf} : req.resolve env E = some (g, k) → ¬req.Quick env g k → ¬req.IsTask →
      pf.egroup = g → pf.numThreads = k → req.Fills (P (req.level env) (masterEid env g)) pf →
      pf.policyFunc.map PolicyFunc.isReduce = some req.isReduce →
      Begins env E P req (startRun env P (req.level env) (masterEid env g) pf)
  | task {d g k range P' start} : req.check env E = some d → d.range = some range →
      req.resolve env E = some (g, k) → ¬req.Quick env g k → req.IsTask →
      (start = .error ∨ start = .task (req.level env) (masterEid env g)) →
      (∀ l e, ¬(l = req.level env ∧ e = masterEid env g) → (P' l e).SameWork (P l e)) →
      req.Fills (P (req.level env) (masterEid env g)) (P' (req.level env) (masterEid env g)) →
      (start ≠ .error → TaskSlot g k range (masterEid env g) (P' (req.level env) (masterEid env g))) →
      Begins env E P req (P', start)

lemma parallelForCheck_spec {env E desc func d} (h : parallelForCheck env E desc func = some d) :
    d.policy = desc.policy ∧ d.range.isSome = desc.range.isSome ∧
      ∀ range, d.range = some range → ∃ r, desc.range = some r ∧
        checkRange r desc.policy = some range ∧ (desc.policy = .task → r.dim = 1) := by
  unfold parallelForCheck at h
  split at h
  · cases h
  · simp only at h
    split at h
    · cases h
    · rename_i range hrange
      have spec : range.isSome = desc.range.isSome ∧ ∀ r', range = some r' → ∃ r, desc.range = some r ∧
            checkRange r desc.policy = some r' ∧ (desc.policy = .task → r.dim = 1) := by
        cases hd : desc.range with
        | none =>
          rw [hd] at hrange
          cases hrange
          exact ⟨rfl, nofun⟩
        | some r =>
          rw [hd] at hrange
          simp only at hrange
          split at hrange
          · cases hrange
          · rename_i dim
            obtain ⟨r', hr', rfl⟩ := Option.map_eq_some_iff.1 hrange
            refine ⟨rfl, fun _ eq => ⟨r, rfl, ?_, fun ht => ?_⟩⟩
            · cases eq
              exact hr'
            · by_contra ne
              exact dim ⟨ht, ne⟩
      split at h
      · cases h
      · split at h
        · cases h
          exact ⟨rfl, spec⟩
        · split at h
          · cases h
          · cases h
            exact ⟨rfl, spec⟩

lemma reduceCheck_spec {env E desc func rdArgs d} (h : reduceCheck env E desc func rdArgs = some d) :
    parallelForCheck env E desc func = some d.1 ∧ rdArgs = some d.2 := by
  unfold reduceCheck at h
  split at h
  · rename_i hd
    split at h
    · cases h
    · split at h
      · cases h
      · split at h
        · cases h
          exact ⟨hd, rfl⟩
        · cases h
  · cases h

variable {req : Request} {env : Env} {E : Egroups}

lemma Request.check_spec {env E d} (h : req.check env E = some d) :
    d.policy = req.desc.policy ∧ d.range.isSome = req.desc.range.isSome ∧
      ∀ range, d.range = some range → ∃ r, req.desc.range = some r ∧
        checkRange r req.desc.policy = some range ∧ (req.desc.policy = .task → r.dim = 1) := by
  cases req with
  | parallelFor desc func args => exact parallelForCheck_spec h
  | reduce desc func args rdArgs =>
    obtain ⟨p, hp, rfl⟩ := Option.map_eq_some_iff.1 h
    exact parallelForCheck_spec (reduceCheck_spec hp).1

lemma parallelForResolve_cases {desc g k} (h : parallelForResolve env E desc = some (g, k)) :
    (∃ id, g = (E id).cur ∧ k = parallelForNumThreads env desc (some (E id).cur)) ∨
      ∃ G, egroupCreate env.numExecutors ((List.range k.toNat).map Int.ofNat) = some G ∧ g = G.cur ∧
        k = parallelForNumThreads env desc none := by
  unfold parallelForResolve at h
  split at h
  · cases h
    exact .inl ⟨_, rfl, rfl⟩
  · obtain ⟨G, hG, eq⟩ := Option.map_eq_some_iff.1 h
    cases eq
    unfold globalEgroup at hG
    split at hG
    · cases hG
    · exact .inr ⟨G, hG, rfl, rfl⟩

lemma Request.resolve_ok {n : Nat} {g k} (hb : Built n E) (h : req.resolve env E = some (g, k)) : g.Ok := by
  obtain ⟨d, -, h⟩ := Option.bind_eq_some_iff.1 h
  obtain ⟨id, rfl, -⟩ | ⟨G, hG, rfl, -⟩ := parallelForResolve_cases h
  · exact (hb.ok _).1
  · exact (egroupCreate_ok hG).1

lemma Request.resolve_size {g k} (h : req.resolve env E = some (g, k)) (pos : 0 < k) : g.size ≠ 0 := by
  obtain ⟨d, -, h⟩ := Option.bind_eq_some_iff.1 h
  obtain ⟨id, rfl, rfl⟩ | ⟨G, hG, rfl, -⟩ := parallelForResolve_cases h
  · intro zero
    simp only [parallelForNumThreads, curSize, zero] at pos
    simp at pos
  · rw [egroupCreate_size hG, List.length_map, List.length_range]
    omega

lemma reducePolicyPrepare_egroup {pf : Pf} : (reducePolicyPrepare pf).egroup = pf.egroup := by
  unfold reducePolicyPrepare
  split
  · rfl
  · split <;> rfl

lemma reducePolicyPrepare_numThreads {pf : Pf} : (reducePolicyPrepare pf).numThreads = pf.numThreads := by
  unfold reducePolicyPrepare
  split
  · rfl
  · split <;> rfl

lemma reducePolicyPrepare_spec (old : Pf) (d : PfDesc) (func args rd g k)
    (nt : ¬(d.policy = .task ∧ d.range.isSome = true)) :
    let pf := reducePolicyPrepare (old.fillReduce d func args rd g k)
    pf.rdFunc = func ∧ pf.args = args ∧ pf.sharedArgs = some rd ∧ pf.postFunc = some .reducePost ∧
      pf.policyFunc.map PolicyFunc.isReduce = some true := by
  obtain ⟨mask, range, egroup, concurrency, policy⟩ := d
  cases range with
  | none => exact ⟨rfl, rfl, rfl, rfl, rfl⟩
  | some range =>
    cases policy with
    | static =>
      refine ⟨rfl, rfl, rfl, rfl, ?_⟩
      show (some (if range.dim = 1 then PolicyFunc.reduceStatic else .reduceNdStatic)).map
        PolicyFunc.isReduce = some true
      split <;> rfl
    | dynamic => exact ⟨rfl, rfl, rfl, rfl, rfl⟩
    | task => exact absurd ⟨rfl, rfl⟩ nt

lemma staticPrepare_isReduce {pf range} : (staticPrepare pf range).policyFunc.map PolicyFunc.isReduce = some false := by
  show (some (if range.dim = 1 then PolicyFunc.static else .ndStatic)).map PolicyFunc.isReduce = some false
  split <;> rfl

lemma startTask_cases (env P level master pf range) :
    ∃ pf' start, startTask env P level master pf range = (P.set level master pf', start) ∧
      (start = .error ∧ pf' = pf ∨ start = .task level master ∧ pf' = pf.calcChunkInfo range) := by
  unfold startTask
  split
  · exact ⟨_, _, rfl, .inr ⟨rfl, rfl⟩⟩
  · exact ⟨_, _, rfl, .inl ⟨rfl, rfl⟩⟩

lemma setMasters_sameWork (P : Slots) (level eids master l e) :
    (P.setMasters level eids master l e).SameWork (P l e) := by
  unfold Slots.setMasters
  split
  · exact ⟨master, (P l e).numThreads, rfl⟩
  · exact .refl _

lemma beginParallelFor_begins {env E P desc func args} :
    Begins env E P (.parallelFor desc func args) (beginParallelFor env E P desc func args) := by
  unfold beginParallelFor
  split
  · rename_i hd
    exact .rejected (by simp [Request.resolve, Request.check, hd])
  rename_i d hd
  obtain ⟨epol, erange, -⟩ := parallelForCheck_spec hd
  split
  · rename_i hr
    exact .rejected (by simp [Request.resolve, Request.check, hd, hr])
  rename_i g k hr
  have res : (Request.parallelFor desc func args).resolve env E = some (g, k) := by
    simp [Request.resolve, Request.check, hd, hr]
  simp only
  split
  · rename_i quick
    refine .quick res quick fun l e => ?_
    by_cases at_ : l = env.activeLevels ∧ e = masterEid env g
    · obtain ⟨rfl, rfl⟩ := at_
      rw [Slots.set_self]
      exact ⟨_, _, rfl⟩
    · rw [Slots.set_ne at_]
      exact .refl _
  rename_i quick
  -- a region on a team or in an OpenMP loop
  have run : ∀ pf : Pf, ¬(Request.parallelFor desc func args).IsTask → pf.egroup = g →
      pf.numThreads = k → (Request.parallelFor desc func args).Fills
        (P env.activeLevels (masterEid env g)) pf →
      pf.policyFunc.map PolicyFunc.isReduce = some false →
      Begins env E P (.parallelFor desc func args)
        (startRun env P env.activeLevels (masterEid env g) pf) :=
    fun pf nt eg ek fills pol => .run res quick nt eg ek fills pol
  split
  · rename_i none
    exact run _ (fun h => by have := erange.trans h.2; rw [none] at this; cases this) rfl rfl
      ⟨rfl, rfl, rfl, rfl, rfl⟩ rfl
  rename_i range hrange
  split
  · rename_i static
    exact run _ (fun h => by have := epol.trans h.1; rw [static] at this; cases this) rfl rfl
      ⟨rfl, rfl, rfl, rfl, rfl⟩
      staticPrepare_isReduce
  · rename_i dynamic
    exact run _ (fun h => by have := epol.trans h.1; rw [dynamic] at this; cases this) rfl rfl
      ⟨rfl, rfl, rfl, rfl, rfl⟩ rfl
  · rename_i task
    have isTask : (Request.parallelFor desc func args).IsTask :=
      ⟨epol.symm.trans task, erange.symm.trans (by rw [hrange]; rfl)⟩
    obtain ⟨pf', start, eq, h⟩ := startTask_cases env P env.activeLevels (masterEid env g)
      (((P env.activeLevels (masterEid env g)).fill d func args g k).setMaster (masterEid env g))
      range
    rw [eq]
    refine .task hd hrange res quick isTask (h.imp And.left And.left) ?_ ?_ ?_
    · intro l e ne
      have ne : ¬(l = env.activeLevels ∧ e = masterEid env g) := ne
      rw [Slots.set_ne ne]
      exact .refl _
    · rw [Request.level, Slots.set_self]
      obtain ⟨-, rfl⟩ | ⟨-, rfl⟩ := h <;> exact ⟨rfl, rfl, rfl, rfl, rfl⟩
    · intro ok
      obtain ⟨e, -⟩ | ⟨-, rfl⟩ := h
      · exact absurd e ok
      · rw [Request.level, Slots.set_self]
        exact ⟨rfl, rfl, rfl, rfl, rfl, hrange⟩

lemma beginReduce_begins {env E P desc func args rdArgs} :
    Begins env E P (.reduce desc func args rdArgs) (beginReduce env E P desc func args rdArgs) := by
  unfold beginReduce
  split
  · rename_i hd
    exact .rejected (by simp [Request.resolve, Request.check, hd])
  rename_i d rd hd
  obtain ⟨checked, hrd⟩ := reduceCheck_spec hd
  obtain ⟨epol, erange, -⟩ := parallelForCheck_spec checked
  have check : (Request.reduce desc func args rdArgs).check env E = some d := by
    simp [Request.check, hd]
  split
  · rename_i hr
    exact .rejected (by simp [Request.resolve, check, hr])
  rename_i g k hr
  have res : (Request.reduce desc func args rdArgs).resolve env E = some (g, k) := by
    simp [Request.resolve, check, hr]
  simp only
  split
  · rename_i quick
    exact .quick res quick fun l e => .refl _
  rename_i quick
  split
  · rename_i range hrange task
    have isTask : (Request.reduce desc func args rdArgs).IsTask :=
      ⟨epol.symm.trans task, erange.symm.trans (by rw [hrange]; rfl)⟩
    obtain ⟨pf, hpf⟩ : ∃ pf, pf = reducePolicyPrepare
        ((P 0 (masterEid env g)).fillReduce d func args rd g k) := ⟨_, rfl⟩
    have prep : pf = { (P 0 (masterEid env g)).fillReduce d func args rd g k with
        policyFunc := none, postFunc := none } := by
      rw [hpf]
      show reducePolicyPrepare _ = _
      unfold reducePolicyPrepare
      simp only [Pf.fillReduce, hrange, task]
    have fills : ∀ pf', (pf' = pf ∨ pf' = pf.setMaster (masterEid env g) ∨
        pf' = (pf.setMaster (masterEid env g)).calcChunkInfo range) →
        (Request.reduce desc func args rdArgs).Fills (P 0 (masterEid env g)) pf' := by
      intro pf' h
      refine ⟨?_, ?_, ?_, ?_⟩
      all_goals first | rw [if_pos isTask] | rw [hrd] | skip
      all_goals obtain rfl | rfl | rfl := h <;> rw [prep] <;> rfl
    rw [← hpf]
    split
    · -- the OpenMP backend has no chunk tasks
      have rejected : startOmp P 0 (masterEid env g) pf = (P.set 0 (masterEid env g) pf, .error) := by
        simp [startOmp, prep, Pf.fillReduce, hrange, task]
      rw [rejected]
      refine .task check hrange res quick isTask (.inl rfl) ?_ ?_ (fun ok => absurd rfl ok)
      · intro l e ne
        have ne : ¬(l = 0 ∧ e = masterEid env g) := ne
        rw [Slots.set_ne ne]
        exact .refl _
      · rw [Request.level, Slots.set_self]
        exact fills pf (.inl rfl)
    · obtain ⟨pf', start, eq, h⟩ := startTask_cases env P 0 (masterEid env g)
        (pf.setMaster (masterEid env g)) range
      rw [eq]
      -- the slot of the region with its master named once more
      have own : ∀ Q : Slots, (Q = P.set 0 (masterEid env g) pf' ∨
          Q = (P.set 0 (masterEid env g) pf').setMasters 0 (g.limit k.toNat) (masterEid env g)) →
          Q 0 (masterEid env g) = pf' := by
        have same : pf'.setMaster (masterEid env g) = pf' := by
          obtain ⟨-, rfl⟩ | ⟨-, rfl⟩ := h <;> rfl
        rintro Q (rfl | rfl)
        · exact Slots.set_self
        · unfold Slots.setMasters
          rw [Slots.set_self, same, ite_self]
      have frame : ∀ Q : Slots, (Q = P.set 0 (masterEid env g) pf' ∨
          Q = (P.set 0 (masterEid env g) pf').setMasters 0 (g.limit k.toNat) (masterEid env g)) →
          ∀ l e, ¬(l = 0 ∧ e = masterEid env g) → (Q l e).SameWork (P l e) := by
        rintro Q (rfl | rfl) l e ne
        · rw [Slots.set_ne ne]
          exact .refl _
        · have := setMasters_sameWork (P.set 0 (masterEid env g) pf') 0 (g.limit k.toNat)
            (masterEid env g) l e
          rwa [Slots.set_ne ne] at this
      have shape : (if env.graph then
          (P.set 0 (masterEid env g) pf').setMasters 0 (g.limit k.toNat) (masterEid env g)
          else P.set 0 (masterEid env g) pf') = P.set 0 (masterEid env g) pf' ∨
          (if env.graph then
          (P.set 0 (masterEid env g) pf').setMasters 0 (g.limit k.toNat) (masterEid env g)
          else P.set 0 (masterEid env g) pf') =
            (P.set 0 (masterEid env g) pf').setMasters 0 (g.limit k.toNat) (masterEid env g) := by
        split
        · exact .inr rfl
        · exact .inl rfl
      refine .task check hrange res quick isTask (h.imp And.left And.left) (frame _ shape) ?_ ?_
      · rw [Request.level, own _ shape]
        obtain ⟨-, rfl⟩ | ⟨-, rfl⟩ := h
        · exact fills _ (.inr (.inl rfl))
        · exact fills _ (.inr (.inr rfl))
      · intro ok
        obtain ⟨e, -⟩ | ⟨-, rfl⟩ := h
        · exact absurd e ok
        · rw [Request.level, own _ shape, prep]
          exact ⟨rfl, rfl, rfl, rfl, rfl, hrange⟩
  · rename_i ne
    obtain ⟨h1, h2, h3, h4, h5⟩ := reducePolicyPrepare_spec (P 0 (masterEid env g)) d func args rd g k
      (by
        rintro ⟨task, some⟩
        obtain ⟨range, hrange⟩ := Option.isSome_iff_exists.1 some
        exact ne range hrange task)
    have nt : ¬(Request.reduce desc func args rdArgs).IsTask := by
      rintro ⟨task, some⟩
      obtain ⟨range, hrange⟩ := Option.isSome_iff_exists.1 (erange.trans some)
      exact ne range hrange (epol.trans task)
    refine .run res quick nt reducePolicyPrepare_egroup reducePolicyPrepare_numThreads ?_ h5
    exact ⟨h1, h2, h3.trans hrd.symm, by rw [if_neg nt]; exact h4⟩

lemma beginRegion_begins {env E P req} : Begins env E P req (beginRegion env E P req) := by
  cases req with
  | parallelFor desc func args => exact beginParallelFor_begins
  | reduce desc func args rdArgs => exact beginReduce_begins

lemma Request.slot_of_resolve {g k} (hr : req.resolve env E = some (g, k)) (quick : ¬req.Quick env g k) :
    req.slot env E = some (req.level env, masterEid env g) := by
  simp [Request.slot, hr, quick]

lemma startRun_frame {env P level master pf l e} (h : ¬(l = level ∧ e = master)) :
    ((startRun env P level master pf).1 l e).SameWork (P l e) := by
  unfold startRun
  split
  · simp only [startOmp]
    rw [Slots.set_ne h]
    exact .refl _
  · have := setMasters_sameWork (P.set level master pf) level
      (pf.egroup.limit pf.numThreads.toNat) master l e
    rwa [Slots.set_ne h] at this

lemma beginRegion_frame {env E P req l e} (h : req.slot env E ≠ some (l, e)) :
    ((beginRegion env E P req).1 l e).SameWork (P l e) := by
  generalize hs : beginRegion env E P req = out
  have begins : Begins env E P req out := hs ▸ beginRegion_begins
  cases begins with
  | rejected => exact .refl _
  | quick _ _ same => exact same l e
  | run hr quick =>
    rw [Request.slot_of_resolve hr quick] at h
    exact startRun_frame fun ⟨hl, he⟩ => h (by rw [hl, he])
  | task _ _ hr quick _ _ same =>
    rw [Request.slot_of_resolve hr quick] at h
    exact same l e fun ⟨hl, he⟩ => h (by rw [hl, he])

lemma startRun_ne_task {env P level master pf l m} : (startRun env P level master pf).2 ≠ .task l m := by
  unfold startRun startOmp startTeam
  split
  · split <;> nofun
  · nofun

lemma beginRegion_task {env E P P' level master} (h : beginRegion env E P req = (P', .task level master)) :
    ∃ d g k range, req.check env E = some d ∧ d.range = some range ∧
      req.resolve env E = some (g, k) ∧ req.slot env E = some (level, master) ∧ req.IsTask ∧
      req.Fills (P level master) (P' level master) ∧
      TaskSlot g k range master (P' level master) := by
  have begins : Begins env E P req (beginRegion env E P req) := beginRegion_begins
  rw [h] at begins
  generalize hout : (P', Start.task level master) = out at begins
  cases begins with
  | rejected | quick => cases hout
  | run =>
    have := congrArg Prod.snd hout
    exact absurd this.symm startRun_ne_task
  | task hd hrange hr quick isTask hstart _ fills slot =>
    cases hout
    obtain eq | eq := hstart
    · cases eq
    · cases eq
      exact ⟨_, _, _, _, hd, hrange, hr, Request.slot_of_resolve hr quick, isTask, fills, slot nofun⟩

lemma Request.Fills.sameWork {old pf pf' : Pf} (h : req.Fills old pf) (same : pf'.SameWork pf) : req.Fills old pf' := by
  obtain ⟨m, n, rfl⟩ := same
  cases req with
  | parallelFor desc func args | reduce desc func args rdArgs => exact h

lemma startRun_slot (env P level master pf) : ((startRun env P level master pf).1 level master).SameWork pf := by
  unfold startRun
  split
  · simp only [startOmp]
    rw [Slots.set_self]
    exact .refl _
  · have := setMasters_sameWork (P.set level master pf) level
      (pf.egroup.limit pf.numThreads.toNat) master level master
    rwa [Slots.set_self] at this

lemma beginRegion_fills {env E P l m} (h : req.slot env E = some (l, m)) :
    req.Fills (P l m) ((beginRegion env E P req).1 l m) := by
  generalize hs : beginRegion env E P req = out
  have begins : Begins env E P req out := hs ▸ beginRegion_begins
  cases begins with
  | rejected none => simp [Request.slot, none] at h
  | quick hr quick => simp [Request.slot, hr, quick] at h
  | run hr quick _ _ _ fills =>
    rw [Request.slot_of_resolve hr quick] at h
    cases h
    exact fills.sameWork (startRun_slot ..)
  | task _ _ hr quick _ _ _ fills =>
    rw [Request.slot_of_resolve hr quick] at h
    cases h
    exact fills

lemma startRun_start (env P level master pf) : (startRun env P level master pf).2 = .error ∨
      (startRun env P level master pf).2 = .omp level master ∨
      env.omp = false ∧ (startRun env P level master pf).2 = .team level master
        (teamEids env pf master) := by
  unfold startRun
  cases homp : env.omp with
  | true =>
    simp only [if_true, startOmp]
    split
    · exact .inl rfl
    · exact .inr (.inl rfl)
  | false => exact .inr (.inr ⟨rfl, rfl⟩)

lemma beginRegion_run {env E P P' start level master} (h : beginRegion env E P req = (P', start))
    (hs : start = .omp level master ∨ ∃ eids, start = .team level master eids) :
    req.slot env E = some (level, master) ∧ ¬req.IsTask ∧
      (P' level master).policyFunc.map PolicyFunc.isReduce = some req.isReduce := by
  have begins : Begins env E P req (beginRegion env E P req) := beginRegion_begins
  rw [h] at begins
  generalize hout : (P', start) = out at begins
  cases begins with
  | rejected | quick =>
    cases hout
    obtain hs | ⟨_, hs⟩ := hs <;> cases hs
  | @run g k pf hr quick nt eg ek fills pol =>
    have slot := Request.slot_of_resolve hr quick
    have at_ : level = req.level env ∧ master = masterEid env g := by
      have start := congrArg Prod.snd hout
      obtain e | e | ⟨-, e⟩ := startRun_start env P (req.level env) (masterEid env g) pf <;>
        rw [e] at start <;> obtain rfl | ⟨_, rfl⟩ := hs <;> cases start <;> exact ⟨rfl, rfl⟩
    obtain ⟨rfl, rfl⟩ := at_
    obtain ⟨m, n, same⟩ := startRun_slot env P (req.level env) (masterEid env g) pf
    have first : P' = (startRun env P (req.level env) (masterEid env g) pf).1 :=
      congrArg Prod.fst hout
    exact ⟨slot, nt, by rw [first, same]; exact pol⟩
  | task _ _ _ _ _ hstart =>
    cases hout
    obtain hs | ⟨_, hs⟩ := hs <;> rw [hs] at hstart <;> obtain e | e := hstart <;> cases e

lemma beginRegion_team {env E P P' level master eids} (h : beginRegion env E P req = (P', .team level master eids)) :
    ∃ g k, req.resolve env E = some (g, k) ∧ env.omp = false ∧ master = masterEid env g ∧
      ((master = env.geid → env.geid ∈ g.limit k.toNat) → ∀ e ∈ eids, (P' level e).masterEid = master) := by
  have begins : Begins env E P req (beginRegion env E P req) := beginRegion_begins
  rw [h] at begins
  generalize hout : (P', Start.team level master eids) = out at begins
  cases begins with
  | rejected | quick => cases hout
  | @run g k pf hr quick nt eg ek fills pol =>
    subst eg ek
    have start := congrArg Prod.snd hout
    obtain e | e | ⟨homp, e⟩ := startRun_start env P (req.level env) (masterEid env pf.egroup) pf
    · rw [e] at start
      cases start
    · rw [e] at start
      cases start
    · rw [e] at start
      cases start
      refine ⟨_, _, hr, homp, rfl, fun sel e he => ?_⟩
      have first : P' = (startRun env P (req.level env) (masterEid env pf.egroup) pf).1 :=
        congrArg Prod.fst hout
      have mem : e ∈ pf.egroup.limit pf.numThreads.toNat := by
        unfold teamEids at he
        simp only at he
        split at he
        · rename_i out
          exact absurd (List.mem_dedup.2 (sel out.1)) out.2
        · exact List.mem_dedup.1 he
      rw [first]
      simp [startRun, homp, startTeam, Slots.setMasters, mem, Pf.setMaster]
  | task _ _ _ _ _ hstart =>
    cases hout
    obtain e | e := hstart <;> cases e

end Kupl.Loop
