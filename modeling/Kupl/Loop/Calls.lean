import Kupl.Loop.TaskLoop

/-!
# Calls one after another

Sequences of calls of `kupl_parallel_for` and `kupl_parallel_for_reduce` of `mt/kupl_parallel_for.cpp`.
Every call reuses the slots earlier calls have filled, and each path of the code writes and clears its
own subset of `rd_func`, `post_func` and `shared_args`.

`calls` is the machine of such a sequence. A call is under way until it returns (`Active`); an executor
of its team that has left the region still tests `post_func` and may fold, also after the call has
returned (`Tail`). `calls_ok` says in which sequences every call runs the function passed to it and
nothing but a reduce call that does not fail folds, into its own buffers.
-/

namespace Kupl.Loop
open Kupl.Range Kupl.Group Option List

def Request.buffers : Request → Option Nat
  | .parallelFor _ _ _ => none
  | .reduce _ _ _ rdArgs => rdArgs.map ReduceArgs.buffers

/-- What the policy function of a slot calls; `none` where it uses a null pointer. -/
def policyCall (pf : Pf) : Option (Fn × Nat) :=
  match pf.policyFunc with
  | none => none
  | some policyFunc =>
    if policyFunc.isReduce then pf.rdFunc.map fun func => (.reduce func, pf.args)
    else pf.func.map fun func => (.plain func, pf.args)

structure CallRec where
  req : Request
  failed : Bool

/-- The rest of the call under way. -/
inductive Active where
  | task (level master : Nat) (todo : List Task)
  | omp (level master : Nat) (todo : Nat)
  | team (level master caller : Nat) (todo : List Nat)

/-- An executor that has left the region of a call and is about to test `post_func`, or has found it
set. -/
structure Tail where
  call : Nat
  level : Nat
  master : Nat
  eid : Nat
  tid : Int
  tested : Bool

/-- What happens to the outside: a function is run, or private data is folded into buffers. -/
inductive Event where
  | run (call : Nat) (fn : Fn) (args : Nat)
  | fold (call buffers : Nat)
  deriving DecidableEq, Repr

/-- The slots, the calls so far, the rest of the one under way, and the executors behind a region. -/
structure CallState where
  slots : Slots
  calls : List CallRec
  active : Option Active
  tails : List Tail
  log : List Event

/-- What may happen next. -/
inductive CallLabel where
  /-- A call is made. -/
  | begin (env : Env) (req : Request)
  /-- A part of the call under way is run: a chunk task, a round of the OpenMP loop or an executor of
  the team. -/
  | work (i geid : Nat)
  /-- The call under way returns. -/
  | ret
  /-- An executor behind a region tests `post_func`. -/
  | test (i : Nat)
  /-- It calls what it has found. -/
  | fold (i : Nat)

/-- The quick path of a call: the caller runs the function and folds its own data. -/
def quickEvents (id : Nat) (req : Request) : List Event :=
  (req.fn.map fun fn => Event.run id fn req.args).toList ++
    (req.buffers.map fun buffers => Event.fold id buffers).toList

def beginCall (E : Egroups) (s : CallState) (env : Env) (req : Request) : CallState :=
  let (P, start) := beginRegion env E s.slots req
  let id := s.calls.length
  match start with
  | .error => { s with slots := P, calls := s.calls ++ [⟨req, true⟩] }
  | .quick _ => { s with
      slots := P
      calls := s.calls ++ [⟨req, false⟩]
      log := s.log ++ quickEvents id req }
  | .task level master => { s with
      slots := P
      calls := s.calls ++ [⟨req, false⟩]
      active := some (.task level master (beginTasks id (P level master))) }
  | .omp level master => { s with
      slots := P
      calls := s.calls ++ [⟨req, false⟩]
      active := some (.omp level master (P level master).numThreads.toNat) }
  | .team level master eids => { s with
      slots := P
      calls := s.calls ++ [⟨req, false⟩]
      active := some (.team level master env.geid eids) }

def CallState.last (s : CallState) : Nat := s.calls.length - 1

/-- A part of the call under way (C++ `task_policy_loop_func`, the loop body of `kupl_omp_parallel`,
`kupl_loop_func` up to `FlagBarrier::leave`). -/
def workCall (s : CallState) (i geid : Nat) : Active → Option CallState
  | .task level master todo =>
    match todo[i]? with
    | none => none
    | some t =>
      (taskPolicyLoopFunc s.slots t.taskId t.masterEid geid).map fun c => { s with
        active := some (.task level master (todo.eraseIdx i))
        log := s.log ++ [.run s.last c.fn c.args] }
  | .omp _ _ 0 => none
  | .omp level master (todo + 1) =>
    (policyCall (s.slots level master)).map fun c => { s with
      active := some (.omp level master todo)
      log := s.log ++ [.run s.last c.1 c.2] }
  | .team level master caller todo =>
    match todo[i]? with
    | none => none
    | some eid =>
      let regionMaster := (s.slots level eid).masterEid
      let pf := s.slots level regionMaster
      (policyCall pf).map fun c => { s with
        active := some (.team level master caller (todo.eraseIdx i))
        tails := s.tails ++ [⟨s.last, level, regionMaster, eid, pf.egroup.tid eid, false⟩]
        log := s.log ++ [.run s.last c.1 c.2] }

/-- Clears `post_func`. -/
def Slots.clearPost (P : Slots) (level master : Nat) : Slots :=
  P.set level master { P level master with postFunc := none }

def retCall (s : CallState) (req : Request) : Active → Option CallState
  | .task level master [] =>
    let done := { s with slots := s.slots.clearPost level master, active := none }
    if req.isReduce then
      (s.slots level master).sharedArgs.map fun rd =>
        { done with log := s.log ++ [.fold s.last rd.buffers] }
    else some done
  | .omp level master 0 =>
    match (s.slots level master).postFunc with
    | none => some { s with active := none }
    | some .reducePost =>
      (s.slots level master).sharedArgs.map fun rd => { s with
        slots := s.slots.clearPost level master
        active := none
        log := s.log ++ [.fold s.last rd.buffers] }
  | .team level master caller [] =>
    if s.tails.any fun t => t.call = s.last ∧ t.eid = caller then none
    else some { s with
      slots := if req.isReduce then s.slots.clearPost level master else s.slots
      active := none }
  | _ => none

def callStep (E : Egroups) (s : CallState) : CallLabel → Option CallState
  | .begin env req => if s.active.isSome then none else some (beginCall E s env req)
  | .work i geid => s.active.bind (workCall s i geid)
  | .ret => s.active.bind fun a => (s.calls[s.last]?).bind fun r => retCall s r.req a
  | .test i =>
    match s.tails[i]? with
    | none => none
    | some t =>
      if t.tested then none
      else if (s.slots t.level t.master).postFunc = none then
        some { s with tails := s.tails.eraseIdx i }
      else some { s with tails := s.tails.set i { t with tested := true } }
  | .fold i =>
    match s.tails[i]? with
    | none => none
    | some t =>
      if t.tested = false then none
      else if t.tid = 0 then
        (s.slots t.level t.master).sharedArgs.map fun rd => { s with
          tails := s.tails.eraseIdx i
          log := s.log ++ [.fold t.call rd.buffers] }
      else some { s with tails := s.tails.eraseIdx i }

/-- The calls of one executor after another, over some groups. What the slots hold at the beginning is
arbitrary. -/
def calls (E : Egroups) : Machine CallState CallLabel where
  init s := s.calls = [] ∧ s.active = none ∧ s.tails = [] ∧ s.log = []
  step := callStep E

/-- A call that fills a slot finds nothing there that it would use: the caller is among the executors
selected where it runs the region as a member; a reduce call finds no executor of an earlier region
that may still fold from the slot; chunk tasks of a plain call read the slot of the call, in which no
reduce function is left; another plain call finds no function left to run behind the region. -/
def Clean (E : Egroups) (s : CallState) : CallLabel → Prop
  | .begin env req => ∀ r ∈ req.resolve env E, req.Quick env r.1 r.2 ∨ ((env.omp = true ∨ req.IsTask ∨
          (masterEid env r.1 = env.geid → env.geid ∈ r.1.limit r.2.toNat)) ∧
        (req.isReduce = true → ∀ t ∈ s.tails, t.tid = 0 → ¬(t.level = 0 ∧ t.master = masterEid env r.1)) ∧
        (req.isReduce = false → req.IsTask → env.activeLevels = 0 ∧
          (s.slots 0 (masterEid env r.1)).rdFunc = none) ∧
        (req.isReduce = false → ¬req.IsTask → (s.slots env.activeLevels (masterEid env r.1)).postFunc = none))
  | _ => True

instance (E : Egroups) (s : CallState) : ∀ a, Decidable (Clean E s a)
  | .begin env req => inferInstanceAs (Decidable (∀ r ∈ req.resolve env E, _ ∨ _))
  | .work _ _ | .ret | .test _ | .fold _ => isTrue trivial

/-- An event is one of its own call: it runs the function passed to the call, or it folds into the
buffers of the call, which did not fail. -/
def Event.Own (calls : List CallRec) : Event → Prop
  | .run call fn args => ∃ r, calls[call]? = some r ∧ r.req.fn = some fn ∧ r.req.args = args
  | .fold call buffers => ∃ r, calls[call]? = some r ∧ r.failed = false ∧ r.req.buffers = some buffers

instance (calls : List CallRec) : ∀ e : Event, Decidable (e.Own calls)
  | .run call _ _ => inferInstanceAs (Decidable (∃ r ∈ calls[call]?, _ ∧ _))
  | .fold call _ => inferInstanceAs (Decidable (∃ r ∈ calls[call]?, _ ∧ _))

def FoldsInto (pf : Pf) (req : Request) : Prop :=
  ∀ rd, pf.sharedArgs = some rd → req.buffers = some rd.buffers

/-- A slot runs the function of a call, and what runs behind the region folds for it. -/
structure RunsOwn (pf : Pf) (req : Request) : Prop where
  run : ∀ c, policyCall pf = some c → req.fn = some c.1 ∧ req.args = c.2
  post : pf.postFunc ≠ none → FoldsInto pf req

/-- The rest of a call works for the call. -/
def Active.Sound (P : Slots) (req : Request) : Active → Prop
  | .task level master todo => level = 0 ∧ (∀ t ∈ todo, t.masterEid = master) ∧
      (∀ taskId geid c, taskPolicyLoopFunc P taskId master geid = some c → req.fn = some c.fn ∧
        req.args = c.args) ∧
      (req.isReduce = true → FoldsInto (P level master) req)
  | .omp level master _ => RunsOwn (P level master) req
  | .team level master _ todo => RunsOwn (P level master) req ∧ ∀ e ∈ todo, (P level e).masterEid = master

/-- What an executor behind a region may fold, it folds for a call that has not failed. -/
def Tail.Sound (P : Slots) (calls : List CallRec) (t : Tail) : Prop :=
  t.tid = 0 → t.tested = true ∨ (P t.level t.master).postFunc ≠ none →
    ∃ r, calls[t.call]? = some r ∧ r.failed = false ∧ FoldsInto (P t.level t.master) r.req

/-- The invariant of the clean runs. -/
structure CallState.Inv (s : CallState) : Prop where
  active : ∀ a, s.active = some a → ∃ r, s.calls[s.last]? = some r ∧ r.failed = false ∧ a.Sound s.slots r.req
  tail : ∀ t ∈ s.tails, t.Sound s.slots s.calls
  own : ∀ e ∈ s.log, e.Own s.calls

lemma Request.fn_of_check {env E d} {req : Request} (h : req.check env E = some d) : ∃ fn, req.fn = some fn := by
  have some : ∀ desc func d, parallelForCheck env E desc func = some d → ∃ f, func = some f := by
    intro desc func d h
    cases func with
    | none => simp [parallelForCheck] at h
    | some f => exact ⟨f, rfl⟩
  cases req with
  | parallelFor desc func args =>
    obtain ⟨f, rfl⟩ := some desc func d h
    exact ⟨.plain f, rfl⟩
  | reduce desc func args rdArgs =>
    obtain ⟨p, hp, rfl⟩ := map_eq_some_iff.1 h
    obtain ⟨f, rfl⟩ := some desc func _ (reduceCheck_spec hp).1
    exact ⟨.reduce f, rfl⟩

section Fill
variable {old pf : Pf} {req : Request}

lemma Request.Fills.foldsInto (h : req.Fills old pf) (hr : req.isReduce = true) : FoldsInto pf req := by
  cases req with
  | parallelFor => cases hr
  | reduce desc func args rdArgs =>
    intro rd hrd
    rw [h.2.2.1] at hrd
    rw [hrd]
    rfl

lemma Request.Fills.runsOwn (h : req.Fills old pf) (pol : pf.policyFunc.map PolicyFunc.isReduce = some req.isReduce)
    (post : req.isReduce = false → old.postFunc = none) : RunsOwn pf req := by
  obtain ⟨policyFunc, hp, isReduce⟩ := map_eq_some_iff.1 pol
  cases req with
  | parallelFor desc func args =>
    obtain ⟨hf, ha, -, -, hpost⟩ := h
    refine ⟨fun c hc => ?_, fun ne => absurd (hpost.trans (post rfl)) ne⟩
    simp only [policyCall, hp, isReduce, Request.isReduce, hf] at hc
    obtain ⟨f, rfl, rfl⟩ := map_eq_some_iff.1 hc
    exact ⟨rfl, ha.symm⟩
  | reduce desc func args rdArgs =>
    refine ⟨fun c hc => ?_, fun _ => h.foldsInto rfl⟩
    obtain ⟨hf, ha, -⟩ := h
    simp only [policyCall, hp, isReduce, Request.isReduce, hf] at hc
    obtain ⟨f, rfl, rfl⟩ := map_eq_some_iff.1 hc
    exact ⟨rfl, ha.symm⟩

lemma Request.Fills.taskOwn {P : Slots} {taskId master geid c fn} (h : req.Fills old (P 0 master))
    (hfn : req.fn = some fn) (clean : req.isReduce = false → old.rdFunc = none)
    (hc : taskPolicyLoopFunc P taskId master geid = some c) : req.fn = some c.fn ∧ req.args = c.args := by
  simp only [taskPolicyLoopFunc] at hc
  split at hc
  · cases hc
  cases req with
  | parallelFor desc func args =>
    obtain ⟨hf, ha, hrd, -⟩ := h
    rw [hrd, clean rfl, hf] at hc
    cases func with
    | none => cases hc
    | some f =>
      cases hc
      exact ⟨rfl, ha.symm⟩
  | reduce desc func args rdArgs =>
    obtain ⟨hf, ha, -⟩ := h
    obtain ⟨f, rfl, -⟩ := map_eq_some_iff.1 hfn
    rw [hf] at hc
    cases hc
    exact ⟨rfl, ha.symm⟩

end Fill

section Step
variable {E : Egroups} {s s' : CallState} {env : Env} {req : Request}

lemma Event.Own.append {calls new : List CallRec} {e : Event} (h : e.Own calls) : e.Own (calls ++ new) := by
  cases e with
  | run call fn args | fold call buffers =>
    obtain ⟨r, hr, own⟩ := h
    exact ⟨r, getElem?_append_left_of_some hr, own⟩

lemma Tail.Sound.frame {P P' : Slots} {calls new : List CallRec} {t : Tail} (h : t.Sound P calls)
    (shared : (P' t.level t.master).sharedArgs = (P t.level t.master).sharedArgs)
    (post : (P' t.level t.master).postFunc ≠ none → (P t.level t.master).postFunc ≠ none) :
    t.Sound P' (calls ++ new) := by
  intro zero folds
  obtain ⟨r, hr, live, into⟩ := h zero (folds.imp id post)
  exact ⟨r, getElem?_append_left_of_some hr, live, fun rd hrd => into rd (shared.symm.trans hrd)⟩

lemma Tail.Sound.begin {new : List CallRec} {t : Tail} (h : t.Sound s.slots s.calls) (ht : t ∈ s.tails)
    (hg : Clean E s (.begin env req)) : t.Sound (beginRegion env E s.slots req).1 (s.calls ++ new) := by
  by_cases hs : req.slot env E = some (t.level, t.master)
  · have fills := beginRegion_fills (P := s.slots) hs
    obtain ⟨⟨g, k⟩, hr, slot⟩ := bind_eq_some_iff.1 hs
    split at slot
    · cases slot
    rename_i quick
    obtain ⟨hl, hm⟩ := Prod.ext_iff.1 (Option.some.inj slot)
    cases req with
    | parallelFor desc func args =>
      obtain ⟨-, -, -, shared, post⟩ := fills
      exact h.frame shared fun ne => post ▸ ne
    | reduce desc func args rdArgs =>
      -- no executor behind a region may fold from the slot of a reduce call
      intro zero
      obtain q | ⟨-, idle, -⟩ := hg _ hr
      · exact absurd q quick
      · exact absurd ⟨hl.symm, hm.symm⟩ (idle rfl t ht zero)
  · obtain ⟨m, n, same⟩ := beginRegion_frame (P := s.slots) hs
    refine h.frame ?_ ?_ <;> rw [same]
    exact id

lemma beginRegion_sound (hg : Clean E s (.begin env req)) {P start}
    (hb : beginRegion env E s.slots req = (P, start)) (id : Nat) :
    (∀ level master, start = .task level master →
      (Active.task level master (beginTasks id (P level master))).Sound P req) ∧
    (∀ level master, start = .omp level master →
      (Active.omp level master (P level master).numThreads.toNat).Sound P req) ∧
    (∀ level master eids, start = .team level master eids →
      (Active.team level master env.geid eids).Sound P req) := by
  -- the function of a region that is no chunk tasks
  have runs : ∀ level master, (start = .omp level master ∨ ∃ eids, start = .team level master eids) →
      RunsOwn (P level master) req := by
    intro level master hs
    obtain ⟨slot, nt, pol⟩ := beginRegion_run hb hs
    have fills := beginRegion_fills (P := s.slots) slot
    rw [hb] at fills
    refine fills.runsOwn pol fun plain => ?_
    obtain ⟨⟨g, k⟩, hr, hslot⟩ := bind_eq_some_iff.1 slot
    split at hslot
    · cases hslot
    rename_i quick
    cases hslot
    obtain q | ⟨-, -, -, post⟩ := hg _ hr
    · exact absurd q quick
    · cases req with
      | parallelFor => exact post rfl nt
      | reduce => cases plain
  refine ⟨?_, ?_, ?_⟩
  · rintro level master rfl
    obtain ⟨d, g, k, range, hd, -, hr, slot, isTask, fills, holds⟩ := beginRegion_task hb
    obtain ⟨fn, hfn⟩ := Request.fn_of_check hd
    obtain ⟨⟨g', k'⟩, hr', hslot⟩ := bind_eq_some_iff.1 slot
    split at hslot
    · cases hslot
    rename_i quick
    cases hslot
    obtain q | ⟨-, -, clean, -⟩ := hg _ hr'
    · exact absurd q quick
    have zero : req.level env = 0 := by
      cases req with
      | parallelFor => exact (clean rfl isTask).1
      | reduce => rfl
    rw [zero] at fills holds ⊢
    refine ⟨rfl, fun t ht => (mem_regionTasks ht).2.trans holds.masterEid, ?_, fills.foldsInto⟩
    exact fun taskId geid c hc => fills.taskOwn hfn (fun plain => (clean plain isTask).2) hc
  · rintro level master rfl
    exact runs level master (.inl rfl)
  · rintro level master eids rfl
    refine ⟨runs level master (.inr ⟨eids, rfl⟩), ?_⟩
    obtain ⟨g, k, hr, homp, rfl, know⟩ := beginRegion_team hb
    obtain ⟨slot, nt, -⟩ := beginRegion_run hb (.inr ⟨eids, rfl⟩)
    refine know ?_
    obtain q | ⟨sel, -⟩ := hg _ hr
    · simp [Request.slot, hr, q] at slot
    · obtain h | h | h := sel
      · rw [homp] at h
        cases h
      · exact absurd h nt
      · exact h

lemma quickEvents_own {calls : List CallRec} {e : Event}
    (he : e ∈ quickEvents calls.length req) : e.Own (calls ++ [⟨req, false⟩]) := by
  obtain he | he := mem_append.1 he
  · obtain ⟨fn, hfn, rfl⟩ := map_eq_some_iff.1 (mem_toList.1 he)
    exact ⟨_, List.getElem?_concat_length, hfn, rfl⟩
  · obtain ⟨buffers, hb, rfl⟩ := map_eq_some_iff.1 (mem_toList.1 he)
    exact ⟨_, List.getElem?_concat_length, rfl, hb⟩

lemma CallState.Inv.begin (I : s.Inv) (hg : Clean E s (.begin env req)) (idle : s.active = none) :
    (beginCall E s env req).Inv := by
  have tails : ∀ new, ∀ t ∈ s.tails, t.Sound (beginRegion env E s.slots req).1 (s.calls ++ new) :=
    fun new t ht => (I.tail t ht).begin ht hg
  unfold beginCall
  generalize hb : beginRegion env E s.slots req = out at tails ⊢
  obtain ⟨P, start⟩ := out
  obtain ⟨task, omp, team⟩ := beginRegion_sound hg hb s.calls.length
  have own : ∀ new, ∀ e ∈ s.log, e.Own (s.calls ++ new) := fun new e he => (I.own e he).append
  -- the call under way is the one just made
  have begun : ∀ a : Active, a.Sound P req → (⟨P, s.calls ++ [⟨req, false⟩], some a, s.tails, s.log⟩ :
      CallState).Inv := by
    intro a sound
    refine ⟨fun b hb => ⟨⟨req, false⟩, ?_, rfl, ?_⟩, tails _, own _⟩
    · simp [CallState.last]
    · cases hb
      exact sound
  cases start with
  | error => exact ⟨fun a ha => absurd (idle.symm.trans ha) nofun, tails _, own _⟩
  | quick master =>
    refine ⟨fun a ha => absurd (idle.symm.trans ha) nofun, tails _, fun e he => ?_⟩
    obtain he | he := mem_append.1 he
    · exact own _ e he
    · exact quickEvents_own he
  | task level master => exact begun _ (task level master rfl)
  | omp level master => exact begun _ (omp level master rfl)
  | team level master eids => exact begun _ (team level master eids rfl)

lemma CallState.Inv.work (I : s.Inv) {i geid : Nat} {a : Active} (ha : s.active = some a)
    (h : workCall s i geid a = some s') : s'.Inv := by
  obtain ⟨r, hr, live, sound⟩ := I.active a ha
  -- one more run of the function of the call
  have log : ∀ {fn args}, r.req.fn = some fn → r.req.args = args →
      ∀ e ∈ s.log ++ [Event.run s.last fn args], e.Own s.calls := by
    intro fn args hfn hargs e he
    obtain he | he := mem_append.1 he
    · exact I.own e he
    · rw [mem_singleton.1 he]
      exact ⟨r, hr, hfn, hargs⟩
  cases a with
  | task level master todo =>
    simp only [workCall] at h
    split at h
    · cases h
    rename_i t ht
    obtain ⟨c, hc, rfl⟩ := map_eq_some_iff.1 h
    obtain ⟨zero, same, own, folds⟩ := sound
    rw [same t (mem_of_getElem? ht)] at hc
    obtain ⟨hfn, hargs⟩ := own _ _ _ hc
    refine ⟨fun b hb => ⟨r, hr, live, ?_⟩, I.tail, log hfn hargs⟩
    cases hb
    exact ⟨zero, fun t ht => same t (mem_of_mem_eraseIdx ht), own, folds⟩
  | omp level master todo =>
    cases todo with
    | zero => cases h
    | succ todo =>
      obtain ⟨c, hc, rfl⟩ := map_eq_some_iff.1 h
      obtain ⟨hfn, hargs⟩ := RunsOwn.run sound c hc
      refine ⟨fun b hb => ⟨r, hr, live, ?_⟩, I.tail, log hfn hargs⟩
      cases hb
      exact sound
  | team level master caller todo =>
    simp only [workCall] at h
    split at h
    · cases h
    rename_i eid he
    obtain ⟨own, know⟩ := sound
    rw [know eid (mem_of_getElem? he)] at h
    obtain ⟨c, hc, rfl⟩ := map_eq_some_iff.1 h
    obtain ⟨hfn, hargs⟩ := own.run c hc
    refine ⟨fun b hb => ⟨r, hr, live, ?_⟩, fun t ht => ?_, log hfn hargs⟩
    · cases hb
      exact ⟨own, fun e he => know e (mem_of_mem_eraseIdx he)⟩
    · obtain ht | ht := mem_append.1 ht
      · exact I.tail t ht
      · rw [mem_singleton.1 ht]
        rintro - (h | post)
        · cases h
        · exact ⟨r, hr, live, own.post post⟩

lemma Tail.Sound.clearPost {P : Slots} {calls : List CallRec} {t : Tail} (h : t.Sound P calls)
    {level master : Nat} : t.Sound (P.clearPost level master) calls := by
  have frame := @Tail.Sound.frame P (P.clearPost level master) calls [] t h
  rw [append_nil] at frame
  by_cases at_ : t.level = level ∧ t.master = master
  · obtain ⟨rfl, rfl⟩ := at_
    apply frame <;> simp only [Slots.clearPost, Slots.set_self]
    exact fun ne => absurd rfl ne
  · apply frame <;> simp only [Slots.clearPost, Slots.set_ne at_]
    exact id

lemma CallState.Inv.ret (I : s.Inv) {a : Active} (ha : s.active = some a) {r : CallRec}
    (hr : s.calls[s.last]? = some r) (h : retCall s r.req a = some s') : s'.Inv := by
  obtain ⟨r', hr', live, sound⟩ := I.active a ha
  obtain rfl := Option.some.inj (hr.symm.trans hr')
  -- a fold into the buffers of the call
  have log : ∀ {pf rd}, FoldsInto pf r.req → pf.sharedArgs = some rd →
      ∀ e ∈ s.log ++ [Event.fold s.last rd.buffers], e.Own s.calls := by
    intro pf rd into hrd e he
    obtain he | he := mem_append.1 he
    · exact I.own e he
    · rw [mem_singleton.1 he]
      exact ⟨r, hr, live, into rd hrd⟩
  have clear : ∀ level master, ∀ t ∈ s.tails, t.Sound (s.slots.clearPost level master) s.calls :=
    fun level master t ht => (I.tail t ht).clearPost
  cases a with
  | task level master todo =>
    cases todo with
    | cons t todo => cases h
    | nil =>
      simp only [retCall] at h
      split at h
      · rename_i isReduce
        obtain ⟨rd, hrd, rfl⟩ := map_eq_some_iff.1 h
        exact ⟨nofun, clear _ _, log (sound.2.2.2 isReduce) hrd⟩
      · cases h
        exact ⟨nofun, clear _ _, I.own⟩
  | omp level master todo =>
    cases todo with
    | succ todo => cases h
    | zero =>
      simp only [retCall] at h
      split at h
      · cases h
        exact ⟨nofun, I.tail, I.own⟩
      · rename_i post
        obtain ⟨rd, hrd, rfl⟩ := map_eq_some_iff.1 h
        exact ⟨nofun, clear _ _, log (RunsOwn.post sound (by rw [post]; nofun)) hrd⟩
  | team level master caller todo =>
    cases todo with
    | cons e todo => cases h
    | nil =>
      simp only [retCall] at h
      split at h
      · cases h
      · cases h
        refine ⟨nofun, ?_, I.own⟩
        split
        · exact clear _ _
        · exact I.tail

lemma CallState.Inv.step (I : s.Inv) {a : CallLabel} (hg : Clean E s a) (h : callStep E s a = some s') : s'.Inv := by
  cases a with
  | begin env req =>
    simp only [callStep] at h
    split at h
    · cases h
    · rename_i idle
      cases h
      exact I.begin hg (by simpa using idle)
  | work i geid =>
    obtain ⟨a, ha, h⟩ := bind_eq_some_iff.1 h
    exact I.work ha h
  | ret =>
    obtain ⟨a, ha, h⟩ := bind_eq_some_iff.1 h
    obtain ⟨r, hr, h⟩ := bind_eq_some_iff.1 h
    exact I.ret ha hr h
  | test i =>
    simp only [callStep] at h
    split at h
    · cases h
    rename_i t ht
    split at h
    · cases h
    split at h
    · cases h
      exact ⟨I.active, fun t ht => I.tail t (mem_of_mem_eraseIdx ht), I.own⟩
    · rename_i post
      cases h
      refine ⟨I.active, fun u hu => ?_, I.own⟩
      obtain hu | rfl := mem_or_eq_of_mem_set hu
      · exact I.tail u hu
      · exact fun zero _ => I.tail t (mem_of_getElem? ht) zero (.inr post)
  | fold i =>
    simp only [callStep] at h
    split at h
    · cases h
    rename_i t ht
    split at h
    · cases h
    rename_i tested
    have rest : ∀ t ∈ s.tails.eraseIdx i, t.Sound s.slots s.calls :=
      fun t ht => I.tail t (mem_of_mem_eraseIdx ht)
    split at h
    · rename_i zero
      obtain ⟨rd, hrd, rfl⟩ := map_eq_some_iff.1 h
      refine ⟨I.active, rest, fun e he => ?_⟩
      obtain he | he := mem_append.1 he
      · exact I.own e he
      · rw [mem_singleton.1 he]
        obtain ⟨r, hr, live, into⟩ := I.tail t (mem_of_getElem? ht) zero
          (.inl (by simpa using tested))
        exact ⟨r, hr, live, into rd hrd⟩
    · cases h
      exact ⟨I.active, rest, I.own⟩

/-- In the clean runs every call runs the function passed to it with its arguments, and only a reduce
call that has not failed folds, into its own buffers. -/
theorem calls_ok (h : (calls E).Reach (Clean E) s) : ∀ e ∈ s.log, e.Own s.calls := by
  refine (h.inv ?_ fun s a s' I hg hs => CallState.Inv.step I hg hs : s.Inv).own
  rintro s ⟨-, idle, ht, hl⟩
  refine ⟨fun a ha => absurd (idle.symm.trans ha) nofun, ?_, ?_⟩ <;> simp [ht, hl]

end Step

def callInit : CallState := ⟨fun _ _ => .zero, [], none, [], []⟩

/-- A sum into the buffer `7`. -/
def sumArgs : ReduceArgs := ⟨1, some fun _ => ⟨0, 0⟩, 7⟩

/-- A reduce loop and a plain loop of two threads after it, both with chunks handed out statically: the
reduce loop folds, the plain one does not. -/
theorem calls_ok_reduce : ∃ s : CallState,
    s.log.map (fun e => e matches .fold _ _) = [false, false, true, false, false] ∧
      ∀ e ∈ s.log, e.Own s.calls := by
  obtain ⟨s, h, log⟩ := Machine.exists_reach (M := calls (fourGroup [0, 1])) (g := Clean (fourGroup [0, 1]))
    (s := callInit) (P := fun s => s.log.map (fun e => e matches .fold _ _) = [false, false, true, false, false])
    [.begin fourEnv (.reduce { lineDesc 4 with policy := .static } (some 1) 0 (some sumArgs)), .work 0 0, .work 0 0,
      .test 0, .fold 0, .ret, .test 0,
      .begin fourEnv (.parallelFor { lineDesc 4 with policy := .static } (some 2) 0), .work 0 0, .work 0 0]
    ⟨rfl, rfl, rfl, rfl⟩ (by decide +kernel)
  exact ⟨s, log, calls_ok h⟩

/-- A plain loop of chunk tasks after a reduce loop of chunk tasks runs the reduce function. A plain
loop in OpenMP after a reduce loop that was rejected there folds into the buffers of the latter. -/
theorem calls_stale : (∃ s, (calls (fourGroup [0, 1])).run (fun _ _ => True) callInit
      [.begin fourEnv (.reduce (lineDesc 2) (some 1) 0 (some sumArgs)), .work 0 0, .work 0 0, .ret,
        .begin fourEnv (.parallelFor (lineDesc 2) (some 2) 0), .work 0 0] = some s ∧
      .run 1 (.reduce 1) 0 ∈ s.log ∧ ¬(Event.run 1 (.reduce 1) 0).Own s.calls) ∧
    ∃ s, (calls (fourGroup [0, 1])).run (fun _ _ => True) callInit
      [.begin { fourEnv with omp := true } (.reduce { lineDesc 4 with policy := .dynamic } (some 1) 0 (some sumArgs)),
        .begin { fourEnv with omp := true }
          (.parallelFor { lineDesc 4 with policy := .static } (some 2) 0),
        .work 0 0, .work 0 0, .ret] = some s ∧
      .fold 1 7 ∈ s.log ∧ ¬(Event.fold 1 7).Own s.calls := by
  have reduce : ((calls (fourGroup [0, 1])).run (fun _ _ => True) callInit
      [.begin fourEnv (.reduce (lineDesc 2) (some 1) 0 (some sumArgs)), .work 0 0, .work 0 0, .ret,
        .begin fourEnv (.parallelFor (lineDesc 2) (some 2) 0), .work 0 0]).any (fun s => decide
      (.run 1 (.reduce 1) 0 ∈ s.log ∧ ¬(Event.run 1 (.reduce 1) 0).Own s.calls)) = true := by
    decide +kernel
  have fold : ((calls (fourGroup [0, 1])).run (fun _ _ => True) callInit [.begin { fourEnv with omp := true }
          (.reduce { lineDesc 4 with policy := .dynamic } (some 1) 0 (some sumArgs)),
        .begin { fourEnv with omp := true }
          (.parallelFor { lineDesc 4 with policy := .static } (some 2) 0),
        .work 0 0, .work 0 0, .ret]).any (fun s => decide
      (.fold 1 7 ∈ s.log ∧ ¬(Event.fold 1 7).Own s.calls)) = true := by decide +kernel
  obtain ⟨s, hs, stale⟩ := (any_eq_true _ _).1 reduce
  obtain ⟨s', hs', stale'⟩ := (any_eq_true _ _).1 fold
  exact ⟨⟨s, hs, of_decide_eq_true stale⟩, s', hs', of_decide_eq_true stale'⟩

end Kupl.Loop
