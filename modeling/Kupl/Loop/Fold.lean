import Kupl.Loop.Calls

/-!
# Folding behind a region

One call of `kupl_parallel_for_reduce` of `mt/kupl_parallel_for.cpp` on a team, or by the caller alone:
`kupl_loop_func` and `kupl_reduce_post_func` with the `FlagBarrier` of `mt/barrier/kupl_barrier.cpp`.

The executors of the region and the caller take their steps in any order. An executor that has run its
part raises `FLAG_LEAVE` and then tests `post_func`; the one with the thread number `0` folds the
private data of all. Only the master waits for the others before it raises its flag, and the caller
clears `post_func` once it has seen all flags. `folding_ok` says for which callers the order of the
steps does not matter: the caller is the first executor of the list the group was made of, and one of
the executors selected.

C++ → Lean naming: `FLAG_LEAVE`, `FLAG_READY`, `FLAG_ARRIVED` → `Flag`; `kupl_loop_func` → `loopStep`;
`FlagBarrier::notify`, `FlagBarrier::wait` and what `kupl_parallel_for_reduce` does around them →
`callerStep`.
-/

namespace Kupl.Loop
open Kupl.Range Kupl.Group List
open Function (update update_apply update_eq_self update_of_ne)

/-- A flag of the barrier (C++ `FlagBarrier::flags_`). -/
inductive Flag where
  | leave
  | ready
  | arrived
  deriving DecidableEq, Repr

/-- Where an executor stands in `kupl_loop_func`. -/
inductive LoopPc where
  | idle
  /-- Its flag was `FLAG_READY`. -/
  | arrived
  /-- The policy function has returned. -/
  | ran
  /-- The master waits for the flags of these executors. -/
  | wait (eids : List Nat)
  /-- It has raised `FLAG_LEAVE`. -/
  | left
  /-- It has found `post_func` and has yet to fold the private data of these executors. -/
  | fold (eids : List Nat)
  | done
  deriving DecidableEq

inductive CallerPc where
  /-- On the quick path, before the function is run. -/
  | alone
  /-- On the quick path, before its data is folded. -/
  | aloneRan
  /-- It has yet to raise the flags of these executors. -/
  | notify (eids : List Nat)
  /-- It runs the region as a member. -/
  | member
  /-- It waits for the flags of these executors. -/
  | wait (eids : List Nat)
  | returned
  deriving DecidableEq

/-- A part of the region was run on the slot of a master, or the private data of an executor was folded
into the buffers that slot names. -/
inductive FoldEvent where
  | body (master eid : Nat)
  | fold (master eid : Nat)
  deriving DecidableEq

/-- A region: the slot it has, its caller, the executors that run it, and how far everybody is. -/
structure FoldState where
  level : Nat
  master : Nat
  geid : Nat
  team : List Nat
  slots : Slots
  flags : Nat → Flag
  caller : CallerPc
  pc : Nat → LoopPc
  log : List FoldEvent

def FoldState.setFlag (s : FoldState) (eid : Nat) (flag : Flag) : FoldState :=
  { s with flags := update s.flags eid flag }

/-- Moves an executor on. -/
def FoldState.setPc (s : FoldState) (eid : Nat) (pc : LoopPc) : FoldState :=
  { s with pc := update s.pc eid pc }

/-- Records an event. -/
def FoldState.emit (s : FoldState) (e : FoldEvent) : FoldState := { s with log := s.log ++ [e] }

/-- One step of an executor (C++ `sched_get_tb` as far as it lets a worker into the region,
`kupl_loop_func` with `FlagBarrier::leave`, `kupl_reduce_post_func`). -/
def loopStep (s : FoldState) (eid : Nat) : Option FoldState :=
  let master := (s.slots s.level eid).masterEid
  let pf := s.slots s.level master
  match s.pc eid with
  | .idle =>
    if eid ≠ s.geid ∧ s.flags eid = .ready then some ((s.setFlag eid .arrived).setPc eid .arrived)
    else none
  | .arrived => (policyCall pf).map fun _ => (s.emit (.body master eid)).setPc eid .ran
  | .ran =>
    if master = eid then some (s.setPc eid (.wait pf.selected))
    else some ((s.setFlag eid .leave).setPc eid .left)
  | .wait [] => some ((s.setFlag eid .leave).setPc eid .left)
  | .wait (e :: eids) =>
    if e = eid ∨ s.flags e = .leave then some (s.setPc eid (.wait eids)) else none
  | .left =>
    if pf.postFunc.isSome ∧ pf.egroup.tid eid = 0 then some (s.setPc eid (.fold pf.selected))
    else some (s.setPc eid .done)
  | .fold [] => some (s.setPc eid .done)
  | .fold (e :: eids) => some ((s.emit (.fold master e)).setPc eid (.fold eids))
  | .done => none

/-- One step of the caller (C++ `kupl_parallel_for_reduce` from its quick path or from
`FlagBarrier::notify` on, with `FlagBarrier::arrive` and `FlagBarrier::wait`). -/
def callerStep (s : FoldState) : Option FoldState :=
  match s.caller with
  | .alone => some { s.emit (.body s.master s.geid) with caller := .aloneRan }
  | .aloneRan => some { s.emit (.fold s.master s.geid) with caller := .returned }
  | .notify (e :: eids) => some { s.setFlag e .ready with caller := .notify eids }
  | .notify [] =>
    if s.master = s.geid then
      -- the caller goes on whether its flag was raised or not
      let arrived := if s.flags s.geid = .ready then s.setFlag s.geid .arrived else s
      some { arrived.setPc s.geid .arrived with caller := .member }
    else some { s with caller := .wait (s.slots s.level s.master).selected }
  | .member =>
    if s.pc s.geid = .done then
      some { s with slots := s.slots.clearPost s.level s.master, caller := .returned }
    else none
  | .wait (e :: eids) => if s.flags e = .leave then some { s with caller := .wait eids } else none
  | .wait [] => some { s with slots := s.slots.clearPost s.level s.master, caller := .returned }
  | .returned => none

/-- Whose step it is. -/
inductive FoldLabel where
  | caller
  | executor (eid : Nat)

def foldStep (s : FoldState) : FoldLabel → Option FoldState
  | .caller => callerStep s
  | .executor eid => loopStep s eid

/-- The beginning of a region by the caller alone or on a team. -/
def beginFold (env : Env) : Slots × Start → Option FoldState
  | (P, .quick master) => some ⟨env.activeLevels, master, env.geid, [env.geid], P, fun _ => .leave,
      .alone, fun _ => .idle, []⟩
  | (P, .team level master eids) => some ⟨level, master, env.geid, eids, P, fun _ => .leave,
      .notify (P level master).selected, fun _ => .idle, []⟩
  | _ => none

/-- The region of a call over some groups, on slots as earlier calls left them. -/
def folding (env : Env) (E : Egroups) (P : Slots) (req : Request) : Machine FoldState FoldLabel where
  init s := beginFold env (beginRegion env E P req) = some s
  step := foldStep

def FoldsAfter (log : List FoldEvent) : Prop :=
  ∀ i m e, log[i]? = some (.fold m e) → .body m e ∈ log.take i

/-- Private data is folded behind the run it comes from, and once the call has returned, that of each
executor that runs the region was folded once, and nothing else. -/
structure FoldState.Ok (s : FoldState) : Prop where
  after : FoldsAfter s.log
  once : s.caller = .returned → ∀ e, s.log.count (.fold s.master e) = if e ∈ s.team then 1 else 0

/-- The caller is a member of its region, the only one with the thread number `0`. -/
structure FoldState.First (s : FoldState) : Prop where
  own : s.geid = s.master
  mem : s.master ∈ s.team
  nodup : s.team.Nodup
  selected : (s.slots s.level s.master).selected = s.team
  know : ∀ e ∈ s.team, (s.slots s.level e).masterEid = s.master
  tid : ∀ e ∈ s.team, (s.slots s.level s.master).egroup.tid e = 0 ↔ e = s.master

/-- The executors whose flags the caller has yet to raise. -/
def CallerPc.unnotified : CallerPc → List Nat
  | .notify eids => eids
  | _ => []

/-- How far the caller is in its region while it is at a point of its call. -/
def CallerPc.Fits (pc : LoopPc) : CallerPc → Prop
  | .notify _ => pc = .idle
  | .member => True
  | .returned => pc = .done
  | .alone | .aloneRan | .wait _ => False

/-- An executor that is not the master has run its part before it leaves, and does not fold. -/
def LoopPc.Slave (log : List FoldEvent) (master e : Nat) : LoopPc → Prop
  | .idle | .arrived => True
  | .ran | .left | .done => .body master e ∈ log
  | .wait _ | .fold _ => False

/-- What the master has waited for and folded. -/
def LoopPc.Lead (team : List Nat) (log : List FoldEvent) (master : Nat) : LoopPc → Prop
  | .idle | .arrived => ∀ e, log.count (.fold master e) = 0
  | .ran => .body master master ∈ log ∧ ∀ e, log.count (.fold master e) = 0
  | .wait eids => .body master master ∈ log ∧ (∀ e ∈ team, e ∉ eids → .body master e ∈ log) ∧
      ∀ e, log.count (.fold master e) = 0
  | .left => (∀ e ∈ team, .body master e ∈ log) ∧ ∀ e, log.count (.fold master e) = 0
  | .fold eids => (∀ e ∈ team, .body master e ∈ log) ∧ eids.Nodup ∧ eids ⊆ team ∧
      ∀ e, log.count (.fold master e) = if e ∈ team ∧ e ∉ eids then 1 else 0
  | .done => (∀ e ∈ team, .body master e ∈ log) ∧
      ∀ e, log.count (.fold master e) = if e ∈ team then 1 else 0

/-- The invariant of the regions whose caller is the first member. -/
structure FoldState.Inv (s : FoldState) : Prop extends s.First where
  post : s.caller ≠ .returned → (s.slots s.level s.master).postFunc.isSome = true
  phase : s.caller.Fits (s.pc s.master)
  slave : ∀ e, e ≠ s.master → (s.pc e).Slave s.log s.master e
  entered : ∀ e, s.pc e ≠ .idle → e ∈ s.team
  ready : ∀ e, s.flags e ≠ .leave → e ∈ s.team
  notify : ∀ e ∈ s.caller.unnotified, e ∈ s.team
  left : ∀ e ∈ s.team, e ∉ s.caller.unnotified → s.flags e = .leave → .body s.master e ∈ s.log
  lead : (s.pc s.master).Lead s.team s.log s.master
  after : FoldsAfter s.log

section Log
variable {log : List FoldEvent} {master e : Nat}

lemma FoldsAfter.nil : FoldsAfter [] := fun _ _ _ h => by cases h

lemma FoldsAfter.append {ev : FoldEvent} (h : FoldsAfter log)
    (hev : ∀ m e, ev = .fold m e → .body m e ∈ log) : FoldsAfter (log ++ [ev]) := by
  intro i m e hi
  obtain ⟨lt, -⟩ := List.getElem?_eq_some_iff.1 hi
  rw [length_append, length_singleton] at lt
  by_cases last : i = log.length
  · subst last
    rw [List.getElem?_concat_length] at hi
    rw [take_left']
    · exact hev m e (Option.some.inj hi)
    · rfl
  · rw [List.getElem?_append_left (by omega)] at hi
    rw [take_append_of_le_length (by omega)]
    exact h i m e hi

lemma LoopPc.Slave.append {pc : LoopPc} {new : List FoldEvent} (h : pc.Slave log master e) :
    pc.Slave (log ++ new) master e := by
  cases pc with
  | idle | arrived => trivial
  | ran | left | done => exact mem_append_left _ h
  | wait | fold => exact h

lemma LoopPc.Lead.append_body {pc : LoopPc} {team : List Nat} {m : Nat}
    (h : pc.Lead team log master) : pc.Lead team (log ++ [.body m e]) master := by
  have count : ∀ e', (log ++ [FoldEvent.body m e]).count (.fold master e') = log.count (.fold master e') := by
    intro e'
    rw [count_append, count_singleton, if_neg (by simp), Nat.add_zero]
  have mem : ∀ {ev}, ev ∈ log → ev ∈ log ++ [FoldEvent.body m e] := mem_append_left _
  cases pc with
  | idle | arrived => exact fun e' => (count e').trans (h e')
  | ran => exact ⟨mem h.1, fun e' => (count e').trans (h.2 e')⟩
  | wait eids => exact ⟨mem h.1, fun x hx hn => mem (h.2.1 x hx hn), fun e' => (count e').trans (h.2.2 e')⟩
  | left | done => exact ⟨fun x hx => mem (h.1 x hx), fun e' => (count e').trans (h.2 e')⟩
  | fold eids =>
    exact ⟨fun x hx => mem (h.1 x hx), h.2.1, h.2.2.1, fun e' => (count e').trans (h.2.2.2 e')⟩

end Log

section Step
variable {s s' : FoldState} {e : Nat}

lemma FoldState.Inv.slave_move (I : s.Inv) (he : e ∈ s.team) (ne : e ≠ s.master) (pc : LoopPc) (flag : Flag)
    (new : List FoldEvent) (hnew : new = [] ∨ new = [.body s.master e]) (hpc : pc.Slave (s.log ++ new) s.master e)
    (hflag : flag = .leave → .body s.master e ∈ s.log ++ new) :
    FoldState.Inv { s with
      flags := update s.flags e flag
      pc := update s.pc e pc
      log := s.log ++ new } := by
  have own : update s.pc e pc s.master = s.pc s.master :=
    update_of_ne (Ne.symm ne) _ _
  refine ⟨⟨I.own, I.mem, I.nodup, I.selected, I.know, I.tid⟩, I.post, ?_, ?_, ?_, ?_, I.notify, ?_, ?_, ?_⟩
  · simp only [own]
    exact I.phase
  · intro x hx
    simp only [update_apply]
    split
    · rename_i eq
      subst eq
      exact hpc
    · exact (I.slave x hx).append
  · intro x hx
    simp only [update_apply] at hx
    split at hx
    · rename_i eq
      exact eq ▸ he
    · exact I.entered x hx
  · intro x hx
    simp only [update_apply] at hx
    split at hx
    · rename_i eq
      exact eq ▸ he
    · exact I.ready x hx
  · intro x hx notified hleave
    simp only [update_apply] at hleave
    split at hleave
    · rename_i eq
      exact eq ▸ hflag hleave
    · exact mem_append_left _ (I.left x hx notified hleave)
  · simp only [own]
    obtain rfl | rfl := hnew
    · rw [append_nil]
      exact I.lead
    · exact I.lead.append_body
  · obtain rfl | rfl := hnew
    · rw [append_nil]
      exact I.after
    · exact I.after.append nofun

lemma FoldState.Inv.lead_move (I : s.Inv) (pc : LoopPc) (flag : Flag) (new : List FoldEvent)
    (phase : s.caller.Fits pc) (hpc : pc.Lead s.team (s.log ++ new) s.master)
    (hflag : flag = .leave → s.master ∈ s.caller.unnotified ∨ .body s.master s.master ∈ s.log ++ new)
    (hafter : FoldsAfter (s.log ++ new)) :
    FoldState.Inv { s with
      flags := update s.flags s.master flag
      pc := update s.pc s.master pc
      log := s.log ++ new } := by
  refine ⟨⟨I.own, I.mem, I.nodup, I.selected, I.know, I.tid⟩, I.post, ?_, ?_, ?_, ?_, I.notify, ?_, ?_, ?_⟩
  · simpa using phase
  · intro x hx
    have hx : x ≠ s.master := hx
    simp only [update_of_ne hx]
    exact (I.slave x hx).append
  · intro x hx
    simp only [update_apply] at hx
    split at hx
    · rename_i eq
      exact eq ▸ I.mem
    · exact I.entered x hx
  · intro x hx
    simp only [update_apply] at hx
    split at hx
    · rename_i eq
      exact eq ▸ I.mem
    · exact I.ready x hx
  · intro x hx notified hleave
    simp only [update_apply] at hleave
    split at hleave
    · rename_i eq
      subst eq
      exact (hflag hleave).resolve_left notified
    · exact mem_append_left _ (I.left x hx notified hleave)
  · simpa using hpc
  · exact hafter

lemma FoldState.Inv.loop_slave (I : s.Inv) (he : e ∈ s.team) (ne : e ≠ s.master)
    (h : loopStep s e = some s') : s'.Inv := by
  have slave := I.slave e ne
  simp only [loopStep, I.know e he] at h
  cases hpc : s.pc e with
  | idle =>
    simp only [hpc] at h
    split at h
    · cases h
      have moved := I.slave_move he ne .arrived .arrived [] (.inl rfl) trivial nofun
      rwa [append_nil] at moved
    · cases h
  | arrived =>
    simp only [hpc] at h
    obtain ⟨c, -, rfl⟩ := Option.map_eq_some_iff.1 h
    have ran : FoldEvent.body s.master e ∈ s.log ++ [.body s.master e] := by simp
    have moved := I.slave_move he ne .ran (s.flags e) _ (.inr rfl) ran fun _ => ran
    rwa [update_eq_self] at moved
  | ran =>
    rw [hpc] at slave
    have ran : FoldEvent.body s.master e ∈ s.log ++ [] := by rwa [append_nil]
    simp only [hpc, if_neg (Ne.symm ne)] at h
    cases h
    have moved := I.slave_move he ne .left .leave [] (.inl rfl) ran fun _ => ran
    rwa [append_nil] at moved
  | wait eids | fold eids =>
    rw [hpc] at slave
    exact slave.elim
  | left =>
    rw [hpc] at slave
    have ran : FoldEvent.body s.master e ∈ s.log ++ [] := by rwa [append_nil]
    -- the thread number is not `0`
    have other : ¬((s.slots s.level s.master).postFunc.isSome = true ∧
        (s.slots s.level s.master).egroup.tid e = 0) := fun zero => ne ((I.tid e he).1 zero.2)
    simp only [hpc, if_neg other] at h
    cases h
    have moved := I.slave_move he ne .done (s.flags e) [] (.inl rfl) ran fun _ => ran
    rwa [append_nil, update_eq_self] at moved
  | done =>
    simp only [hpc] at h
    cases h

lemma FoldState.Inv.loop_lead (I : s.Inv) (h : loopStep s s.master = some s') : s'.Inv := by
  have lead := I.lead
  have phase := I.phase
  -- the caller does not leave its region before it is done
  have member : s.pc s.master ≠ .idle → s.pc s.master ≠ .done → s.caller = .member := by
    intro h1 h2
    cases hc : s.caller with
    | member => rfl
    | notify eids =>
      rw [hc] at phase
      exact absurd phase h1
    | returned =>
      rw [hc] at phase
      exact absurd phase h2
    | alone | aloneRan | wait eids =>
      rw [hc] at phase
      exact phase.elim
  simp only [loopStep, I.know _ I.mem, I.selected] at h
  cases hpc : s.pc s.master with
  | idle => simp [hpc, I.own] at h
  | arrived =>
    rw [hpc] at lead
    simp only [hpc] at h
    obtain ⟨c, -, rfl⟩ := Option.map_eq_some_iff.1 h
    have inside := member (by rw [hpc]; nofun) (by rw [hpc]; nofun)
    have ran : FoldEvent.body s.master s.master ∈ s.log ++ [.body s.master s.master] := by simp
    have none : ∀ e', (s.log ++ [FoldEvent.body s.master s.master]).count
          (.fold s.master e') = 0 := by
      intro e'
      rw [count_append, lead e', count_singleton, if_neg (by simp)]
    have moved := I.lead_move .ran (s.flags s.master) _ (by rw [inside]; trivial) ⟨ran, none⟩
      (fun _ => .inr ran) (I.after.append nofun)
    rwa [update_eq_self] at moved
  | ran =>
    rw [hpc] at lead
    simp only [hpc, if_true] at h
    cases h
    have inside := member (by rw [hpc]; nofun) (by rw [hpc]; nofun)
    have moved := I.lead_move (.wait s.team) (s.flags s.master) [] (by rw [inside]; trivial)
      (by rw [append_nil]; exact ⟨lead.1, fun x hx out => absurd hx out, lead.2⟩)
      (fun _ => .inr (by rw [append_nil]; exact lead.1)) (by rw [append_nil]; exact I.after)
    rwa [append_nil, update_eq_self] at moved
  | wait eids =>
    rw [hpc] at lead
    obtain ⟨ran, waited, none⟩ := lead
    have inside := member (by rw [hpc]; nofun) (by rw [hpc]; nofun)
    cases eids with
    | nil =>
      simp only [hpc] at h
      cases h
      have moved := I.lead_move .left .leave [] (by rw [inside]; trivial)
        (by rw [append_nil]; exact ⟨fun x hx => waited x hx nofun, none⟩)
        (fun _ => .inr (by rw [append_nil]; exact ran))
        (by rw [append_nil]; exact I.after)
      rwa [append_nil] at moved
    | cons x eids =>
      simp only [hpc] at h
      split at h
      · rename_i seen
        cases h
        -- a flag that is down again shows that its executor has run its part
        have waited : ∀ y ∈ s.team, y ∉ eids → FoldEvent.body s.master y ∈ s.log := by
          intro y hy out
          by_cases eq : y = x
          · subst eq
            obtain rfl | down := seen
            · exact ran
            · exact I.left y hy (by rw [inside]; nofun) down
          · exact waited y hy (by simp [eq, out])
        have moved := I.lead_move (.wait eids) (s.flags s.master) [] (by rw [inside]; trivial)
          (by rw [append_nil]; exact ⟨ran, waited, none⟩)
          (fun _ => .inr (by rw [append_nil]; exact ran))
          (by rw [append_nil]; exact I.after)
        rwa [append_nil, update_eq_self] at moved
      · cases h
  | left =>
    rw [hpc] at lead
    obtain ⟨all, none⟩ := lead
    have inside := member (by rw [hpc]; nofun) (by rw [hpc]; nofun)
    -- nobody but the caller clears the function behind the region
    have post := I.post (by rw [inside]; nofun)
    simp only [hpc, post, (I.tid _ I.mem).2 rfl, and_self, if_true] at h
    cases h
    have moved := I.lead_move (.fold s.team) (s.flags s.master) [] (by rw [inside]; trivial)
      (by
        rw [append_nil]
        refine ⟨all, I.nodup, List.Subset.refl _, fun e' => ?_⟩
        rw [none e', if_neg (fun h => h.2 h.1)])
      (fun _ => .inr (by rw [append_nil]; exact all _ I.mem))
      (by rw [append_nil]; exact I.after)
    rwa [append_nil, update_eq_self] at moved
  | fold eids =>
    rw [hpc] at lead
    obtain ⟨all, nodup, sub, count⟩ := lead
    have inside := member (by rw [hpc]; nofun) (by rw [hpc]; nofun)
    cases eids with
    | nil =>
      simp only [hpc] at h
      cases h
      have moved := I.lead_move .done (s.flags s.master) [] (by rw [inside]; trivial)
        (by rw [append_nil]; exact ⟨all, fun e' => by simpa using count e'⟩)
        (fun _ => .inr (by rw [append_nil]; exact all _ I.mem))
        (by rw [append_nil]; exact I.after)
      rwa [append_nil, update_eq_self] at moved
    | cons x eids =>
      simp only [hpc] at h
      cases h
      obtain ⟨fresh, nodup⟩ := nodup_cons.1 nodup
      have mem := sub mem_cons_self
      have once : ∀ e', (s.log ++ [FoldEvent.fold s.master x]).count (.fold s.master e') =
          if e' ∈ s.team ∧ e' ∉ eids then 1 else 0 := by
        intro e'
        rw [count_append, count e', count_singleton]
        by_cases eq : e' = x
        · subst eq
          simp [mem, fresh]
        · have ne : ¬(FoldEvent.fold s.master x == .fold s.master e') = true := by
            simpa using fun h => eq h.symm
          rw [if_neg ne, Nat.add_zero]
          simp [eq]
      have moved := I.lead_move (.fold eids) (s.flags s.master) [.fold s.master x]
        (by rw [inside]; trivial)
        ⟨fun y hy => mem_append_left _ (all y hy), nodup, fun y hy => sub (mem_cons_of_mem _ hy), once⟩
        (fun _ => .inr (mem_append_left _ (all _ I.mem)))
        (I.after.append fun m y eq => by cases eq; exact all x mem)
      rwa [update_eq_self] at moved
  | done =>
    simp only [hpc] at h
    cases h

lemma FoldState.Inv.loop (I : s.Inv) (h : loopStep s e = some s') : s'.Inv := by
  have he : e ∈ s.team := by
    by_contra out
    have idle : s.pc e = .idle := by_contra fun ne => out (I.entered e ne)
    have down : s.flags e = .leave := by_contra fun ne => out (I.ready e ne)
    simp [loopStep, idle, down] at h
  by_cases own : e = s.master
  · subst own
    exact I.loop_lead h
  · exact I.loop_slave he own h

lemma Slots.clearPost_eq (P : Slots) (level master l e : Nat) :
    ∃ post, P.clearPost level master l e = { P l e with postFunc := post } := by
  by_cases at_ : l = level ∧ e = master
  · obtain ⟨rfl, rfl⟩ := at_
    exact ⟨none, Slots.set_self⟩
  · exact ⟨(P l e).postFunc, Slots.set_ne at_⟩

lemma FoldState.Inv.returned (I : s.Inv) (done : s.pc s.master = .done) : FoldState.Inv { s with
      slots := s.slots.clearPost s.level s.master
      caller := .returned } := by
  obtain ⟨post, slot⟩ := s.slots.clearPost_eq s.level s.master s.level s.master
  have lead := I.lead
  rw [done] at lead
  refine ⟨⟨I.own, I.mem, I.nodup, ?_, fun e he => ?_, ?_⟩, fun ne => absurd rfl ne, done, I.slave,
    I.entered, I.ready, nofun, fun e he _ _ => lead.1 e he, I.lead, I.after⟩
  · simp only [slot]
    exact I.selected
  · obtain ⟨post', eq⟩ := s.slots.clearPost_eq s.level s.master s.level e
    simp only [eq]
    exact I.know e he
  · simp only [slot]
    exact I.tid

lemma FoldState.Inv.caller_step (I : s.Inv) (h : callerStep s = some s') : s'.Inv := by
  have phase := I.phase
  unfold callerStep at h
  cases hc : s.caller with
  | alone | aloneRan | wait eids =>
    rw [hc] at phase
    exact phase.elim
  | returned =>
    rw [hc] at h
    cases h
  | member =>
    simp only [hc] at h
    split at h
    · rename_i done
      cases h
      exact I.returned (I.own ▸ done)
    · cases h
  | notify eids =>
    rw [hc] at phase
    have post := I.post (by rw [hc]; nofun)
    have notify := I.notify
    have left := I.left
    simp only [hc, CallerPc.unnotified] at notify left
    cases eids with
    | cons x eids =>
      simp only [hc] at h
      cases h
      refine ⟨⟨I.own, I.mem, I.nodup, I.selected, I.know, I.tid⟩, fun _ => post, phase, I.slave,
        I.entered, fun e he => ?_, fun e he => notify e (mem_cons_of_mem _ he),
        fun e he out down => ?_, I.lead, I.after⟩
      · simp only [FoldState.setFlag, update_apply] at he
        split at he
        · rename_i eq
          exact notify e (eq ▸ mem_cons_self)
        · exact I.ready e he
      · simp only [FoldState.setFlag, update_apply] at down
        split at down
        · cases down
        · rename_i ne
          exact left e he (fun mem => (mem_cons.1 mem).elim ne out) down
    | nil =>
      simp only [hc, if_pos I.own.symm] at h
      cases h
      have inside : FoldState.Inv { s with caller := .member } :=
        ⟨⟨I.own, I.mem, I.nodup, I.selected, I.know, I.tid⟩, fun _ => post, trivial, I.slave,
          I.entered, I.ready, nofun, left, I.lead, I.after⟩
      have lead := I.lead
      rw [phase] at lead
      have unrun : LoopPc.Lead s.team (s.log ++ []) s.master .arrived := by
        rw [append_nil]
        exact lead
      have after : FoldsAfter (s.log ++ []) := by
        rw [append_nil]
        exact I.after
      rw [I.own]
      split
      · have moved := inside.lead_move .arrived .arrived [] trivial unrun nofun after
        rwa [append_nil] at moved
      · have moved := inside.lead_move .arrived (s.flags s.master) [] trivial unrun
          (fun down => .inr (by rw [append_nil]; exact left _ I.mem nofun down)) after
        rwa [append_nil, update_eq_self] at moved

lemma FoldState.Inv.ok (I : s.Inv) : s.Ok := by
  refine ⟨I.after, fun returned => ?_⟩
  have done := I.phase
  have lead := I.lead
  rw [returned] at done
  rw [show s.pc s.master = .done from done] at lead
  exact lead.2

structure FoldState.Alone (s : FoldState) : Prop where
  team : s.team = [s.geid]
  idle : ∀ e, s.pc e = .idle ∧ s.flags e = .leave
  log : match s.caller with
    | .alone => s.log = []
    | .aloneRan => s.log = [.body s.master s.geid]
    | .returned => s.log = [.body s.master s.geid, .fold s.master s.geid]
    | _ => False

lemma FoldState.Alone.step {a : FoldLabel} (I : s.Alone) (h : foldStep s a = some s') : s'.Alone := by
  have log := I.log
  cases a with
  | executor e => simp [foldStep, loopStep, I.idle e] at h
  | caller =>
    simp only [foldStep, callerStep] at h
    cases hc : s.caller with
    | alone | aloneRan =>
      simp only [hc] at h log
      cases h
      exact ⟨I.team, I.idle, by simp [FoldState.emit, log]⟩
    | returned =>
      simp only [hc] at h
      cases h
    | notify | member | wait =>
      simp only [hc] at log

lemma FoldState.Alone.ok (I : s.Alone) : s.Ok := by
  have log := I.log
  cases hc : s.caller with
  | alone =>
    simp only [hc] at log
    exact ⟨log ▸ FoldsAfter.nil, by simp [hc]⟩
  | aloneRan =>
    simp only [hc] at log
    exact ⟨log ▸ FoldsAfter.nil.append nofun, by simp [hc]⟩
  | returned =>
    simp only [hc] at log
    refine ⟨?_, fun _ e => ?_⟩
    · have ran : FoldsAfter [.body s.master s.geid] := FoldsAfter.nil.append nofun
      rw [log]
      exact ran.append fun m e eq => by cases eq; simp
    · rw [log, I.team]
      by_cases eq : e = s.geid <;> simp [eq, Ne.symm]
  | notify | member | wait =>
    simp only [hc] at log

end Step

section Begin
variable {n : Nat} {env : Env} {E : Egroups} {P : Slots} {req : Request} {g : EgroupInfo} {k : Int} {s : FoldState}

lemma startTeam_inv {level : Nat} {pf : Pf} (I : pf.egroup.Ok) (post : pf.postFunc.isSome = true)
    (zero : pf.egroup.tid env.geid = 0) (sel : env.geid ∈ pf.selected)
    (card : pf.numThreads.toNat ≤ pf.egroup.eidSet.card)
    (hs : beginFold env (startTeam env P level env.geid pf) = some s) : s.Inv := by
  have nodup : pf.selected.Nodup := I.limit_nodup card
  have team : teamEids env pf env.geid = pf.selected := teamEids_selected nodup sel
  -- the slot of the region, and those of its executors
  have slot : (startTeam env P level env.geid pf).1 level env.geid = pf.setMaster env.geid :=
    startTeam_own sel
  have know : ∀ e ∈ pf.selected, ((startTeam env P level env.geid pf).1 level e).masterEid = env.geid := by
    intro e he
    have he : e ∈ pf.egroup.limit pf.numThreads.toNat := he
    simp [startTeam, Slots.setMasters, he, Pf.setMaster]
  have begun : s = ⟨level, env.geid, env.geid, pf.selected, (startTeam env P level env.geid pf).1,
      fun _ => .leave, .notify pf.selected, fun _ => .idle, []⟩ := by
    rw [← team]
    have sel' : ((startTeam env P level env.geid pf).1 level env.geid).selected = pf.selected := by
      rw [slot]
      rfl
    have shape : beginFold env (startTeam env P level env.geid pf) =
        some ⟨level, env.geid, env.geid, teamEids env pf env.geid,
          (startTeam env P level env.geid pf).1, fun _ => .leave,
          .notify ((startTeam env P level env.geid pf).1 level env.geid).selected, fun _ => .idle,
          []⟩ := rfl
    rw [shape, sel', ← team] at hs
    exact (Option.some.inj hs).symm
  subst begun
  refine ⟨⟨rfl, sel, nodup, ?_, know, fun e he => ?_⟩, fun _ => ?_, rfl, fun _ _ => trivial,
    fun e ne => absurd rfl ne, fun e ne => absurd rfl ne, fun e he => he,
    fun e he out => absurd he out, fun _ => rfl, FoldsAfter.nil⟩
  · simp only [slot]
    rfl
  · simp only [slot]
    constructor
    · exact fun h => I.tid_inj (mem_of_mem_limit he) (h.trans zero.symm)
    · rintro rfl
      exact zero
  · simp only [slot]
    exact post

end Begin

def sumLoop : Request :=
  .reduce { lineDesc 4 with policy := .static } (some 1) 0 (some sumArgs)

/-- The steps of the loop when executor `0` of four makes it first of all, on two executors in the
given order. -/
def sumRun (executors : List Int) (w : List FoldLabel) : Option FoldState :=
  (beginFold fourEnv (beginRegion fourEnv (fourGroup executors) (fun _ _ => .zero) sumLoop)).bind
    fun s => (folding fourEnv (fourGroup executors) (fun _ _ => .zero) sumLoop).run
      (fun _ _ => True) s w

end Kupl.Loop
