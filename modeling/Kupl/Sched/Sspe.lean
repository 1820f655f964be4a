import Kupl.Loop.Flags
import Kupl.Sched.Plugins

/-!
# The scheduler sspe

`kupl_sched_add_tb`, `kupl_sched_add_ult` and `kupl_sched_execute_tb` (`src/mt/scheduler/kupl_sched.cpp`)
over the plugin `src/mt/scheduler/plugin/sspe/kupl_sched_sspe.cpp`, with `kupl_global_ult_init` and the part
of a region that concerns the flags (`src/mt/kupl_parallel_for.cpp`, `src/mt/barrier/kupl_barrier.cpp`).

C++ → Lean naming: `sched_data_t` → `Sspe`, its slots and the flags of `kupl::FlagBarrier`; `sched_add_tb` →
`schedAddTb`; `sched_get_tb` → `schedGetTb`; `kupl_global_ult_init` → `kuplGlobalUltInit`;
`FlagBarrier::notify`, `arrive`, `leave` → the same words. `kupl_taskbase_t` is the common head of an ult
and of a task: `Item`.

There is a barrier for each nesting level; a step says at which level its executor is. `accepted`,
`returned` and `inline` are history: the tasks for which the plugin returned `KUPL_OK`, what a get returned
to which executor, and the tasks that were invoked by the thread that handed them over.
-/

namespace Kupl.Sched
open List
open Function (update update_self)
open Kupl.Loop.Flags (Flag)

/-- What a taskbase belongs to: the loop ult of an executor, or a task. -/
inductive Item (n : Nat) where
  | ult (e : Fin n)
  | task (tb : Taskbase)
  deriving DecidableEq

/-- `executor_id`; that of a loop ult is its executor. -/
def Item.executorId {n : Nat} : Item n → Int
  | .ult e => e
  | .task tb => tb.executorId

/-- The scheduler with the flags of the executors (C++ `sched_data_t`). -/
structure Sspe (n : Nat) (τ : Type) where
  slot : Fin n → Option (Item n)
  flag : Nat → Fin n → Flag
  looping : Fin n → List Nat
  full : τ → Bool
  accepted : List Taskbase
  returned : List (Fin n × Item n)
  inline : List Taskbase

/-- A task that a thread hands over; a region that notifies executors, with its master, `none` where another
thread calls for it; a poll of an executor; the end of a loop function. -/
inductive SspeLabel (n : Nat) (τ : Type) where
  | add (t : τ) (tb : Taskbase)
  | region (level : Nat) (master : Option (Fin n)) (selected : List (Fin n))
  | poll (t : τ) (e : Fin n) (level : Nat)
  | leave (e : Fin n)

namespace Sspe
variable {n : Nat} {τ : Type}

/-- `sched_add_tb`; `none` for `KUPL_ERROR`. -/
def schedAddTb (s : Sspe n τ) (x : Item n) : Option (Sspe n τ) :=
  if h : x.executorId ≤ idDefault ∨ x.executorId ≥ n then none
  else some { s with slot := update s.slot ⟨x.executorId.toNat, by unfold idDefault at h; omega⟩ (some x) }

/-- The scheduler after `sched_create`. -/
def schedCreate : Sspe n τ := ⟨fun _ => none, fun _ _ => .leave, fun _ => [], fun _ => false, [], [], []⟩

/-- `kupl_global_ult_init`: the loop ults are registered one after the other. -/
def kuplGlobalUltInit (s : Sspe n τ) : Option (Sspe n τ) :=
  (List.finRange n).foldlM (fun s e => s.schedAddTb (.ult e)) s

/-- `FlagBarrier::notify`. -/
def notify (s : Sspe n τ) (level : Nat) (selected : List (Fin n)) : Sspe n τ :=
  { s with flag := update s.flag level fun e => if e ∈ selected then .ready else s.flag level e }

/-- `FlagBarrier::arrive`, or `none` where no region has come. -/
def arrive (s : Sspe n τ) (e : Fin n) (level : Nat) : Option (Sspe n τ) :=
  if s.flag level e = .ready then
    some { s with flag := update s.flag level (update (s.flag level) e .arrived) }
  else none

/-- An executor begins a loop function. -/
def enter (s : Sspe n τ) (e : Fin n) (level : Nat) : Sspe n τ :=
  { s with looping := update s.looping e (level :: s.looping e) }

/-- `sched_get_tb`: whether a region has come, and what is in the slot then. -/
def schedGetTb (s : Sspe n τ) (e : Fin n) (level : Nat) : Sspe n τ × Option (Item n) :=
  match s.arrive e level with
  | some s' => (s', s'.slot e)
  | none => (s, none)

variable [DecidableEq τ]

def setFull (s : Sspe n τ) (t : τ) (b : Bool) : Sspe n τ := { s with full := update s.full t b }

/-- `kupl_sched_add_tb`. -/
def kuplSchedAddTb (s : Sspe n τ) (t : τ) (tb : Taskbase) : Sspe n τ :=
  if s.full t ∨ tb.flag = flagImm then { s with inline := s.inline ++ [tb] }
  else
    match s.schedAddTb (.task tb) with
    | some s' => { s' with accepted := s.accepted ++ [tb] }
    | none => { s.setFull t true with inline := s.inline ++ [tb] }

/-- `tb->ops->invoke(tb)` for what a get of executor `e` has returned. -/
def invoke (s : Sspe n τ) (e : Fin n) (level : Nat) (x : Item n) : Sspe n τ :=
  match x with
  | .ult _ => { s.enter e level with returned := s.returned ++ [(e, x)] }
  | .task _ => { s with returned := s.returned ++ [(e, x)] }

/-- `kupl_sched_execute_tb` by thread `t`, which is executor `e`. -/
def kuplSchedExecuteTb (s : Sspe n τ) (t : τ) (e : Fin n) (level : Nat) : Sspe n τ :=
  match s.schedGetTb e level with
  | (s', none) => s'
  | (s', some x) => (s'.setFull t false).invoke e level x

/-- One step; `own` says which executor a thread is. -/
def step (own : τ → Option (Fin n)) (s : Sspe n τ) : SspeLabel n τ → Option (Sspe n τ)
  | .add t tb => some (s.kuplSchedAddTb t tb)
  | .region level master selected =>
    let s' := s.notify level selected
    match master with
    | none => some s'
    | some e => some (((s'.arrive e level).getD s').enter e level)
  | .poll t e level => if own t = some e then some (s.kuplSchedExecuteTb t e level) else none
  | .leave e =>
    match s.looping e with
    | [] => none
    | level :: rest =>
      some { s with
        looping := update s.looping e rest
        flag := update s.flag level (update (s.flag level) e .leave) }

/-- The scheduler with all loop ults registered, in the hands of its threads. -/
def machine (own : τ → Option (Fin n)) : Machine (Sspe n τ) (SspeLabel n τ) where
  init s := kuplGlobalUltInit schedCreate = some s
  step := step own

/-- The task is not for the plugin, or the plugin does not take it: it is invoked at once. -/
def Declined (s : Sspe n τ) : SspeLabel n τ → Prop
  | .add t tb => s.full t ∨ tb.flag = flagImm ∨ tb.executorId ≤ idDefault ∨ tb.executorId ≥ n
  | _ => True

instance (s : Sspe n τ) (l : SspeLabel n τ) : Decidable (s.Declined l) := by
  cases l <;> unfold Declined <;> infer_instance

/-- Every task that the plugin accepted was invoked once, what a region found was the loop ult of its
executor, and the next one will find it too. -/
structure Serves (s : Sspe n τ) : Prop where
  once : ∀ tb, s.accepted.count tb = (s.returned.map Prod.snd).count (.task tb)
  found : ∀ p ∈ s.returned, p.2 = .ult p.1
  slots : ∀ e, s.slot e = some (.ult e)

variable {s s' : Sspe n τ} {own : τ → Option (Fin n)} {t : τ} {tb : Taskbase} {l : SspeLabel n τ}

omit [DecidableEq τ] in
lemma schedAddTb_ult (s : Sspe n τ) (e : Fin n) :
    s.schedAddTb (.ult e) = some { s with slot := update s.slot e (some (.ult e)) } := by
  have valid : ¬((Item.ult e).executorId ≤ idDefault ∨ (Item.ult e).executorId ≥ n) := by
    simp only [Item.executorId, idDefault]
    omega
  rw [schedAddTb, dif_neg valid]
  rfl

omit [DecidableEq τ] in
lemma register_slots {es : List (Fin n)} (h : es.foldlM (fun s e => s.schedAddTb (.ult e)) s = some s') :
    s'.accepted = s.accepted ∧ s'.returned = s.returned ∧
      ∀ e, s'.slot e = if e ∈ es then some (.ult e) else s.slot e := by
  induction es generalizing s with
  | nil =>
    cases h
    exact ⟨rfl, rfl, fun e => (if_neg not_mem_nil).symm⟩
  | cons d es ih =>
    rw [foldlM_cons, schedAddTb_ult] at h
    obtain ⟨accepted, returned, slots⟩ := ih h
    refine ⟨accepted, returned, fun e => (slots e).trans ?_⟩
    by_cases later : e ∈ es
    · rw [if_pos later, if_pos (mem_cons_of_mem _ later)]
    · rw [if_neg later]
      by_cases same : e = d
      · subst same
        rw [if_pos mem_cons_self]
        exact update_self ..
      · rw [if_neg fun mem => (mem_cons.1 mem).elim same later]
        exact Function.update_of_ne same _ _

/-- What a step does that hands the plugin no task: a get may return what is in a slot. -/
structure Keeps (s s' : Sspe n τ) : Prop where
  slot : s'.slot = s.slot
  accepted : s'.accepted = s.accepted
  returned : s'.returned = s.returned ∨ ∃ e x, s.slot e = some x ∧ s'.returned = s.returned ++ [(e, x)]

omit [DecidableEq τ] in
lemma keeps_arrive {e : Fin n} {level : Nat} (h : s.arrive e level = some s') :
    s'.slot = s.slot ∧ s'.accepted = s.accepted ∧ s'.returned = s.returned := by
  unfold arrive at h
  split at h
  · cases h
    exact ⟨rfl, rfl, rfl⟩
  · cases h

lemma keeps_execute (s : Sspe n τ) (t : τ) (e : Fin n) (level : Nat) : Keeps s (s.kuplSchedExecuteTb t e level) := by
  cases h : s.arrive e level with
  | none =>
    simp only [kuplSchedExecuteTb, schedGetTb, h]
    exact ⟨rfl, rfl, .inl rfl⟩
  | some s₁ =>
    obtain ⟨slot, accepted, returned⟩ := keeps_arrive h
    cases hx : s₁.slot e with
    | none =>
      simp only [kuplSchedExecuteTb, schedGetTb, h, hx]
      exact ⟨slot, accepted, .inl returned⟩
    | some x =>
      simp only [kuplSchedExecuteTb, schedGetTb, h, hx]
      have here : s.slot e = some x := by rw [← slot, hx]
      have more : s₁.returned ++ [(e, x)] = s.returned ++ [(e, x)] := by rw [returned]
      cases x with
      | ult d => exact ⟨slot, accepted, .inr ⟨e, .ult d, here, more⟩⟩
      | task tb => exact ⟨slot, accepted, .inr ⟨e, .task tb, here, more⟩⟩

lemma keeps_step (declined : s.Declined l) (h : step own s l = some s') : Keeps s s' := by
  cases l with
  | add t tb =>
    cases h
    unfold kuplSchedAddTb
    split
    · exact ⟨rfl, rfl, .inl rfl⟩
    · rename_i no
      have out : (Item.task tb : Item n).executorId ≤ idDefault ∨ (Item.task tb : Item n).executorId ≥ n := by
        obtain full | imm | out := declined
        · exact absurd (.inl full) no
        · exact absurd (.inr imm) no
        · exact out
      rw [schedAddTb, dif_pos out]
      exact ⟨rfl, rfl, .inl rfl⟩
  | region level master selected =>
    cases master with
    | none =>
      cases h
      exact ⟨rfl, rfl, .inl rfl⟩
    | some e =>
      cases h
      cases ha : (s.notify level selected).arrive e level with
      | none => exact ⟨rfl, rfl, .inl rfl⟩
      | some s₁ =>
        obtain ⟨slot, accepted, returned⟩ := keeps_arrive ha
        exact ⟨slot, accepted, .inl returned⟩
  | poll t e level =>
    simp only [step] at h
    split at h
    · cases h
      exact keeps_execute s t e level
    · cases h
  | leave e =>
    simp only [step] at h
    split at h
    · cases h
    · cases h
      exact ⟨rfl, rfl, .inl rfl⟩

lemma step_accepted (not : ¬s.Declined l) (h : step own s l = some s') :
    ∃ e tb, s'.slot = update s.slot e (some (.task tb)) ∧ s'.accepted = s.accepted ++ [tb] := by
  cases l with
  | add t tb =>
    obtain rfl := Option.some.inj h
    obtain ⟨full, imm, unbound, far⟩ : s.full t ≠ true ∧ tb.flag ≠ flagImm ∧
      ¬tb.executorId ≤ idDefault ∧
        ¬tb.executorId ≥ n := by
      simpa [Declined] using not
    have first : ¬(s.full t = true ∨ tb.flag = flagImm) := fun h => h.elim full imm
    have bound : ¬((Item.task tb : Item n).executorId ≤ idDefault ∨ (Item.task tb : Item n).executorId ≥ n) :=
      fun h => h.elim unbound far
    rw [kuplSchedAddTb, if_neg first, schedAddTb, dif_neg bound]
    exact ⟨_, tb, rfl, rfl⟩
  | _ => exact absurd trivial not

lemma exists_task (h : (machine own).Reachable s) (ne : s.accepted ≠ []) : ∃ e tb, s.slot e = some (.task tb) := by
  induction h with
  | init h =>
    obtain ⟨accepted, -⟩ := register_slots h
    exact absurd accepted ne
  | @step s l s' _ _ e ih =>
    by_cases declined : s.Declined l
    · have K := keeps_step declined e
      rw [K.accepted] at ne
      obtain ⟨e, tb, here⟩ := ih ne
      exact ⟨e, tb, K.slot ▸ here⟩
    · obtain ⟨e, tb, slot, -⟩ := step_accepted declined e
      exact ⟨e, tb, by rw [slot, update_self]⟩

lemma reach_declined (h : (machine own).Reachable s) (none : s.accepted = []) : (machine own).Reach Declined s := by
  induction h with
  | init h => exact .init h
  | @step s l s' _ _ e ih =>
    by_cases declined : s.Declined l
    · have K := keeps_step declined e
      exact .step (ih (K.accepted ▸ none)) declined e
    · obtain ⟨e, tb, -, more⟩ := step_accepted declined e
      rw [more] at none
      exact absurd none (by simp)

lemma serves_of_declined (h : (machine own).Reach Declined s) : s.Serves ∧ s.accepted = [] := by
  induction h with
  | init h =>
    obtain ⟨accepted, returned, slots⟩ := register_slots h
    refine ⟨⟨fun tb => ?_, fun p mem => ?_, fun e => ?_⟩, accepted⟩
    · rw [accepted, returned]
      rfl
    · rw [returned] at mem
      cases mem
    · rw [slots, if_pos (mem_finRange e)]
  | @step s l s' _ declined e ih =>
    obtain ⟨S, none⟩ := ih
    have K := keeps_step declined e
    refine ⟨⟨fun tb => ?_, fun p mem => ?_, fun e => ?_⟩, K.accepted.trans none⟩
    · obtain same | ⟨e, x, here, more⟩ := K.returned
      · rw [K.accepted, same, S.once]
      · rw [S.slots e] at here
        cases here
        rw [K.accepted, more, S.once, map_append, count_append]
        simp
    · obtain same | ⟨e, x, here, more⟩ := K.returned
      · rw [same] at mem
        exact S.found p mem
      · rw [S.slots e] at here
        cases here
        rw [more] at mem
        obtain mem | mem := mem_append.1 mem
        · exact S.found p mem
        · rw [mem_singleton.1 mem]
    · rw [K.slot, S.slots]

/-- In every run, with regions and polls at any time: each task that the plugin accepted was invoked once and
the loop ults are the ones that a region finds, exactly as long as no task reached the plugin with an
executor of the scheduler. -/
theorem sspe_serves_iff (h : (machine own).Reachable s) : s.Serves ↔ (machine own).Reach Declined s := by
  refine ⟨fun S => reach_declined h ?_, fun d => (serves_of_declined d).1⟩
  by_contra ne
  obtain ⟨e, tb, task⟩ := exists_task h ne
  rw [S.slots e] at task
  cases task

/-- An unbound task is invoked at once, and a region finds the loop ult of the second executor. -/
theorem sspe_serves_iff_two : ∃ s : Sspe 2 (Fin 2), s.Serves ∧ s.inline = [⟨0, -1, 0, 0⟩] ∧
    s.returned = [(1, .ult 1)] := by
  obtain ⟨s, h, hs⟩ := Machine.reach_of_begin (M := machine some) (g := Declined)
    (o := kuplGlobalUltInit (schedCreate : Sspe 2 (Fin 2)))
    (w := [.add 0 ⟨0, -1, 0, 0⟩, .region 0 (some 0) [0, 1], .poll 1 1 0])
    (P := fun s => decide (s.inline = [⟨0, -1, 0, 0⟩] ∧ s.returned = [(1, .ult 1)]))
    (fun _ e => e) (by decide)
  exact ⟨s, (sspe_serves_iff h.reachable).2 h, of_decide_eq_true hs⟩

/-- Two tasks for the second executor: the first is gone, and the region finds the second. -/
theorem sspe_serves_iff_not : ∃ s : Sspe 2 (Fin 2), (machine some).Reachable s ∧
    s.accepted = [⟨0, 1, 0, 0⟩, ⟨1, 1, 0, 0⟩] ∧ s.returned = [(1, .task ⟨1, 1, 0, 0⟩)] ∧
    ∀ e, s.slot e ≠ some (.task ⟨0, 1, 0, 0⟩) := by
  obtain ⟨s, h, hs⟩ := Machine.reach_of_begin (M := machine some) (g := fun _ _ => True)
    (o := kuplGlobalUltInit (schedCreate : Sspe 2 (Fin 2)))
    (w := [.add 0 ⟨0, 1, 0, 0⟩, .add 0 ⟨1, 1, 0, 0⟩, .region 0 (some 0) [0, 1], .poll 1 1 0])
    (P := fun s => decide (s.accepted = [⟨0, 1, 0, 0⟩, ⟨1, 1, 0, 0⟩] ∧
      s.returned = [(1, .task ⟨1, 1, 0, 0⟩)] ∧ ∀ e, s.slot e ≠ some (.task ⟨0, 1, 0, 0⟩)))
    (fun _ e => e) (by decide)
  exact ⟨s, h, of_decide_eq_true hs⟩

end Sspe
end Kupl.Sched
