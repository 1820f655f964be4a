import Mathlib.Algebra.Group.Nat.Defs
import Mathlib.Data.Fintype.Basic
import Kupl.Machine.Run

/-!
# The room for the ready tasks

`kupl_task_finish` of `src/mt/kupl_task.cpp` for a dynamic task, among the calls of `kupl_gnode_precede` and
the `gnode_release_ready` of `src/mt/kupl_dag.cpp` on it. The array for the ready tasks is as large as a
counter says that is read without the lock: a caller that has found the task unfinished under the lock may
still add an edge (`ready_past`).

C++ → Lean naming: `kupl_gnode_precede` → `callerStep`; `kupl_task_execute` (setting FINISHED),
`kupl_task_finish`, `kupl_vla` and `kupl_gnode_release_ready_safe` → `finishStep`; `lock` names the thread
that holds the lock, `none` for the executor of the task.
-/

namespace Kupl.Dag.Room
open Function (update update_of_ne update_self)

variable {κ : Type*}

/-- Where a thread that submits the task `succeed` is. -/
inductive Caller where
  | out
  | lock (succeed : Nat)
  | recheck (succeed : Nat)
  | bump (succeed : Nat)
  | insert (succeed : Nat)
  | unlock (linked : Option Nat)
  | count (succeed : Nat)

/-- Where the executor of the task is. -/
inductive Finisher where
  | running
  | read
  | vla (size : BitVec 32)
  | lock
  | unlock
  | head
  | walk (rest : List Nat)
  | done

/-- The task, its callers and its executor. -/
structure State (κ : Type*) where
  lock : Option (Option κ)
  nSuccessors : BitVec 32
  successors : List Nat
  nPredecessors : Nat → BitVec 32
  caller : κ → Caller
  fin : Finisher
  capacity : Nat
  ready : List Nat

/-- Which thread takes a step, and whether its allocation succeeds; `other` is any other thread that
counts the predecessors of a task. -/
inductive Label (κ : Type*) where
  | call (c : κ) (succeed : Nat)
  | next (c : κ) (alloc : Bool)
  | finish (alloc : Bool)
  | other (t : Nat) (n : BitVec 32)

/-- C++ `THRESHOLD` of `kupl_vla`. -/
def threshold : Nat := 128

def Finisher.isRunning : Finisher → Bool
  | .running => true
  | _ => false

section Machine
variable [DecidableEq κ]

/-- C++ `kupl_gnode_precede`. -/
def callerStep (s : State κ) (c : κ) (alloc : Bool) : Option (State κ) :=
  match s.caller c with
  | .out => none
  | .lock t =>
    if s.lock.isSome then none
    else some { s with lock := some (some c), caller := update s.caller c (.recheck t) }
  | .recheck t =>
    some { s with caller := update s.caller c (if s.fin.isRunning then .bump t else .unlock none) }
  | .bump t => some { s with nSuccessors := s.nSuccessors + 1, caller := update s.caller c (.insert t) }
  | .insert t =>
    some { s with
      successors := if alloc then t :: s.successors else s.successors
      caller := update s.caller c (.unlock (some t)) }
  | .unlock linked =>
    some { s with lock := none, caller := update s.caller c (linked.elim .out .count) }
  | .count t =>
    some { s with
      nPredecessors := update s.nPredecessors t (s.nPredecessors t + 1)
      caller := update s.caller c .out }

/-- C++ `kupl_task_execute` and `kupl_task_finish`. -/
def finishStep (s : State κ) (alloc : Bool) : Option (State κ) :=
  match s.fin with
  | .running => some { s with fin := .read }
  | .read => some { s with fin := .vla s.nSuccessors }
  | .vla size =>
    if size.toNat ≤ threshold then some { s with capacity := threshold, fin := .lock }
    else if alloc then some { s with capacity := size.toNat, fin := .lock }
    else some { s with fin := .done }
  | .lock => if s.lock.isSome then none else some { s with lock := some none, fin := .unlock }
  | .unlock => some { s with lock := none, fin := .head }
  | .head => some { s with fin := .walk s.successors }
  | .walk (t :: rest) =>
    some { s with
      nPredecessors := update s.nPredecessors t (s.nPredecessors t - 1)
      ready := if s.nPredecessors t = 1 then s.ready ++ [t] else s.ready
      fin := .walk rest }
  | .walk [] => some { s with fin := .done }
  | .done => none

/-- The task runs, and its successors are counted. -/
structure Init (s : State κ) : Prop where
  lock : s.lock = none
  counter : s.nSuccessors.toNat = s.successors.length
  caller : ∀ c, s.caller c = .out
  fin : s.fin = .running
  ready : s.ready = []

/-- The callers of `kupl_gnode_precede` and the executor of the task. -/
def machine (κ : Type*) [DecidableEq κ] : Machine (State κ) (Label κ) where
  init := Init
  step s
    | .call c t =>
      match s.caller c with
      | .out => some (if s.fin.isRunning then { s with caller := update s.caller c (.lock t) } else s)
      | _ => none
    | .next c alloc => callerStep s c alloc
    | .finish alloc => finishStep s alloc
    | .other t n => some { s with nPredecessors := update s.nPredecessors t n }

end Machine

/-- The caller has seen the task unfinished and has not counted its edge. -/
def Caller.bumps : Caller → Bool
  | .bump _ => true
  | _ => false

def Finisher.reads : Finisher → Bool
  | .read => true
  | _ => false

/-- The counter does not wrap, and it is not read at `128` or more while a caller has seen the task
unfinished and has not counted its edge. -/
def Allowed (s : State κ) : Label κ → Prop
  | .next c _ => (s.caller c).bumps = true → s.nSuccessors.toNat + 1 < 2 ^ 32
  | .finish _ => s.fin.reads = true → ∀ c, (s.caller c).bumps = true → s.nSuccessors.toNat < threshold
  | _ => True

instance allowed_decidable [Fintype κ] (s : State κ) : ∀ l, Decidable (Allowed s l)
  | .next c _ => inferInstanceAs (Decidable ((s.caller c).bumps = true → s.nSuccessors.toNat + 1 < 2 ^ 32))
  | .finish _ => inferInstanceAs (Decidable (s.fin.reads = true → ∀ c, (s.caller c).bumps = true →
      s.nSuccessors.toNat < threshold))
  | .call _ _ | .other _ _ => isTrue trivial

def Caller.Holds : Caller → Prop
  | .recheck _ | .bump _ | .insert _ | .unlock _ => True
  | _ => False

/-- The room there is or will be, once the counter has been read. -/
def State.room (s : State κ) : Option Nat :=
  match s.fin with
  | .vla size => some (max threshold size.toNat)
  | .lock | .unlock | .head => some s.capacity
  | _ => none

/-- The successors that are still to be released; `none` before the list is read. -/
def Finisher.rest : Finisher → Option (List Nat)
  | .walk rest => some rest
  | .done => some []
  | _ => none

/-- The counter counts the successors, and there is room for as many as it can come to count. -/
structure Inv (s : State κ) : Prop where
  held : ∀ c, (s.caller c).Holds → s.lock = some (some c)
  unlock : s.fin = .unlock → s.lock = some none
  counted : s.successors.length ≤ s.nSuccessors.toNat
  insert : ∀ c t, s.caller c = .insert t → s.successors.length < s.nSuccessors.toNat
  room : ∀ b, s.room = some b → s.nSuccessors.toNat ≤ b
  bump : ∀ b c t, s.room = some b → s.caller c = .bump t → s.nSuccessors.toNat < b
  fresh : s.fin.rest = none → s.ready = []
  written : ∀ rest, s.fin.rest = some rest → s.ready.length + rest.length ≤ s.capacity

section Steps
variable {s s' : State κ} {c : κ} {x : Caller} {alloc : Bool}

lemma Inv.init (h : Init s) : Inv s := by
  obtain ⟨lock, counter, caller, fin, ready⟩ := h
  have room : s.room = none := by rw [State.room, fin]
  refine ⟨fun c holds => ?_, fun at_ => ?_, counter.ge, fun c t at_ => ?_, fun b at_ => ?_,
    fun b c t at_ _ => ?_, fun _ => ready, fun rest at_ => ?_⟩
  · rw [caller] at holds
    exact holds.elim
  · rw [fin] at at_
    cases at_
  · rw [caller] at at_
    cases at_
  · cases room.symm.trans at_
  · cases room.symm.trans at_
  · rw [fin] at at_
    cases at_

section Caller
variable [DecidableEq κ]

lemma Inv.keep (I : Inv s) (le : x.Holds → (s.caller c).Holds) {c' : κ}
    (holds : (update s.caller c x c').Holds) : s.lock = some (some c') := by
  by_cases ne : c' = c
  · subst ne
    rw [update_self] at holds
    exact I.held c' (le holds)
  · rw [update_of_ne ne] at holds
    exact I.held c' holds

/-- The holder of the lock is alone. -/
lemma Inv.alone (I : Inv s) (holds : (s.caller c).Holds) {c' : κ} {y : Caller} (hy : y.Holds)
    (at_ : update s.caller c x c' = y) : x = y := by
  by_cases ne : c' = c
  · subst ne
    rwa [update_self] at at_
  · rw [update_of_ne ne] at at_
    cases (I.held c holds).symm.trans (I.held c' (at_ ▸ hy))
    exact absurd rfl ne

/-- A caller moves on: the counter and the list stay. -/
lemma Inv.move (I : Inv s) {lock : Option (Option κ)} {nPredecessors : Nat → BitVec 32}
    (held : ∀ c', (update s.caller c x c').Holds → lock = some (some c'))
    (unlock : s.fin = .unlock → lock = some none)
    (notInsert : ∀ t, x ≠ .insert t) (bump : ∀ t, x = .bump t → s.fin = .running) :
    Inv { s with lock, nPredecessors, caller := update s.caller c x } := by
  have old : ∀ c' y, update s.caller c x c' = y → x = y ∨ s.caller c' = y := by
    intro c' y at_
    by_cases ne : c' = c
    · subst ne
      rw [update_self] at at_
      exact .inl at_
    · rw [update_of_ne ne] at at_
      exact .inr at_
  refine ⟨held, unlock, I.counted, fun c' t at_ => ?_, I.room, fun b c' t some at_ => ?_, I.fresh, I.written⟩
  · exact I.insert c' t ((old c' _ at_).resolve_left (notInsert t))
  · obtain new | there := old c' _ at_
    · have run : s.fin = .running := bump t new
      have none : s.room = none := by rw [State.room, run]
      cases none.symm.trans some
    · exact I.bump b c' t some there

lemma Inv.callerStep (I : Inv s) (small : (s.caller c).bumps = true → s.nSuccessors.toNat + 1 < 2 ^ 32)
    (e : callerStep s c alloc = some s') : Inv s' := by
  unfold Room.callerStep at e
  split at e
  next => cases e
  next t at_ =>
    split at e
    · cases e
    · rename_i free
      cases e
      have free : s.lock = none := by simpa using free
      refine I.move (fun c' holds => ?_) (fun at_ => ?_) (fun _ new => by cases new)
        fun _ new => by cases new
      · by_cases ne : c' = c
        · rw [ne]
        · rw [update_of_ne ne] at holds
          cases free.symm.trans (I.held c' holds)
      · cases free.symm.trans (I.unlock at_)
  next t at_ =>
    cases e
    refine I.move (fun c' => I.keep fun _ => at_ ▸ trivial) I.unlock (fun t => ?_) fun t new => ?_
    · split <;> intro new <;> cases new
    · cases run : s.fin <;> rw [run] at new <;> first | rfl | cases new
  next t at_ =>
    cases e
    have holds : (s.caller c).Holds := at_ ▸ trivial
    have counter : (s.nSuccessors + 1).toNat = s.nSuccessors.toNat + 1 := by
      rw [BitVec.toNat_add]
      exact Nat.mod_eq_of_lt (small (at_ ▸ rfl))
    have counted := I.counted
    refine ⟨fun c' => I.keep fun _ => holds, I.unlock, ?_, fun _ _ _ => ?_, fun b some => ?_,
      fun b c' t _ there => ?_, I.fresh, I.written⟩
    · dsimp only
      omega
    · dsimp only
      omega
    · have lt := I.bump b c t some at_
      dsimp only
      omega
    · cases I.alone holds (y := .bump t) trivial there
  next t at_ =>
    cases e
    have holds : (s.caller c).Holds := at_ ▸ trivial
    have lt := I.insert c t at_
    have longer : (if alloc then t :: s.successors else s.successors).length ≤ s.successors.length + 1 := by
      split <;> simp
    refine ⟨fun c' => I.keep fun _ => holds, I.unlock, ?_, fun c' t there => ?_, I.room,
      fun b c' t _ there => ?_, I.fresh, I.written⟩
    · dsimp only
      omega
    · cases I.alone holds (y := .insert t) trivial there
    · cases I.alone holds (y := .bump t) trivial there
  next linked at_ =>
    cases e
    have holds : (s.caller c).Holds := at_ ▸ trivial
    refine I.move (fun c' there => ?_) (fun unlock => ?_) ?_ ?_
    · by_cases ne : c' = c
      · subst ne
        rw [update_self] at there
        cases linked <;> exact there.elim
      · rw [update_of_ne ne] at there
        cases (I.held c holds).symm.trans (I.held c' there)
        exact absurd rfl ne
    · cases (I.held c holds).symm.trans (I.unlock unlock)
    · cases linked <;> intro t new <;> cases new
    · cases linked <;> intro t new <;> cases new
  next t at_ =>
    cases e
    exact I.move (fun c' => I.keep (x := .out) False.elim) I.unlock (fun _ new => by cases new)
      fun _ new => by cases new

end Caller

/-- The executor moves on to its walk. -/
lemma Inv.advance (I : Inv s) {lock : Option (Option κ)} {capacity : Nat} {f : Finisher}
    (before : s.fin.rest = none) (still : f.rest = none)
    (held : ∀ c, (s.caller c).Holds → lock = some (some c)) (unlock : f = .unlock → lock = some none)
    (room : ∀ b, State.room { s with lock, capacity, fin := f } = some b →
      s.nSuccessors.toNat ≤ b ∧ ∀ c t, s.caller c = .bump t → s.nSuccessors.toNat < b) :
    Inv { s with lock, capacity, fin := f } := by
  refine ⟨held, unlock, I.counted, I.insert, fun b some => (room b some).1,
    fun b c t some => (room b some).2 c t, fun _ => I.fresh before, fun rest walks => ?_⟩
  cases still.symm.trans walks

/-- The executor walks. -/
lemma Inv.walk (I : Inv s) {f : Finisher} {rest ready : List Nat} {nPredecessors : Nat → BitVec 32}
    (walks : f.rest = some rest) (written : ready.length + rest.length ≤ s.capacity) :
    Inv { s with fin := f, ready, nPredecessors } := by
  have none : State.room { s with fin := f, ready, nPredecessors } = none := by
    cases f with
    | walk | done => rfl
    | _ => cases walks
  refine ⟨I.held, fun at_ => ?_, I.counted, I.insert, fun b some => ?_, fun b c t some => ?_, fun early => ?_,
    fun r there => ?_⟩
  · have at_ : f = .unlock := at_
    rw [at_] at walks
    cases walks
  · cases none.symm.trans some
  · cases none.symm.trans some
  · cases walks.symm.trans early
  · cases walks.symm.trans there
    exact written

lemma Inv.finishStep (I : Inv s) (small : s.fin.reads = true → ∀ c, (s.caller c).bumps = true →
    s.nSuccessors.toNat < threshold) (e : finishStep s alloc = some s') : Inv s' := by
  have known : ∀ b, s.room = some b → s.nSuccessors.toNat ≤ b ∧ ∀ c t, s.caller c = .bump t →
    s.nSuccessors.toNat < b :=
    fun b some => ⟨I.room b some, fun c t => I.bump b c t some⟩
  have early : s.fin.rest = none → s.ready.length = 0 := fun before => by rw [I.fresh before, List.length_nil]
  unfold Room.finishStep at e
  split at e
  next at_ =>
    cases e
    exact I.advance (by rw [at_]; rfl) rfl I.held (fun new => by cases new) fun b some => by cases some
  next at_ =>
    cases e
    refine I.advance (by rw [at_]; rfl) rfl I.held (fun new => by cases new) fun b some => ?_
    cases some
    exact ⟨le_max_right _ _, fun c t bump => lt_of_lt_of_le (small (at_ ▸ rfl) c (bump ▸ rfl))
      (le_max_left _ _)⟩
  next size at_ =>
    have room : s.room = some (max threshold size.toNat) := by rw [State.room, at_]
    have before : s.fin.rest = none := by rw [at_]; rfl
    split at e
    · rename_i le
      cases e
      refine I.advance before rfl I.held (fun new => by cases new) fun b some => ?_
      cases some
      exact known _ (room.trans (by rw [max_eq_left le]))
    · split at e
      · cases e
        refine I.advance before rfl I.held (fun new => by cases new) fun b some => ?_
        cases some
        exact known _ (room.trans (by rw [max_eq_right (by omega)]))
      · cases e
        refine I.walk rfl ?_
        rw [early before]
        exact Nat.zero_le _
  next at_ =>
    split at e
    · cases e
    · rename_i free
      cases e
      have free : s.lock = none := by simpa using free
      have room : s.room = some s.capacity := by rw [State.room, at_]
      refine I.advance (by rw [at_]; rfl) rfl (fun c holds => ?_) (fun _ => rfl) fun b some => ?_
      · cases free.symm.trans (I.held c holds)
      · exact known b (room.trans some)
  next at_ =>
    cases e
    have room : s.room = some s.capacity := by rw [State.room, at_]
    refine I.advance (by rw [at_]; rfl) rfl (fun c holds => ?_) (fun new => by cases new) fun b some => ?_
    · cases (I.unlock at_).symm.trans (I.held c holds)
    · exact known b (room.trans some)
  next at_ =>
    cases e
    have room : s.room = some s.capacity := by rw [State.room, at_]
    refine I.walk rfl ?_
    rw [early (by rw [at_]; rfl), Nat.zero_add]
    exact I.counted.trans (I.room _ room)
  next t rest at_ =>
    cases e
    have written := I.written (t :: rest) (by rw [at_]; rfl)
    refine I.walk rfl ?_
    rw [List.length_cons] at written
    split
    · rw [List.length_append, List.length_singleton]
      omega
    · omega
  next at_ =>
    cases e
    exact I.walk rfl (I.written [] (by rw [at_]; rfl))
  next => cases e

end Steps

section Headline
variable [DecidableEq κ] {s s' : State κ} {l : Label κ}

lemma Inv.step (I : Inv s) (allowed : Allowed s l) (e : (machine κ).step s l = some s') : Inv s' := by
  cases l with
  | call c t =>
    have out : s.caller c = .out := by
      dsimp only [machine] at e
      split at e
      · assumption
      · cases e
    dsimp only [machine] at e
    rw [out] at e
    cases e
    split
    · exact I.move (fun c' => I.keep (x := .lock t) False.elim) I.unlock (fun _ new => by cases new)
        fun _ new => by cases new
    · exact I
  | next c alloc => exact I.callerStep allowed e
  | finish alloc => exact I.finishStep allowed e
  | other t n =>
    cases e
    exact ⟨I.held, I.unlock, I.counted, I.insert, I.room, I.bump, I.fresh, I.written⟩

/-- Where the counter does not wrap and is not read too early, the ready tasks fit. -/
theorem ready_fits (h : (machine κ).Reach Allowed s) : s.ready.length ≤ s.capacity := by
  have I : Inv s := h.inv (fun _ => Inv.init) fun _ _ _ I allowed e => I.step allowed e
  cases walks : s.fin.rest with
  | none =>
    rw [I.fresh walks]
    exact Nat.zero_le _
  | some rest => exact (Nat.le_add_right _ _).trans (I.written rest walks)

end Headline

/-- With an edge added while the task runs there is room for it. -/
theorem ready_fits_one : ∃ s, (machine Unit).Reach Allowed s ∧ s.ready = [7] ∧ s.ready.length ≤ s.capacity := by
  refine Machine.shown_and (s := ⟨none, 0, [], fun _ => 0, fun _ => .out, .running, 0, []⟩)
    (.call () 7 :: List.replicate 6 (.next () true) ++ List.replicate 8 (.finish true))
    ⟨rfl, rfl, fun _ => rfl, rfl, rfl⟩ (by decide) fun s h _ => ?_
  exact ready_fits h

/-- A caller has found the task unfinished; the counter is read at `128`, and one more edge is added. -/
theorem ready_past : ∃ s, (machine Unit).Reachable s ∧ s.ready.length = 129 ∧ s.capacity = 128 := by
  refine Machine.exists_reach (s := ⟨none, 128, List.range' 1 128, fun t => if t = 0 then 0 else 1, fun _ => .out,
    .running, 0, []⟩) (.call () 0 :: List.replicate 2 (.next () true) ++ List.replicate 2 (.finish true) ++
      List.replicate 4 (.next () true) ++ List.replicate 133 (.finish true))
    ⟨rfl, List.length_range'.symm, fun _ => rfl, rfl, rfl⟩ ?_
  decide +kernel

end Kupl.Dag.Room
