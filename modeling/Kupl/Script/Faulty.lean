import Kupl.Script.Basic

/-!
# Calls that may fail

A call goes through routines one after the other. A routine does instructions and attempts things that may fail; when an
attempt fails, the routine is over. Its caller then returns the failure if it checks the status of the routine, and goes
on as if nothing had happened if it does not.

A rank is honest if it has returned success only from calls in which all routines succeeded. It stays so in a return if
and only if no failure has got lost in the call (`honest_step`).
-/

namespace Kupl.Script.Faulty
open List
open Function (update update_of_ne update_self)

/-- What a routine does. -/
inductive Act (O C L : Type) where
  | instr (x : Instr C L)
  | attempt (o : O)

/-- A routine, and whether its caller returns if it fails. -/
structure Routine (O C L : Type) where
  checked : Bool
  acts : List (Act O C L)

/-- A rank in a call: the instructions that it has done, which of the routines that are over have succeeded, what the
call would return, and the routines that are left, the first of which it may have begun. -/
structure Frame (O C L : Type) where
  done : List (Instr C L)
  ended : List Bool
  ok : Bool
  todo : List (Routine O C L)

/-- Counters, locations and registers; where each rank is in its call, if it is in one; the calls that it has left, what
the locations were when it entered each, and what they have returned, with the statuses of their routines. -/
structure State (O C L α : Type) where
  count : C → Nat
  val : L → α
  reg : Nat → Nat
  frame : Nat → Option (Frame O C L)
  left : Nat → Nat
  seen : Nat → Nat → L → α
  returned : Nat → List (Bool × List Bool)

/-- A rank enters a call, goes on in it, fails at what it attempts, returns, or sets its own locations between calls. -/
inductive Label (L α : Type) where
  | enter (p : Nat)
  | run (p : Nat)
  | fail (p : Nat)
  | ret (p : Nat)
  | set (p : Nat) (f : L → α)

def Label.rank {L α : Type} : Label L α → Nat
  | .enter p | .run p | .fail p | .ret p | .set p _ => p

def instrs {O C L : Type} : List (Act O C L) → List (Instr C L)
  | [] => []
  | .instr x :: acts => x :: instrs acts
  | .attempt _ :: acts => instrs acts

/-- The instructions of a call. -/
def script {O C L : Type} (call : List (Routine O C L)) : List (Instr C L) := call.flatMap fun r => instrs r.acts

variable {O C L α : Type}

/-- Where a rank is in its script. -/
def Frame.point (f : Frame O C L) : List (Instr C L) × List (Instr C L) := (f.done, script f.todo)

namespace State

/-- A rank comes to some point of its call. -/
def goTo (s : State O C L α) (p : Nat) (f : Frame O C L) : State O C L α :=
  { s with frame := update s.frame p (some f) }

/-- The state without failures. -/
def view (s : State O C L α) : Script.State C L α where
  count := s.count
  val := s.val
  reg := s.reg
  pc p := (s.frame p).map Frame.point
  left := s.left
  seen := s.seen

/-- Nobody has done anything. -/
def fresh (val : L → α) : State O C L α where
  count _ := 0
  val
  reg _ := 0
  frame _ := none
  left _ := 0
  seen _ _ := val
  returned _ := []

end State

section Step
variable [DecidableEq C] [DecidableEq L] [Add α]

def step (call : Nat → List (Routine O C L)) (owner : L → Nat) (s : State O C L α) :
    Label L α → Option (State O C L α)
  | .enter p =>
    match s.frame p with
    | none => some { s with
        frame := update s.frame p (some ⟨[], [], true, call p⟩)
        seen := update s.seen p (update (s.seen p) (s.left p) s.val) }
    | some _ => none
  | .run p =>
    match s.frame p with
    | some ⟨done, ended, ok, ⟨checked, .instr x :: acts⟩ :: rest⟩ =>
      (exec p s.view x).map fun m =>
        { s with count := m.count, val := m.val, reg := m.reg }.goTo p
          ⟨done ++ [x], ended, ok, ⟨checked, acts⟩ :: rest⟩
    | some ⟨done, ended, ok, ⟨checked, .attempt _ :: acts⟩ :: rest⟩ =>
      some (s.goTo p ⟨done, ended, ok, ⟨checked, acts⟩ :: rest⟩)
    | some ⟨done, ended, ok, ⟨_, []⟩ :: rest⟩ => some (s.goTo p ⟨done, ended ++ [true], ok, rest⟩)
    | _ => none
  | .fail p =>
    match s.frame p with
    | some ⟨done, ended, ok, ⟨checked, .attempt _ :: _⟩ :: rest⟩ =>
      some (s.goTo p (if checked then ⟨done, ended ++ [false], false, []⟩
        else ⟨done, ended ++ [false], ok, rest⟩))
    | _ => none
  | .ret p =>
    match s.frame p with
    | some ⟨_, ended, ok, []⟩ => some { s with
        frame := update s.frame p none
        left := update s.left p (s.left p + 1)
        returned := update s.returned p (s.returned p ++ [(ok, ended)]) }
    | _ => none
  | .set p f =>
    match s.frame p with
    | none => some { s with val := fun l => if owner l = p then f l else s.val l }
    | some _ => none

/-- `n` ranks with calls. -/
def machine (n : Nat) (call : Nat → List (Routine O C L)) (owner : L → Nat) :
    Machine (State O C L α) (Label L α) where
  init s := (∀ c, s.count c = 0) ∧ (∀ p, s.frame p = none) ∧ (∀ p, s.left p = 0) ∧ ∀ p, s.returned p = []
  step s a := if a.rank < n then step call owner s a else none

end Step

variable [DecidableEq C] [DecidableEq L] [Add α] {call : Nat → List (Routine O C L)} {owner : L → Nat} {n p : Nat}
  {s s' : State O C L α} {f : Frame O C L} {a : Label L α} {g : State O C L α → Label L α → Prop}

lemma init_fresh {val : L → α} : (machine n call owner).init (State.fresh (O := O) (C := C) val) :=
  ⟨fun _ => rfl, fun _ => rfl, fun _ => rfl, fun _ => rfl⟩

/-! ## What a step can do -/

/-- The steps; a rank that goes on does an instruction, succeeds at an attempt or ends a routine. -/
inductive Step (call : Nat → List (Routine O C L)) (owner : L → Nat) (s : State O C L α) :
    Label L α → State O C L α → Prop
  | enter {p : Nat} (out : s.frame p = none) : Step call owner s (.enter p) { s with
      frame := update s.frame p (some ⟨[], [], true, call p⟩)
      seen := update s.seen p (update (s.seen p) (s.left p) s.val) }
  | instr {p : Nat} {done ended ok checked x acts rest m}
      (at_p : s.frame p = some ⟨done, ended, ok, ⟨checked, .instr x :: acts⟩ :: rest⟩)
      (ex : exec p s.view x = some m) :
      Step call owner s (.run p) ({ s with count := m.count, val := m.val, reg := m.reg }.goTo p
        ⟨done ++ [x], ended, ok, ⟨checked, acts⟩ :: rest⟩)
  | succeed {p : Nat} {done ended ok checked o acts rest}
      (at_p : s.frame p = some ⟨done, ended, ok, ⟨checked, .attempt o :: acts⟩ :: rest⟩) :
      Step call owner s (.run p) (s.goTo p ⟨done, ended, ok, ⟨checked, acts⟩ :: rest⟩)
  | close {p : Nat} {done ended ok checked rest} (at_p : s.frame p =
      some ⟨done, ended, ok, ⟨checked, []⟩ :: rest⟩) :
      Step call owner s (.run p) (s.goTo p ⟨done, ended ++ [true], ok, rest⟩)
  | fail {p : Nat} {done ended ok checked o acts rest}
      (at_p : s.frame p = some ⟨done, ended, ok, ⟨checked, .attempt o :: acts⟩ :: rest⟩) :
      Step call owner s (.fail p)
        (s.goTo p (if checked then ⟨done, ended ++ [false], false, []⟩ else ⟨done, ended ++ [false], ok, rest⟩))
  | ret {p : Nat} {done ended ok} (at_p : s.frame p = some ⟨done, ended, ok, []⟩) :
      Step call owner s (.ret p) { s with
      frame := update s.frame p none
      left := update s.left p (s.left p + 1)
      returned := update s.returned p (s.returned p ++ [(ok, ended)]) }
  | set {p : Nat} {f : L → α} (out : s.frame p = none) : Step call owner s (.set p f) { s with
      val := fun l => if owner l = p then f l else s.val l }

lemma Step.of_step (st : step call owner s a = some s') : Step call owner s a s' := by
  cases a with
  | enter p =>
    dsimp only [step] at st
    split at st
    case h_1 out =>
      cases st
      exact .enter out
    case h_2 => cases st
  | run p =>
    dsimp only [step] at st
    split at st
    case h_1 at_p =>
      obtain ⟨m, ex, rfl⟩ := Option.map_eq_some_iff.1 st
      exact .instr at_p ex
    case h_2 at_p =>
      cases st
      exact .succeed at_p
    case h_3 at_p =>
      cases st
      exact .close at_p
    case h_4 => cases st
  | fail p =>
    dsimp only [step] at st
    split at st
    case h_1 at_p =>
      cases st
      exact .fail at_p
    case h_2 => cases st
  | ret p =>
    dsimp only [step] at st
    split at st
    case h_1 at_p =>
      cases st
      exact .ret at_p
    case h_2 => cases st
  | set p f =>
    dsimp only [step] at st
    split at st
    case h_1 out =>
      cases st
      exact .set out
    case h_2 => cases st

lemma machine_step (st : (machine n call owner).step s a = some s') : a.rank < n ∧ Step call owner s a s' := by
  dsimp only [machine] at st
  split at st
  case isTrue lt => exact ⟨lt, .of_step st⟩
  case isFalse => cases st

/-! ## What a call returns -/

/-- Whoever has returned success was in a call in which all routines succeeded. -/
def Honest (s : State O C L α) : Prop := ∀ p r, r ∈ s.returned p → r.1 = true → ∀ b ∈ r.2, b = true

/-- A routine has failed in the call of a rank, which goes on. -/
def Lost (s : State O C L α) (p : Nat) : Prop := ∃ f, s.frame p = some f ∧ f.ok = true ∧ false ∈ f.ended

lemma Step.returned (st : Step call owner s a s') : s'.returned = s.returned ∨ ∃ p f, a = .ret p ∧
    s.frame p = some f ∧
      s'.returned = update s.returned p (s.returned p ++ [(f.ok, f.ended)]) := by
  cases st with
  | enter | instr | succeed | close | fail | set => exact .inl rfl
  | ret at_p => exact .inr ⟨_, _, rfl, at_p, rfl⟩

/-- A return stays honest if and only if no failure has got lost in the call. -/
theorem honest_step (st : Step call owner s a s') (H : Honest s) : Honest s' ↔ ∀ p, a = .ret p → ¬ Lost s p := by
  obtain same | ⟨p, f, rfl, at_p, returned⟩ := st.returned
  · constructor
    · rintro - p rfl ⟨f, at_p, ok, lost⟩
      cases st with
      | ret at_p' =>
        have long := congrArg List.length (congrFun same p)
        dsimp only at long
        rw [update_self, length_append, length_singleton] at long
        omega
    · intro _
      rw [Honest, same]
      exact H
  · constructor
    · rintro H' r is ⟨f', at_r, ok, lost⟩
      cases is
      cases at_p.symm.trans at_r
      have mem : (f.ok, f.ended) ∈ s'.returned p := by
        rw [returned, update_self]
        exact mem_append_right _ mem_cons_self
      cases H' p _ mem ok false lost
    · intro kept q r mem ok b isB
      rw [returned] at mem
      by_cases same : q = p
      · rw [same, update_self] at mem
        obtain before | last := mem_append.1 mem
        · exact H p r before ok b isB
        · cases mem_singleton.1 last
          cases b with
          | true => rfl
          | false => exact absurd ⟨f, at_p, ok, isB⟩ (kept p rfl)
      · rw [update_of_ne same] at mem
        exact H q r mem ok b isB

/-! ## Where a rank is -/

/-- What holds when a rank enters its call, and is kept by all that it does there. -/
structure Kept (call : Nat → List (Routine O C L)) (I : Frame O C L → Prop) : Prop where
  enter : ∀ p, I ⟨[], [], true, call p⟩
  instr : ∀ done ended ok checked x acts rest, I ⟨done, ended, ok, ⟨checked, .instr x :: acts⟩ :: rest⟩ →
    I ⟨done ++ [x], ended, ok, ⟨checked, acts⟩ :: rest⟩
  succeed : ∀ done ended ok checked o acts rest, I ⟨done, ended, ok,
    ⟨checked, .attempt o :: acts⟩ :: rest⟩ →
    I ⟨done, ended, ok, ⟨checked, acts⟩ :: rest⟩
  close : ∀ done ended ok checked rest, I ⟨done, ended, ok, ⟨checked, []⟩ :: rest⟩ →
    I ⟨done, ended ++ [true], ok, rest⟩
  fail : ∀ done ended ok checked o acts rest, I ⟨done, ended, ok, ⟨checked, .attempt o :: acts⟩ :: rest⟩ →
    I (if checked then ⟨done, ended ++ [false], false, []⟩ else ⟨done, ended ++ [false], ok, rest⟩)

lemma Kept.frame {I : Frame O C L → Prop} (K : Kept call I) (h : (machine n call owner).Reach g s)
    (at_p : s.frame p = some f) : I f := by
  induction h generalizing p f with
  | init start =>
    rw [start.2.1 p] at at_p
    cases at_p
  | @step s a s' h allowed st ih =>
    obtain ⟨-, st⟩ := machine_step st
    have moved {q : Nat} {o : Option (Frame O C L)} {old : Nat → Option (Frame O C L)}
        (isF : update old q o p = some f) : (p = q ∧ o = some f) ∨ old p = some f := by
      by_cases same : p = q
      · rw [same, update_self] at isF
        exact .inl ⟨same, isF⟩
      · rw [update_of_ne same] at isF
        exact .inr isF
    cases st with
    | enter out =>
      obtain ⟨rfl, is⟩ | before := moved at_p
      · cases is
        exact K.enter p
      · exact ih before
    | instr at_q ex =>
      obtain ⟨rfl, is⟩ | before := moved at_p
      · cases is
        exact K.instr _ _ _ _ _ _ _ (ih at_q)
      · exact ih before
    | succeed at_q =>
      obtain ⟨rfl, is⟩ | before := moved at_p
      · cases is
        exact K.succeed _ _ _ _ _ _ _ (ih at_q)
      · exact ih before
    | close at_q =>
      obtain ⟨rfl, is⟩ | before := moved at_p
      · cases is
        exact K.close _ _ _ _ _ (ih at_q)
      · exact ih before
    | fail at_q =>
      obtain ⟨rfl, is⟩ | before := moved at_p
      · cases is
        exact K.fail _ _ _ _ _ _ _ (ih at_q)
      · exact ih before
    | ret at_q =>
      obtain ⟨-, is⟩ | before := moved at_p
      · cases is
      · exact ih before
    | set out => exact ih at_p

lemma ok_of_plain (h : (machine n call owner).Reach g s)
    (plain : ∀ p, ∀ r ∈ call p, r.checked = true → ∀ o, .attempt o ∉ r.acts) (at_p : s.frame p = some f) :
    f.ok = true := by
  have K : Kept call fun f => f.ok = true ∧ ∀ r ∈ f.todo, r.checked = true → ∀ o, .attempt o ∉ r.acts := by
    constructor
    case enter => exact fun p => ⟨rfl, plain p⟩
    case instr =>
      rintro done ended ok checked x acts rest ⟨isOk, all⟩
      obtain ⟨first, others⟩ := forall_mem_cons.1 all
      exact ⟨isOk, forall_mem_cons.2 ⟨fun is o mem => first is o (mem_cons_of_mem _ mem), others⟩⟩
    case succeed =>
      rintro done ended ok checked o acts rest ⟨isOk, all⟩
      obtain ⟨first, others⟩ := forall_mem_cons.1 all
      exact ⟨isOk, forall_mem_cons.2 ⟨fun is o mem => first is o (mem_cons_of_mem _ mem), others⟩⟩
    case close =>
      rintro done ended ok checked rest ⟨isOk, all⟩
      exact ⟨isOk, (forall_mem_cons.1 all).2⟩
    case fail =>
      rintro done ended ok checked o acts rest ⟨isOk, all⟩
      obtain ⟨first, others⟩ := forall_mem_cons.1 all
      cases checked with
      | true => exact absurd mem_cons_self (first rfl o)
      | false => exact ⟨isOk, others⟩
  exact (K.frame h at_p).1

lemma not_lost (h : (machine n call owner).Reach g s) (all : ∀ p, ∀ r ∈ call p, r.checked = true) :
    ¬ Lost s p := by
  have K : Kept call fun f => (f.ok = true → false ∉ f.ended) ∧ ∀ r ∈ f.todo, r.checked = true := by
    constructor
    case enter => exact fun p => ⟨fun _ => not_mem_nil, all p⟩
    case instr =>
      rintro done ended ok checked x acts rest ⟨good, all⟩
      obtain ⟨first, others⟩ := forall_mem_cons.1 all
      exact ⟨good, forall_mem_cons.2 ⟨first, others⟩⟩
    case succeed =>
      rintro done ended ok checked o acts rest ⟨good, all⟩
      obtain ⟨first, others⟩ := forall_mem_cons.1 all
      exact ⟨good, forall_mem_cons.2 ⟨first, others⟩⟩
    case close =>
      rintro done ended ok checked rest ⟨good, all⟩
      refine ⟨fun isOk mem => ?_, (forall_mem_cons.1 all).2⟩
      obtain before | last := mem_append.1 mem
      · exact good isOk before
      · cases mem_singleton.1 last
    case fail =>
      rintro done ended ok checked o acts rest ⟨-, all⟩
      obtain rfl : checked = true := (forall_mem_cons.1 all).1
      exact ⟨Bool.noConfusion, fun r mem => absurd mem not_mem_nil⟩
  rintro ⟨f, at_p, ok, lost⟩
  exact (K.frame h at_p).1 ok lost

end Kupl.Script.Faulty
