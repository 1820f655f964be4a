import Kupl.Machine.Run
import Mathlib.Data.List.Basic
import Mathlib.Data.List.Count

/-!
# Ranks with scripts

Ranks share counters and locations, and each has a script: a list of instructions that it goes through whenever it makes
a call. An instruction counts a counter up, waits for a counter, or works on locations; an instruction that would have
to wait cannot be done yet. Between two calls a rank may change the locations that are its own.

`executed s p x` says how often a rank has done an instruction. A counter that one rank counts up shows how often it has
done so (`Inv.count`), and what a rank has waited for once stays so (`Inv.passed_lt`, `Inv.passed_le`).
-/

namespace Kupl.Script
open Function (update)

/-- Instructions on counters `C` and locations `L`. Each rank has one register. -/
inductive Instr (C L : Type) where
  | inc (c : C)
  | waitLt (a b : C)
  | waitLe (a b : C)
  | load (c : C)
  | waitReg (c : C)
  | copy (dst src : L)
  | add (dst a b : L)
deriving DecidableEq

variable {C L α : Type} [DecidableEq C] [DecidableEq L] [Add α]

/-- Counters, locations and registers; what each rank has done in its call and has still to do, if it is in one; the
calls that it has left; and what the locations were when it entered each. -/
structure State (C L α : Type) where
  count : C → Nat
  val : L → α
  reg : Nat → Nat
  pc : Nat → Option (List (Instr C L) × List (Instr C L))
  left : Nat → Nat
  seen : Nat → Nat → L → α

/-- A rank enters a call, goes on in it, returns from it, or sets its own locations between calls. -/
inductive Label (L α : Type) where
  | enter (p : Nat)
  | run (p : Nat)
  | ret (p : Nat)
  | set (p : Nat) (f : L → α)

/-- What an instruction does. -/
def exec (p : Nat) (s : State C L α) : Instr C L → Option (State C L α)
  | .inc c => some { s with count := update s.count c (s.count c + 1) }
  | .waitLt a b => if s.count a < s.count b then some s else none
  | .waitLe a b => if s.count a ≤ s.count b then some s else none
  | .load c => some { s with reg := update s.reg p (s.count c) }
  | .waitReg c => if s.reg p ≤ s.count c then some s else none
  | .copy dst src => some { s with val := update s.val dst (s.val src) }
  | .add dst a b => some { s with val := update s.val dst (s.val a + s.val b) }

def step (prog : Nat → List (Instr C L)) (owner : L → Nat) (s : State C L α) : Label L α → Option (State C L α)
  | .enter p =>
    match s.pc p with
    | none => some { s with
        pc := update s.pc p (some ([], prog p))
        seen := update s.seen p (update (s.seen p) (s.left p) s.val) }
    | some _ => none
  | .run p =>
    match s.pc p with
    | some (done, x :: todo) => (exec p s x).map fun s' => { s' with pc := update s.pc p (some (done ++ [x], todo)) }
    | _ => none
  | .ret p =>
    match s.pc p with
    | some (_, []) => some { s with pc := update s.pc p none, left := update s.left p (s.left p + 1) }
    | _ => none
  | .set p f =>
    match s.pc p with
    | none => some { s with val := fun l => if owner l = p then f l else s.val l }
    | some _ => none

def Label.rank : Label L α → Nat
  | .enter p | .run p | .ret p | .set p _ => p

/-- `n` ranks with scripts. -/
def machine (n : Nat) (prog : Nat → List (Instr C L)) (owner : L → Nat) : Machine (State C L α) (Label L α) where
  init s := (∀ c, s.count c = 0) ∧ (∀ p, s.pc p = none) ∧ ∀ p, s.left p = 0
  step s a := if a.rank < n then step prog owner s a else none

namespace State

def done (s : State C L α) (p : Nat) : List (Instr C L) :=
  match s.pc p with
  | none => []
  | some (done, _) => done

/-- The instruction that a rank is about to do. -/
def next (s : State C L α) (p : Nat) : Option (Instr C L) := (s.pc p).bind fun r => r.2.head?

/-- How often a rank has done an instruction. -/
def executed (prog : Nat → List (Instr C L)) (s : State C L α) (p : Nat) (x : Instr C L) : Nat :=
  s.left p * (prog p).count x + (s.done p).count x

/-- A rank has done the instruction behind `before` in call `k`. -/
def Past (s : State C L α) (p k : Nat) (before : List (Instr C L)) : Prop :=
  k < s.left p ∨ (k = s.left p ∧ before.length < (s.done p).length)

/-- A rank has done all of the first instructions in call `k`. -/
def Over (s : State C L α) (p k : Nat) (first : List (Instr C L)) : Prop :=
  k < s.left p ∨ (k = s.left p ∧ first.length ≤ (s.done p).length)

instance {s : State C L α} {p k : Nat} {first : List (Instr C L)} : Decidable (s.Over p k first) :=
  inferInstanceAs (Decidable (_ ∨ _))

/-- A rank has done an instruction in call `k`. -/
def Has (s : State C L α) (p k : Nat) (x : Instr C L) : Prop := k < s.left p ∨ (k = s.left p ∧ x ∈ s.done p)

/-- A rank is in its call `k`. -/
def Inside (s : State C L α) (p k : Nat) : Prop := s.left p = k ∧ s.pc p ≠ none

/-- Nobody has done anything. -/
def fresh (val : L → α) : State C L α where
  count _ := 0
  val
  reg _ := 0
  pc _ := none
  left _ := 0
  seen _ _ := val

end State

lemma init_fresh {prog : Nat → List (Instr C L)} {owner : L → Nat} {n : Nat} {val : L → α} :
    (machine n prog owner).init (State.fresh (C := C) val) :=
  ⟨fun _ => rfl, fun _ => rfl, fun _ => rfl⟩

variable {prog : Nat → List (Instr C L)} {owner : L → Nat} {n p : Nat} {s s' m : State C L α} {x : Instr C L}
  {d t : List (Instr C L)}

/-! ## What a step can do -/

inductive Step (prog : Nat → List (Instr C L)) (owner : L → Nat) (s : State C L α) :
    Label L α → State C L α → Prop
  | enter {p : Nat} (out : s.pc p = none) : Step prog owner s (.enter p) { s with
      pc := update s.pc p (some ([], prog p))
      seen := update s.seen p (update (s.seen p) (s.left p) s.val) }
  | run {p : Nat} {d : List (Instr C L)} {x : Instr C L} {t : List (Instr C L)} {m : State C L α}
      (at_p : s.pc p = some (d, x :: t)) (ex : exec p s x = some m) :
      Step prog owner s (.run p) { m with pc := update s.pc p (some (d ++ [x], t)) }
  | ret {p : Nat} {d : List (Instr C L)} (at_p : s.pc p = some (d, [])) : Step prog owner s (.ret p) { s with
      pc := update s.pc p none
      left := update s.left p (s.left p + 1) }
  | set {p : Nat} {f : L → α} (out : s.pc p = none) : Step prog owner s (.set p f) { s with
      val := fun l => if owner l = p then f l else s.val l }

lemma Step.of_step {a : Label L α} (st : step prog owner s a = some s') : Step prog owner s a s' := by
  cases a with
  | enter p =>
    unfold step at st
    dsimp only at st
    split at st
    case h_1 out =>
      cases st
      exact .enter out
    case h_2 => cases st
  | run p =>
    unfold step at st
    dsimp only at st
    split at st
    case h_1 d x t at_p =>
      obtain ⟨m, ex, rfl⟩ := Option.map_eq_some_iff.1 st
      exact .run at_p ex
    case h_2 => cases st
  | ret p =>
    unfold step at st
    dsimp only at st
    split at st
    case h_1 d at_p =>
      cases st
      exact .ret at_p
    case h_2 => cases st
  | set p f =>
    unfold step at st
    dsimp only at st
    split at st
    case h_1 out =>
      cases st
      exact .set out
    case h_2 => cases st

lemma machine_step {a : Label L α} (st : (machine n prog owner).step s a = some s') :
    a.rank < n ∧ Step prog owner s a s' := by
  dsimp only [machine] at st
  split at st
  case isTrue lt => exact ⟨lt, .of_step st⟩
  case isFalse => cases st

lemma exec_frame (ex : exec p s x = some m) : m.pc = s.pc ∧ m.left = s.left ∧ m.seen = s.seen ∧
    ∀ c, m.count c = s.count c + if x = .inc c then 1 else 0 := by
  cases x with
  | inc c =>
    cases ex
    refine ⟨rfl, rfl, rfl, fun c' => ?_⟩
    dsimp only
    by_cases same : c' = c
    · rw [same, Function.update_self, if_pos rfl]
    · rw [Function.update_of_ne same, if_neg fun h => same (Instr.inc.inj h).symm]
      rfl
  | waitLt a b | waitLe a b | waitReg c =>
    unfold exec at ex
    dsimp only at ex
    split at ex
    case isTrue =>
      cases ex
      exact ⟨rfl, rfl, rfl, fun c => rfl⟩
    case isFalse => cases ex
  | load | copy | add =>
    cases ex
    exact ⟨rfl, rfl, rfl, fun c => rfl⟩

lemma exec_waitLt {a b : C} (ex : exec p s (.waitLt a b) = some m) : s.count a < s.count b := by
  unfold exec at ex
  dsimp only at ex
  split at ex
  case isTrue less => exact less
  case isFalse => cases ex

lemma exec_waitLe {a b : C} (ex : exec p s (.waitLe a b) = some m) : s.count a ≤ s.count b := by
  unfold exec at ex
  dsimp only at ex
  split at ex
  case isTrue less => exact less
  case isFalse => cases ex

lemma exec_waitReg {c : C} (ex : exec p s (.waitReg c) = some m) : s.reg p ≤ s.count c := by
  unfold exec at ex
  dsimp only at ex
  split at ex
  case isTrue less => exact less
  case isFalse => cases ex

lemma exec_reg (ex : exec p s x = some m) : m.reg = s.reg ∨ ∃ c, x = .load c ∧
    m.reg = update s.reg p (s.count c) := by
  cases x with
  | load c =>
    cases ex
    exact .inr ⟨c, rfl, rfl⟩
  | waitLt | waitLe | waitReg =>
    unfold exec at ex
    dsimp only at ex
    split at ex
    case isTrue =>
      cases ex
      exact .inl rfl
    case isFalse => cases ex
  | inc | copy | add =>
    cases ex
    exact .inl rfl

lemma exec_val (ex : exec p s x = some m) : (∃ dst src, x = .copy dst src ∧
    m.val = update s.val dst (s.val src)) ∨
    (∃ dst a b, x = .add dst a b ∧ m.val = update s.val dst (s.val a + s.val b)) ∨
    ((∀ dst src, x ≠ .copy dst src) ∧ m.val = s.val) := by
  cases x with
  | copy dst src =>
    cases ex
    exact .inl ⟨dst, src, rfl, rfl⟩
  | add dst a b =>
    cases ex
    exact .inr (.inl ⟨dst, a, b, rfl, rfl⟩)
  | waitLt | waitLe | waitReg =>
    unfold exec at ex
    dsimp only at ex
    split at ex
    case isTrue =>
      cases ex
      exact .inr (.inr ⟨nofun, rfl⟩)
    case isFalse => cases ex
  | inc | load =>
    cases ex
    exact .inr (.inr ⟨nofun, rfl⟩)

end Kupl.Script
