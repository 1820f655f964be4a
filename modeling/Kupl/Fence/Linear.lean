import Kupl.Fence.Flags
import Kupl.Machine.Run
import Kupl.Sync.Positions

/-!
# The linear fence (`kupl_fence_linear.cpp`)

All ranks of a communicator go through `kupl_fence_linear_wait` again and again: `machine`. A rank changes its flag in
one of two slots, and waits until it has seen the new value in the flags of all ranks, one after the other. A read or a
write of a flag is one step, and a wait that finds another value leaves everything as it is.

`left` counts the fences that a rank has left. `written` counts those in which it has changed its flag.
-/

namespace Kupl.Fence.Linear
open Sync
open Function (apply_update forall_update_iff update update_of_ne update_self)

/-- Where a rank is. -/
inductive Pc where
  | out
  | read
  | write (flagVal : Int)
  | wait (pi : Nat) (flagVal : Int)
deriving DecidableEq

structure State where
  win : Window
  flagIdx : Nat → Nat
  pc : Nat → Pc
  left : Nat → Nat

namespace State

def goto (s : State) (p : Nat) (pc : Pc) : State := { s with pc := update s.pc p pc }

/-- A rank leaves the fence and goes on to the other slot. -/
def leave (s : State) (p : Nat) : State := { s with
  flagIdx := update s.flagIdx p (1 - s.flagIdx p)
  pc := update s.pc p .out
  left := update s.left p (s.left p + 1) }

end State

/-- A rank enters the fence, or goes on in it. -/
inductive Label where
  | enter (p : Nat)
  | run (p : Nat)

/-- A step of a rank in the fence (C++ `kupl_fence_linear_wait`). -/
def run (n : Nat) (s : State) (p : Nat) : Option State :=
  match s.pc p with
  | .out => none
  | .read => some (s.goto p (.write (1 - getFlag s.win true n p 0 (s.flagIdx p))))
  | .write flagVal =>
    some { s.goto p (.wait 0 flagVal) with win := setFlag s.win true n p flagVal 0 (s.flagIdx p) }
  | .wait pi flagVal =>
    if pi < n then
      if getFlag s.win true n pi 0 (s.flagIdx p) = flagVal then some (s.goto p (.wait (pi + 1) flagVal)) else some s
    else some (s.leave p)

/-- The fences of `n` ranks. -/
def machine (n : Nat) : Machine State Label where
  init s := s = ⟨fun _ _ => 0, fun _ => 0, fun _ => .out, fun _ => 0⟩
  step s
    | .enter p =>
      match s.pc p with
      | .out => if p < n then some (s.goto p .read) else none
      | _ => none
    | .run p => if p < n then run n s p else none

variable {n p q k : Nat} {s s' : State}

def Pc.place : Pc → Nat
  | .out => 0
  | .read => 1
  | .write _ => 2
  | .wait pi _ => 3 + pi

/-- One for a rank in a fence. -/
def Pc.inside : Pc → Nat
  | .out => 0
  | .read | .write _ | .wait _ _ => 1

def Pc.changed : Pc → Nat
  | .out | .read | .write _ => 0
  | .wait _ _ => 1

namespace State

def entered (s : State) (p : Nat) : Nat := s.left p + (s.pc p).inside

/-- The fences in which a rank has changed its flag. -/
def written (s : State) (p : Nat) : Nat := s.left p + (s.pc p).changed

def pos (s : State) (p : Nat) : Nat ×ₗ Nat := at_ (s.left p) (s.pc p).place

lemma written_iff : k < s.written p ↔ at_ k 3 ≤ s.pos p := by
  rw [pos, at_le, written]
  cases s.pc p <;> dsimp only [Pc.place, Pc.changed] <;> omega

lemma written_bounds : s.left p ≤ s.written p ∧ s.written p ≤ s.entered p ∧ s.entered p ≤ s.left p + 1 := by
  rw [written, entered]
  cases s.pc p <;> dsimp only [Pc.inside, Pc.changed] <;> omega

lemma pos_goto {pc : Pc} : (s.goto p pc).pos = update s.pos p (at_ (s.left p) pc.place) :=
  funext fun q => apply_update (fun q (pc : Pc) => at_ (s.left q) pc.place) s.pc p pc q

lemma written_goto {pc : Pc} : (s.goto p pc).written = update s.written p (s.left p + pc.changed) :=
  funext fun q => apply_update (fun q (pc : Pc) => s.left q + pc.changed) s.pc p pc q

lemma pos_leave : (s.leave p).pos = update s.pos p (at_ (s.left p + 1) 0) := by
  funext q
  by_cases same : q = p
  · rw [same, update_self]
    dsimp only [pos, leave]
    rw [update_self, update_self]
    rfl
  · rw [update_of_ne same]
    dsimp only [pos, leave]
    rw [update_of_ne same, update_of_ne same]

end State

/-- To go on to the next rank, a rank waits until this one has changed its flag. -/
def waits (n : Nat) : Waits Nat (Nat ×ₗ Nat) := fun _ j q t => q < n ∧ ∃ k, j = at_ k (3 + q) ∧ t = at_ k 3

/-- The value that a rank in the fence waits for. -/
def Pc.Ok (n left : Nat) : Pc → Prop
  | .out | .read => True
  | .write flagVal => flagVal = toggle 2 (left % 2) (left + 1)
  | .wait pi flagVal => pi ≤ n ∧ flagVal = toggle 2 (left % 2) (left + 1)

/-- The invariant: every slot holds what the changes of its rank have made of it, and nobody has gone on early. -/
structure Inv (n : Nat) (s : State) : Prop where
  idx : ∀ p < n, s.flagIdx p = s.left p % 2
  pc : ∀ p < n, (s.pc p).Ok n (s.left p)
  flag : ∀ p < n, ∀ i < 2, getFlag s.win true n p 0 i = toggle 2 i (s.written p)
  passed : Passed (waits n) s.pos

lemma isFlag {i : Nat} (lt : i < 2) : IsFlag true n 0 i := ⟨rfl, by rw [flagWinSize]; omega⟩

namespace Inv

section
variable (I : Inv n s)
include I

lemma left_le (p : Nat) (lt : q < n) : s.left p ≤ s.written q := by
  by_contra before
  obtain ⟨k, isK⟩ : ∃ k, s.left p = k + 1 := ⟨s.left p - 1, by omega⟩
  have passed : at_ k 3 ≤ s.pos q := by
    refine I.passed p (at_ k (3 + q)) ?_ q _ ⟨lt, k, rfl, rfl⟩
    rw [State.pos, at_lt]
    omega
  have := State.written_iff.2 passed
  omega

lemma seen_iff {v : Int} (lt : p < n) (at_p : s.pc p = .wait q v) (lt' : q < n) :
    getFlag s.win true n q 0 (s.flagIdx p) = v ↔ s.left p < s.written q := by
  have ok := I.pc p lt
  rw [at_p] at ok
  have own := I.left_le q lt
  have bounds := State.written_bounds (s := s) (p := q)
  have bounds' := State.written_bounds (s := s) (p := p)
  rw [I.idx p lt, I.flag q lt' _ (Nat.mod_lt _ (by decide)), ok.2]
  exact toggle_eq_iff (I.left_le p lt') (by omega)

lemma moved {c : Nat} (le : (s.pc p).place ≤ c)
    (ready : ∀ q < n, (s.pc p).place ≤ 3 + q → 3 + q < c → s.left p < s.written q) :
    Passed (waits n) (update s.pos p (at_ (s.left p) c)) := by
  apply I.passed.advance
  · exact at_le.2 (.inr ⟨rfl, le⟩)
  · rintro i low high q t ⟨lt, k, rfl, rfl⟩
    rw [State.pos, at_le] at low
    rw [at_lt] at high
    have round : k = s.left p := by omega
    rw [← State.written_iff, round]
    exact ready q lt (by omega) (by omega)

lemma pc_update {pc : Pc} (ok : pc.Ok n (s.left p)) : ∀ q < n, (update s.pc p pc q).Ok n (s.left q) :=
  (forall_update_iff s.pc fun q pc => q < n → pc.Ok n (s.left q)).2 ⟨fun _ => ok, fun q _ => I.pc q⟩

lemma goto (pc : Pc) (ok : pc.Ok n (s.left p)) (le : (s.pc p).place ≤ pc.place)
    (ready : ∀ q < n, (s.pc p).place ≤ 3 + q → 3 + q < pc.place → s.left p < s.written q)
    (same : pc.changed = (s.pc p).changed) : Inv n (s.goto p pc) := by
  refine ⟨I.idx, I.pc_update ok, fun q lt' i small => ?_, ?_⟩
  · have written : (s.goto p pc).written = s.written := by
      rw [State.written_goto, same]
      exact Function.update_eq_self p s.written
    rw [written]
    exact I.flag q lt' i small
  · rw [State.pos_goto]
    exact I.moved le ready

lemma write (lt : p < n) {v : Int} (at_p : s.pc p = .write v) :
    Inv n { s.goto p (.wait 0 v) with win := setFlag s.win true n p v 0 (s.flagIdx p) } := by
  have ok := I.pc p lt
  rw [at_p] at ok
  have idx := I.idx p lt
  have small : s.flagIdx p < 2 := by omega
  have before : s.written p = s.left p := by
    rw [State.written, at_p]
    rfl
  refine ⟨I.idx, I.pc_update ⟨Nat.zero_le n, ok⟩, fun q lt' i lt_i => ?_, ?_⟩
  · show getFlag (setFlag s.win true n p v 0 (s.flagIdx p)) true n q 0 i =
      toggle 2 i ((s.goto p (.wait 0 v)).written q)
    rw [getFlag_setFlag (isFlag small) (isFlag lt_i), State.written_goto]
    by_cases isP : q = p
    · rw [isP, update_self]
      dsimp only [Pc.changed]
      by_cases isIdx : i = s.flagIdx p
      · rw [if_pos ⟨rfl, rfl, rfl, isIdx⟩, isIdx, idx]
        exact ok
      · rw [if_neg fun h => isIdx h.2.2.2, I.flag p lt i lt_i, before, toggle_succ_ne]
        exact fun h => isIdx (h.symm.trans idx.symm)
    · rw [if_neg fun h => isP h.1, update_of_ne isP]
      exact I.flag q lt' i lt_i
  · have place : (s.pc p).place = 2 := by rw [at_p]; rfl
    show Passed (waits n) (s.goto p (.wait 0 v)).pos
    rw [State.pos_goto]
    apply I.moved
    · rw [place]
      exact Nat.le_succ 2
    · intro q _ _ above
      exact absurd above (by dsimp only [Pc.place]; omega)

lemma leave (lt : p < n) {v : Int} {pi : Nat} (at_p : s.pc p = .wait pi v) (all : ¬ pi < n) : Inv n (s.leave p) := by
  have idx := I.idx p lt
  have written (q) : (s.leave p).written q = s.written q := by
    rw [State.written, State.written, State.leave]
    dsimp only
    by_cases isP : q = p
    · rw [isP, update_self, update_self, at_p]
      rfl
    · rw [update_of_ne isP, update_of_ne isP]
  refine ⟨fun q lt' => ?_, fun q lt' => ?_, fun q lt' i small => ?_, ?_⟩
  · by_cases isP : q = p
    · rw [isP]
      dsimp only [State.leave]
      rw [update_self, update_self]
      omega
    · dsimp only [State.leave]
      rw [update_of_ne isP, update_of_ne isP]
      exact I.idx q lt'
  · by_cases isP : q = p
    · rw [isP]
      show (update s.pc p .out p).Ok n _
      rw [update_self]
      exact trivial
    · dsimp only [State.leave]
      rw [update_of_ne isP, update_of_ne isP]
      exact I.pc q lt'
  · rw [written]
    exact I.flag q lt' i small
  · rw [State.pos_leave]
    apply I.passed.advance
    · rw [State.pos, at_le]
      omega
    · rintro i low high q t ⟨lt', k, rfl, rfl⟩
      rw [State.pos, at_p, at_le] at low
      rw [at_lt] at high
      dsimp only [Pc.place] at low
      omega

lemma run (lt : p < n) (st : run n s p = some s') : Inv n s' := by
  unfold Linear.run at st
  cases at_p : s.pc p with
  | out =>
    rw [at_p] at st
    cases st
  | read =>
    rw [at_p] at st
    cases st
    have value : 1 - getFlag s.win true n p 0 (s.flagIdx p) = toggle 2 (s.left p % 2) (s.left p + 1) := by
      have written : s.written p = s.left p := by
        rw [State.written, at_p]
        rfl
      rw [I.idx p lt, I.flag p lt _ (Nat.mod_lt _ (by decide)), written, toggle_succ_self]
    apply I.goto (.write _) value
    · rw [at_p]
      exact Nat.le_succ 1
    · intro q _ _ above
      exact absurd above (by dsimp only [Pc.place]; omega)
    · rw [at_p]
      rfl
  | write v =>
    rw [at_p] at st
    cases st
    exact I.write lt at_p
  | wait pi v =>
    rw [at_p] at st
    dsimp only at st
    split at st
    case isFalse all =>
      cases st
      exact I.leave lt at_p all
    case isTrue lt_pi =>
      split at st
      case isFalse =>
        cases st
        exact I
      case isTrue seen =>
        cases st
        have ok := I.pc p lt
        rw [at_p] at ok
        have written := (I.seen_iff lt at_p lt_pi).1 seen
        refine I.goto (.wait (pi + 1) v) ⟨lt_pi, ok.2⟩ ?_ ?_ ?_
        · rw [at_p]
          exact Nat.le_succ _
        · intro q _ low high
          rw [at_p] at low
          dsimp only [Pc.place] at low high
          have isPi : q = pi := by omega
          rwa [isPi]
        · rw [at_p]
          rfl

end

lemma reachable (h : (machine n).Reachable s) : Inv n s := by
  refine h.inv (fun s start => ?_) fun s a s' I _ st => ?_
  · cases start
    refine ⟨fun _ _ => rfl, fun _ _ => trivial, fun _ _ i _ => ?_, fun p j before => ?_⟩
    · exact (toggle_zero).symm
    · exact absurd before (not_lt.2 (start_le j))
  · cases a with
    | enter p =>
      dsimp only [machine] at st
      split at st
      case h_1 at_p =>
        split at st
        case isTrue lt =>
          cases st
          apply I.goto .read trivial
          · rw [at_p]
            exact Nat.zero_le _
          · intro q _ _ above
            exact absurd above (by dsimp only [Pc.place]; omega)
          · rw [at_p]
            rfl
        case isFalse => cases st
      case h_2 => cases st
    | run p =>
      obtain ⟨lt, st⟩ := Option.ite_none_right_eq_some.1 st
      exact I.run lt st

end Inv
end Kupl.Fence.Linear
