import Kupl.Script.Basic
import Mathlib.Algebra.Group.Int.Defs
import Mathlib.Algebra.Group.Nat.Defs

/-!
# Counters of 32 bits

The counters of ranks with scripts as signed words: `flag c` is the word that has been counted up `c` times, and waits
compare what these words show. Where no counter overflows, all waits are as they should be, and the runs are those of
the ranks with unbounded counters (`Low.kept`, `Low.unbounded`).
-/

namespace Kupl.Script

/-- A word that has been counted up from zero. -/
def flag (count : Nat) : BitVec 32 := .ofNat 32 count

def shown (count : Nat) : Int := (flag count).toInt

def overflows (count : Nat) : Nat := (count + 2 ^ 31) / 2 ^ 32

lemma shown_eq {c : Nat} : shown c = c - 2 ^ 32 * overflows c := by
  rw [shown, flag, BitVec.toInt_ofNat', overflows, Int.bmod_def]
  split_ifs <;> omega

lemma shown_low {c : Nat} (low : c < 2 ^ 31) : shown c = c := by
  have none : overflows c = 0 := by
    rw [overflows]
    omega
  rw [shown_eq, none]
  omega

variable {C L α : Type} [DecidableEq C] [DecidableEq L] [Add α]

/-- What an instruction does when counters are words. -/
def exec32 (p : Nat) (s : State C L α) : Instr C L → Option (State C L α)
  | .waitLt a b => if shown (s.count a) < shown (s.count b) then some s else none
  | .waitLe a b => if shown (s.count a) ≤ shown (s.count b) then some s else none
  | .waitReg c => if shown (s.reg p) ≤ shown (s.count c) then some s else none
  | x => exec p s x

def step32 (prog : Nat → List (Instr C L)) (owner : L → Nat) (s : State C L α) :
    Label L α → Option (State C L α)
  | .run p =>
    match s.pc p with
    | some (done, x :: todo) =>
      (exec32 p s x).map fun s' => { s' with pc := Function.update s.pc p (some (done ++ [x], todo)) }
    | _ => none
  | a => step prog owner s a

/-- `n` ranks with scripts and counters of 32 bits, whose registers are empty at first. -/
def machine32 (n : Nat) (prog : Nat → List (Instr C L)) (owner : L → Nat) :
    Machine (State C L α) (Label L α) where
  init s := (machine n prog owner).init s ∧ ∀ p, s.reg p = 0
  step s a := if a.rank < n then step32 prog owner s a else none

/-- What every rank does next it does as if counters were unbounded: it goes on from no wait too early, and waits for
nothing that it need not wait for. -/
def Kept (s : State C L α) : Prop := ∀ p x, s.next p = some x → exec32 p s x = exec p s x

def Instr.counts : Instr C L → Option C
  | .inc c => some c
  | _ => none

/-- No counter is counted up that shows the largest signed word. -/
def NoOverflow (s : State C L α) : Label L α → Prop
  | .run p => ∀ c ∈ (s.next p).bind Instr.counts, s.count c < 2 ^ 31 - 1
  | _ => True

instance {s : State C L α} {a : Label L α} : Decidable (NoOverflow s a) :=
  match a with
  | .run p => inferInstanceAs (Decidable (∀ c ∈ (s.next p).bind Instr.counts, s.count c < 2 ^ 31 - 1))
  | .enter _ | .ret _ | .set _ _ => isTrue trivial

variable {prog : Nat → List (Instr C L)} {owner : L → Nat} {n : Nat} {s s' : State C L α}

/-- No counter, and nothing that has been loaded from one, has overflowed. -/
structure Low (s : State C L α) : Prop where
  count : ∀ c, s.count c < 2 ^ 31
  reg : ∀ p, s.reg p < 2 ^ 31

lemma Low.exec (h : Low s) (p : Nat) (x : Instr C L) : exec32 p s x = exec p s x := by
  cases x with
  | waitLt a b =>
    show (if shown (s.count a) < shown (s.count b) then some s else none) =
      if s.count a < s.count b then some s else none
    rw [shown_low (h.count a), shown_low (h.count b)]
    simp only [Int.ofNat_lt]
  | waitLe a b =>
    show (if shown (s.count a) ≤ shown (s.count b) then some s else none) =
      if s.count a ≤ s.count b then some s else none
    rw [shown_low (h.count a), shown_low (h.count b)]
    simp only [Int.ofNat_le]
  | waitReg c =>
    show (if shown (s.reg p) ≤ shown (s.count c) then some s else none) =
      if s.reg p ≤ s.count c then some s else none
    rw [shown_low (h.reg p), shown_low (h.count c)]
    simp only [Int.ofNat_le]
  | inc | load | copy | add => rfl

lemma Low.kept (h : Low s) : Kept s := fun p x _ => h.exec p x

lemma Low.step32 (h : Low s) (a : Label L α) : step32 prog owner s a = step prog owner s a := by
  cases a with
  | run p =>
    unfold Script.step32 Script.step
    dsimp only
    obtain _ | ⟨d, _ | ⟨x, t⟩⟩ := s.pc p
    · rfl
    · rfl
    · exact congrArg (Option.map _) (h.exec p x)
  | enter | ret | set => rfl

lemma Low.step {a : Label L α} (h : Low s) (ok : NoOverflow s a) (st : Step prog owner s a s') : Low s' := by
  cases st with
  | enter | ret | set => exact ⟨h.count, h.reg⟩
  | @run p d x t m at_p ex =>
    refine ⟨fun c => ?_, fun q => ?_⟩
    · show m.count c < 2 ^ 31
      rw [(exec_frame ex).2.2.2 c]
      split
      case isTrue is =>
        have less := ok c (by rw [State.next, at_p, is]; exact rfl)
        omega
      case isFalse => exact h.count c
    · show m.reg q < 2 ^ 31
      obtain reg | ⟨c, -, reg⟩ := exec_reg ex
      · rw [reg]
        exact h.reg q
      · rw [reg]
        by_cases same : q = p
        · rw [same, Function.update_self]
          exact h.count c
        · rw [Function.update_of_ne same]
          exact h.reg q

lemma unbounded (h : (machine32 n prog owner).Reach NoOverflow s) :
    (machine n prog owner).Reach NoOverflow s ∧ Low s := by
  induction h with
  | init start =>
    obtain ⟨start, reg⟩ := start
    refine ⟨.init start, fun c => ?_, fun p => ?_⟩
    · rw [start.1]
      decide
    · rw [reg]
      decide
  | @step s a s' _ ok st ih =>
    obtain ⟨h, low⟩ := ih
    have st : (machine n prog owner).step s a = some s' := by
      dsimp only [machine32] at st
      rw [low.step32] at st
      exact st
    exact ⟨.step h ok st, low.step ok (machine_step st).2⟩

end Kupl.Script
