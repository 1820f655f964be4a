import Mathlib.Tactic.Linarith

/-!
# Checked signed arithmetic

The operations of a signed machine integer of `w` bits on mathematical integers: `none` where the
result leaves the type, or where a divisor is `0`. A computation written with them returns `some`
value if and only if none of its operations overflows; `add_eq` and its companions take an operation
whose result fits back to the mathematical one.
-/

namespace Kupl.Word

section Checked

/-- The values of a signed type of `w` bits. -/
def Fits (w : Nat) (x : Int) : Prop := -2 ^ (w - 1) ≤ x ∧ x < 2 ^ (w - 1)

instance (w : Nat) (x : Int) : Decidable (Fits w x) := inferInstanceAs (Decidable (_ ∧ _))

/-- A result that has to fit. -/
def checked (w : Nat) (x : Int) : Option Int := if Fits w x then some x else none

/-- `a + b` -/
def add (w : Nat) (a b : Int) : Option Int := checked w (a + b)

/-- `a - b` -/
def sub (w : Nat) (a b : Int) : Option Int := checked w (a - b)

/-- `a * b` -/
def mul (w : Nat) (a b : Int) : Option Int := checked w (a * b)

/-- `-a` -/
def neg (w : Nat) (a : Int) : Option Int := checked w (-a)

/-- `a / b`, rounded to zero. -/
def div (w : Nat) (a b : Int) : Option Int := if b = 0 then none else checked w (a.tdiv b)

/-- `a % b`; the quotient has to fit as well. -/
def mod (w : Nat) (a b : Int) : Option Int :=
  if b = 0 then none else (checked w (a.tdiv b)).map fun _ => a.tmod b

variable {w : Nat} {a b c : Int}

lemma fits64_iff : Fits 64 a ↔ -9223372036854775808 ≤ a ∧ a ≤ 9223372036854775807 := by
  unfold Fits
  norm_num
  omega

/-- What lies between values of the type is one. -/
lemma Fits.between (ha : Fits w a) (hc : Fits w c) (ab : a ≤ b) (bc : b ≤ c) : Fits w b :=
  ⟨ha.1.trans ab, bc.trans_lt hc.2⟩

lemma checked_eq (h : Fits w a) : checked w a = some a := if_pos h

lemma checked_none (h : ¬Fits w a) : checked w a = none := if_neg h

lemma checked_eq_some : checked w a = some b ↔ Fits w a ∧ b = a := by
  unfold checked
  split
  · rename_i h
    simp [h, eq_comm]
  · rename_i h
    simp [h]

lemma add_eq_some : add w a b = some c ↔ Fits w (a + b) ∧ c = a + b := checked_eq_some

lemma mul_eq_some : mul w a b = some c ↔ Fits w (a * b) ∧ c = a * b := checked_eq_some

lemma add_eq (h : Fits w (a + b)) : add w a b = some (a + b) := checked_eq h

lemma sub_eq (h : Fits w (a - b)) : sub w a b = some (a - b) := checked_eq h

lemma mul_eq (h : Fits w (a * b)) : mul w a b = some (a * b) := checked_eq h

lemma neg_eq (h : Fits w (-a)) : neg w a = some (-a) := checked_eq h

lemma add_none (h : ¬Fits w (a + b)) : add w a b = none := checked_none h

lemma sub_none (h : ¬Fits w (a - b)) : sub w a b = none := checked_none h

lemma div_eq (ne : b ≠ 0) (h : Fits w (a.tdiv b)) : div w a b = some (a.tdiv b) := by
  rw [div, if_neg ne, checked_eq h]

lemma mod_eq (ne : b ≠ 0) (h : Fits w (a.tdiv b)) : mod w a b = some (a.tmod b) := by
  rw [mod, if_neg ne, checked_eq h]
  rfl

/-- A nonnegative value divided by a positive one fits. -/
lemma Fits.tdiv (ha : Fits w a) (nonneg : 0 ≤ a) (pos : 0 < b) : Fits w (a.tdiv b) := by
  have le : a.tdiv b ≤ a := by
    rw [Int.tdiv_eq_ediv_of_nonneg nonneg]
    exact Int.ediv_le_self b nonneg
  have low : 0 ≤ a.tdiv b := Int.tdiv_nonneg nonneg pos.le
  exact ⟨(neg_nonpos.2 (by positivity)).trans low, le.trans_lt ha.2⟩

/-- A quotient fits unless it is that of the least value by `-1`. -/
lemma Fits.tdiv_of_ne (ha : Fits w a) (h : b ≠ -1 ∨ a ≠ -2 ^ (w - 1)) : Fits w (a.tdiv b) := by
  have abs : (a.tdiv b).natAbs ≤ a.natAbs := Int.natAbs_tdiv_le_natAbs a b
  have pos : (0 : Int) < 2 ^ (w - 1) := by positivity
  unfold Fits at ha ⊢
  generalize (2 : Int) ^ (w - 1) = P at *
  have strict : a = -P → a.tdiv b < P := by
    intro least
    have ne : b ≠ -1 := by omega
    have quot : (a.tdiv b).natAbs = a.natAbs / b.natAbs := Int.natAbs_tdiv a b
    have size : b.natAbs = 0 ∨ b = 1 ∨ 2 ≤ b.natAbs := by omega
    obtain zero | one | two := size
    · rw [zero, Nat.div_zero] at quot
      omega
    · rw [one, Int.tdiv_one]
      omega
    · have less : a.natAbs / b.natAbs < a.natAbs := Nat.div_lt_self (by omega) (by omega)
      omega
  by_cases least : a = -P
  · omega
  · omega

end Checked

/-!
## Rounding up with a mask

`(n + a - 1) & ~(a - 1)`, in words of 64 bits. Where nothing overflows the result is at least `n` and less than
`n + a`, whether or not `a` is a power of two.
-/

section Align
/-- A length that is rounded up. -/
def alignUp (n align : BitVec 64) : BitVec 64 := (n + align - 1) &&& ~~~(align - 1)

variable {n align x m : BitVec 64}

/-- A word is what a mask keeps of it and what the mask clears. -/
lemma and_add_and_not : (x &&& m) + (x &&& ~~~m) = x := by
  rw [BitVec.add_eq_or_of_and_eq_zero]
  · rw [← BitVec.and_or_distrib_left, BitVec.or_not_self, BitVec.and_allOnes]
  · rw [BitVec.and_comm x (~~~m), BitVec.and_assoc, ← BitVec.and_assoc m, BitVec.and_not_self]
    simp

section Fits
variable (pos : 0 < align.toNat) (room : n.toNat + align.toNat ≤ 2 ^ 64)
include pos room

lemma toNat_masked : (n + align - 1).toNat = n.toNat + (align.toNat - 1) := by
  bv_omega

/-- Rounding up does not make smaller. -/
lemma le_alignUp : n.toNat ≤ (alignUp n align).toNat := by
  have sum := congrArg BitVec.toNat (@and_add_and_not (n + align - 1) (align - 1))
  have mask : (align - 1).toNat = align.toNat - 1 := by bv_omega
  -- the bits that are cleared are worth at most the mask
  have low : ((n + align - 1) &&& (align - 1)).toNat ≤ align.toNat - 1 := by
    rw [BitVec.toNat_and, mask]
    exact Nat.and_le_right
  have high := ((n + align - 1) &&& ~~~(align - 1)).isLt
  rw [BitVec.toNat_add, toNat_masked pos room] at sum
  rw [alignUp]
  omega

/-- Rounding up adds less than the alignment. -/
lemma alignUp_lt : (alignUp n align).toNat < n.toNat + align.toNat := by
  have cut : (alignUp n align).toNat ≤ (n + align - 1).toNat := by
    rw [alignUp, BitVec.toNat_and]
    exact Nat.and_le_left
  rw [toNat_masked pos room] at cut
  omega

end Fits

end Align
end Kupl.Word
