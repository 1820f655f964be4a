import Mathlib.Tactic.Ring
import Mathlib.Data.Nat.Log

/-!
# Doubling

In step `i` each of `2 ^ L` ranks meets its partner at distance `2 ^ i`, so that after it those of a block of `2 ^ i`
ranks have met directly or through others. `block_reached`: who has made `i` steps has all of its block behind it, and
with `i = L` all ranks.
-/

namespace Kupl.Sync

/-- The rank at a distance that shares a block of twice the size. -/
def partner (leap r : Nat) : Nat := if r / leap % 2 = 0 then r + leap else r - leap

variable {leap i L r q : Nat}

lemma partner_even (even : r / leap % 2 = 0) : partner leap r = r + leap := if_pos even

lemma partner_odd (odd : r / leap % 2 = 1) : partner leap r = r - leap := if_neg (by omega)

/-- The second one of a block has a whole part in front of it. -/
lemma leap_le (odd : r / leap % 2 = 1) : leap ≤ r := by
  by_contra below
  rw [Nat.div_eq_of_lt (Nat.lt_of_not_le below)] at odd
  cases odd

/-- Partners are in neighbouring blocks. -/
lemma partner_div (pos : 0 < leap) : (r / leap % 2 = 0 → partner leap r / leap = r / leap + 1) ∧
    (r / leap % 2 = 1 → partner leap r / leap + 1 = r / leap) := by
  constructor
  · intro even
    rw [partner_even even, Nat.add_div_right r pos]
  · intro odd
    have back : r - leap + leap = r := Nat.sub_add_cancel (leap_le odd)
    rw [partner_odd odd, ← Nat.add_div_right _ pos, back]

/-- The partner of the partner is the rank itself. -/
lemma partner_partner (pos : 0 < leap) : partner leap (partner leap r) = r := by
  obtain ⟨up, down⟩ := partner_div (r := r) pos
  obtain even | odd := Nat.mod_two_eq_zero_or_one (r / leap)
  · have next := up even
    rw [partner_odd (by omega), partner_even even]
    exact Nat.add_sub_cancel r leap
  · have before := down odd
    rw [partner_even (by omega), partner_odd odd]
    exact Nat.sub_add_cancel (leap_le odd)

/-- A block is that of a rank and that of its partner. -/
lemma block_split (same : q / 2 ^ (i + 1) = r / 2 ^ (i + 1)) :
    q / 2 ^ i = r / 2 ^ i ∨ q / 2 ^ i = partner (2 ^ i) r / 2 ^ i := by
  obtain ⟨up, down⟩ := partner_div (r := r) (Nat.two_pow_pos i)
  rw [Nat.pow_succ, ← Nat.div_div_eq_div_mul, ← Nat.div_div_eq_div_mul] at same
  omega

/-- The partner of one of `2 ^ L` ranks is one of them. -/
lemma partner_lt (lt : i < L) (lt_r : r < 2 ^ L) : partner (2 ^ i) r < 2 ^ L := by
  obtain even | odd := Nat.mod_two_eq_zero_or_one (r / 2 ^ i)
  · have parts : 2 ^ L = 2 ^ (L - (i + 1)) * 2 * 2 ^ i := by
      rw [← Nat.pow_succ, ← Nat.pow_add]
      congr 1
      omega
    have pos := Nat.two_pow_pos i
    rw [parts] at lt_r ⊢
    have div := (Nat.div_lt_iff_lt_mul pos).2 lt_r
    apply (Nat.div_lt_iff_lt_mul pos).1
    rw [(partner_div pos).1 even]
    omega
  · rw [partner_odd odd]
    exact (Nat.sub_le r _).trans_lt lt_r

/-- Who has made some steps has its block behind it. -/
lemma block_reached {R : Nat → Nat → Prop} (step : ∀ i < L, ∀ r < 2 ^ L, R (i + 1) r → R i r ∧
    R i (partner (2 ^ i) r))
    (le : i ≤ L) (lt : r < 2 ^ L) (reached : R i r) (same : q / 2 ^ i = r / 2 ^ i) : R 0 q := by
  induction i generalizing r with
  | zero =>
    rw [Nat.pow_zero, Nat.div_one, Nat.div_one] at same
    rwa [same]
  | succ i ih =>
    obtain ⟨own, other⟩ := step i le r lt reached
    obtain here | there := block_split same
    · exact ih (Nat.le_of_succ_le le) lt own here
    · exact ih (Nat.le_of_succ_le le) (partner_lt le lt) other there

/-- Who has made all steps has all ranks behind it. -/
lemma all_reached {R : Nat → Nat → Prop} (step : ∀ i < L, ∀ r < 2 ^ L, R (i + 1) r → R i r ∧
    R i (partner (2 ^ i) r))
    (lt : r < 2 ^ L) (reached : R L r) (lt_q : q < 2 ^ L) : R 0 q := by
  apply block_reached step le_rfl lt reached
  rw [Nat.div_eq_of_lt lt_q, Nat.div_eq_of_lt lt]

end Kupl.Sync
