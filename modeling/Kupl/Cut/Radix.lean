import Mathlib.Algebra.BigOperators.Group.List.Basic

/-!
# Numbers in mixed radix

The digits of a number as a loop over the places computes them, remainder and quotient by the base of
one place after another; the first place of the loop counts units. Every choice of digits below their
bases is that of one number below the product of the bases (`existsUnique_number`).
-/

namespace Kupl.Cut
open List

variable {α : Type*} [DecidableEq α]

/-- The digit of a number at place `d`, for a loop over the places `l` with the bases `c`. -/
def digit (c : α → Nat) : List α → Nat → α → Nat
  | [], _, _ => 0
  | e :: l, i, d => if d = e then i % c e else digit c l (i / c e) d

variable {c v : α → Nat} {l : List α} {i : Nat} {d e : α}

@[simp] lemma digit_first : digit c (d :: l) i d = i % c d := by simp [digit]

lemma digit_next (ne : d ≠ e) : digit c (e :: l) i d = digit c l (i / c e) d := by
  simp [digit, ne]

/-- A choice of digits is that of one number. -/
lemma existsUnique_number (nodup : l.Nodup) (below : ∀ d ∈ l, v d < c d) :
    ∃! i, i < (l.map c).prod ∧ ∀ d ∈ l, digit c l i d = v d := by
  induction l with
  | nil => exact ⟨0, ⟨by simp, nofun⟩, fun j hj => by simpa using hj.1⟩
  | cons e l ih =>
    obtain ⟨fresh, nodup⟩ := nodup_cons.1 nodup
    have first : v e < c e := below e mem_cons_self
    have pos : 0 < c e := by omega
    have other : ∀ d ∈ l, d ≠ e := fun d hd eq => fresh (eq ▸ hd)
    obtain ⟨i, ⟨lt, digits⟩, uniq⟩ := ih nodup fun d hd => below d (mem_cons_of_mem _ hd)
    rw [map_cons, prod_cons]
    refine ⟨c e * i + v e, ⟨?_, ?_⟩, ?_⟩
    · calc c e * i + v e < c e * (i + 1) := by rw [Nat.mul_succ]; omega
        _ ≤ c e * (l.map c).prod := Nat.mul_le_mul_left _ lt
    · intro d hd
      cases mem_cons.1 hd with
      | inl eq =>
        subst eq
        rw [digit_first, Nat.mul_add_mod, Nat.mod_eq_of_lt first]
      | inr hd =>
        rw [digit_next (other d hd), Nat.mul_add_div pos, Nat.div_eq_of_lt first, Nat.add_zero]
        exact digits d hd
    · rintro j ⟨hj, hd⟩
      have rem : j % c e = v e := by rw [← hd e mem_cons_self, digit_first]
      have quot : j / c e = i := by
        refine uniq _ ⟨Nat.div_lt_of_lt_mul hj, fun d mem => ?_⟩
        rw [← hd d (mem_cons_of_mem _ mem), digit_next (other d mem)]
      rw [← Nat.div_add_mod j (c e), quot, rem]

section Places
variable {c v : Nat → Nat} {i k d e : Nat}

/-- The value of a place, where the places are numbered from `0` on. -/
def place (c : Nat → Nat) (d : Nat) : Nat := ((List.range d).map c).prod

lemma place_succ : place c (d + 1) = place c d * c d := by
  simp [place, range_succ]

lemma place_pos (pos : ∀ d < k, 0 < c d) : 0 < place c k := by
  induction k with
  | zero => exact Nat.one_pos
  | succ k ih =>
    rw [place_succ]
    exact Nat.mul_pos (ih fun d hd => pos d (by omega)) (pos k (by omega))

/-- A place counts multiples of the ones before it. -/
lemma place_dvd (le : d ≤ e) : place c d ∣ place c e := by
  induction e with
  | zero => rw [Nat.le_zero.1 le]
  | succ e ih =>
    rcases Nat.le_succ_iff.1 le with le | rfl
    · rw [place_succ]
      exact (ih le).mul_right _
    · exact dvd_rfl

lemma place_le (pos : ∀ d < k, 0 < c d) (le : d ≤ k) : place c d ≤ place c k :=
  Nat.le_of_dvd (place_pos pos) (place_dvd le)

/-- A digit by the value of its place. -/
lemma digit_range' {a n : Nat} (le : a ≤ d) (lt : d < a + n) : digit c (List.range' a n) i d =
    i / ((List.range' a (d - a)).map c).prod % c d := by
  induction n generalizing a i with
  | zero => omega
  | succ n ih =>
    rw [List.range'_succ]
    by_cases eq : d = a
    · subst eq
      simp
    · obtain ⟨m, hm⟩ : ∃ m, d - a = m + 1 := ⟨d - a - 1, by omega⟩
      have rest : d - (a + 1) = m := by omega
      rw [digit_next eq, ih (by omega) (by omega), hm, rest, List.range'_succ, map_cons,
        prod_cons, Nat.div_div_eq_div_mul]

/-- A choice of digits is that of one number. -/
lemma existsUnique_places (below : ∀ d < k, v d < c d) :
    ∃! i, i < place c k ∧ ∀ d < k, i / place c d % c d = v d := by
  have number := @existsUnique_number Nat _ c v (List.range k) nodup_range
    fun d hd => below d (mem_range.1 hd)
  have digits : ∀ i, (∀ d ∈ List.range k, digit c (List.range k) i d = v d) ↔
    ∀ d < k, i / place c d % c d = v d := by
    intro i
    refine forall_congr' fun d => ?_
    rw [mem_range]
    refine imp_congr_right fun hd => ?_
    rw [range_eq_range', digit_range' (Nat.zero_le d) (by omega), place, Nat.sub_zero, ← range_eq_range']
  simp only [digits] at number
  exact number

/-- A number below a place has no digits from there on. -/
lemma digit_eq_zero (pos : ∀ d < e, 0 < c d) (lt : i < place c k) (le : k ≤ e) : i / place c e = 0 :=
  Nat.div_eq_of_lt (Nat.lt_of_lt_of_le lt (place_le pos le))

/-- The digits of the value of a place. -/
lemma digit_place (pos : ∀ d < k, 0 < c d) (two : 2 ≤ c e) (he : e < k) (hd : d < k) :
    place c e / place c d % c d = if d = e then 1 else 0 := by
  have here : 0 < place c d := place_pos fun x hx => pos x (by omega)
  rcases Nat.lt_trichotomy d e with lt | rfl | gt
  · have more : place c (d + 1) ∣ place c e := place_dvd lt
    rw [place_succ] at more
    obtain ⟨m, hm⟩ := more
    rw [if_neg (Nat.ne_of_lt lt), hm, Nat.mul_assoc, Nat.mul_div_cancel_left _ here, Nat.mul_mod_right]
  · rw [if_pos rfl, Nat.div_self here, Nat.mod_eq_of_lt two]
  · have less : place c e < place c d := by
      have next : place c (e + 1) ≤ place c d := place_le (fun x hx => pos x (by omega)) gt
      have first : 0 < place c e := place_pos fun x hx => pos x (by omega)
      rw [place_succ] at next
      calc place c e < place c e * 2 := by omega
        _ ≤ place c e * c e := Nat.mul_le_mul_left _ two
        _ ≤ place c d := next
    rw [if_neg (Nat.ne_of_gt gt), Nat.div_eq_of_lt less, Nat.zero_mod]

/-- Digits that are the greatest ones are those of the number before the next place. -/
lemma mod_place_of_last (last : ∀ d < k, i / place c d % c d = c d - 1) (pos : ∀ d < k, 0 < c d) :
    i % place c k = place c k - 1 := by
  induction k with
  | zero => exact Nat.mod_one i
  | succ k ih =>
    have ih := ih (fun d hd => last d (by omega)) fun d hd => pos d (by omega)
    have here : 0 < place c k := place_pos fun d hd => pos d (by omega)
    have top := pos k (by omega)
    rw [place_succ, Nat.mod_mul, ih, last k (by omega), Nat.mul_sub_one]
    have : place c k ≤ place c k * c k := Nat.le_mul_of_pos_right _ top
    omega

/-- Without digits a number is `0`. -/
lemma mod_place_of_zero (zero : ∀ d < k, i / place c d % c d = 0) : i % place c k = 0 := by
  induction k with
  | zero => exact Nat.mod_one i
  | succ k ih =>
    rw [place_succ, Nat.mod_mul, ih fun d hd => zero d (by omega), zero k (by omega), Nat.mul_zero]

end Places
end Kupl.Cut
