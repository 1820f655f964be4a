import Kupl.Text.Tokens
import Mathlib.Data.List.TakeWhile

/-!
# Numbers at the beginning of a text

`strtol` of the C library in base 10: blanks, a sign and digits are read, and what follows them is left. A number that
is not a `long` gives the nearest `long`, and `errno` is set to `ERANGE`; without a digit the whole text is left. Other
than this `errno` stays as it is. `numeral` is the number itself, `Numeral` the texts that begin with one.
-/

namespace Kupl.Text
open List

/-- A blank (`isspace` in the C locale). -/
def isSpace (c : Char) : Bool := c = ' ' || c = '\t' || c = '\n' || c = '\x0b' || c = '\x0c' || c = '\r'

/-- Takes a sign off a text; whether it is a minus. -/
def takeSign : List Char → Bool × List Char
  | [] => (false, [])
  | c :: s => if c = '-' then (true, s) else if c = '+' then (false, s) else (false, c :: s)

def signed (neg : Bool) (n : Nat) : Int := if neg then -n else n

/-- The number at the beginning of a text, and what follows it. -/
def numeral (s : List Char) : Option (Int × List Char) :=
  let (neg, t) := takeSign (s.dropWhile isSpace)
  let ds := t.takeWhile Char.isDigit
  if ds = [] then none else some (signed neg (digitsValue ds), t.dropWhile Char.isDigit)

/-- (`LONG_MAX`). -/
def longMax : Int := 9223372036854775807

/-- (`LONG_MIN`). -/
def longMin : Int := -9223372036854775808

/-- What is returned, what is left of the text, and whether `errno` is set to `ERANGE`. -/
structure Strtol where
  value : Int
  rest : List Char
  erange : Bool

def strtol (s : List Char) : Strtol :=
  match numeral s with
  | none => ⟨0, s, false⟩
  | some (n, rest) =>
    if longMax < n then ⟨longMax, rest, true⟩
    else if n < longMin then ⟨longMin, rest, true⟩
    else ⟨n, rest, false⟩

/-! ### Texts that begin with a number -/

inductive IsSign : List Char → Bool → Prop
  | none : IsSign [] false
  | plus : IsSign ['+'] false
  | minus : IsSign ['-'] true

/-- A text is a number with a rest behind it. -/
inductive Numeral : List Char → Int → List Char → Prop
  | mk {blanks sign ds rest : List Char} {neg : Bool} :
      (∀ c ∈ blanks, isSpace c) → IsSign sign neg → ds ≠ [] →
    (∀ c ∈ ds, c.isDigit) → (∀ c t, rest = c :: t → c.isDigit = false) →
    Numeral (blanks ++ (sign ++ (ds ++ rest))) (signed neg (digitsValue ds)) rest

variable {s t sign rest : List Char} {c : Char} {n : Int} {neg : Bool}

lemma isSpace_digit (digit : c.isDigit) : isSpace c = false := by
  cases blank : isSpace c with
  | false => rfl
  | true =>
    simp only [isSpace, Bool.or_eq_true, decide_eq_true_eq] at blank
    obtain ((((rfl | rfl) | rfl) | rfl) | rfl) | rfl := blank <;> cases digit

lemma takeSign_digit (digit : c.isDigit) : takeSign (c :: s) = (false, c :: s) := by
  have minus : c ≠ '-' := by
    rintro rfl
    cases digit
  have plus : c ≠ '+' := by
    rintro rfl
    cases digit
  rw [takeSign, if_neg minus, if_neg plus]

lemma takeSign_append (S : IsSign sign neg) (digit : c.isDigit) : takeSign (sign ++ c :: s) = (neg, c :: s) := by
  cases S with
  | none => exact takeSign_digit digit
  | plus | minus => rfl

/-- No blank is left before a sign or a digit. -/
lemma dropWhile_sign (S : IsSign sign neg) (digit : c.isDigit) :
    (sign ++ c :: s).dropWhile isSpace = sign ++ c :: s := by
  cases S with
  | none =>
    apply dropWhile_cons_of_neg
    rw [isSpace_digit digit]
    exact Bool.false_ne_true
  | plus | minus => rfl

lemma isSign_takeSign : ∃ sign, IsSign sign (takeSign s).1 ∧ s = sign ++ (takeSign s).2 := by
  cases s with
  | nil => exact ⟨[], .none, rfl⟩
  | cons c s =>
    rw [takeSign]
    split
    · rename_i isMinus
      exact ⟨['-'], .minus, congrArg (· :: s) isMinus⟩
    · split
      · rename_i isPlus
        exact ⟨['+'], .plus, congrArg (· :: s) isPlus⟩
      · exact ⟨[], .none, rfl⟩

lemma Numeral.numeral_eq (N : Numeral s n rest) : numeral s = some (n, rest) := by
  cases N with
  | @mk blanks sign ds _ neg allBlank S some allDigits stop =>
    obtain ⟨c, ds', isDs⟩ := exists_cons_of_ne_nil some
    have digit : c.isDigit := allDigits c (isDs ▸ mem_cons_self)
    have front : (blanks ++ (sign ++ (ds ++ rest))).dropWhile isSpace = sign ++ (ds ++ rest) := by
      rw [dropWhile_append_of_pos allBlank, isDs]
      exact dropWhile_sign S digit
    have behind : takeSign (sign ++ (ds ++ rest)) = (neg, ds ++ rest) := by
      rw [isDs]
      exact takeSign_append S digit
    have none : rest.takeWhile Char.isDigit = [] ∧ rest.dropWhile Char.isDigit = rest := by
      cases rest with
      | nil => exact ⟨rfl, rfl⟩
      | cons d t =>
        have other : ¬ d.isDigit = true := by
          rw [stop d t rfl]
          exact Bool.false_ne_true
        exact ⟨takeWhile_cons_of_neg other, dropWhile_cons_of_neg other⟩
    rw [numeral, front, behind]
    dsimp only
    rw [takeWhile_append_of_pos allDigits, dropWhile_append_of_pos allDigits, none.1, none.2,
      append_nil, if_neg some]

/-- The texts whose number is read. -/
lemma numeral_iff : numeral s = some (n, rest) ↔ Numeral s n rest := by
  refine ⟨fun is => ?_, Numeral.numeral_eq⟩
  obtain ⟨sign, S, rejoined⟩ := isSign_takeSign (s := s.dropWhile isSpace)
  rw [numeral] at is
  obtain ⟨t, isT⟩ : ∃ t, t = (takeSign (s.dropWhile isSpace)).2 := ⟨_, rfl⟩
  rw [← isT] at rejoined
  dsimp only at is
  rw [← isT] at is
  split at is
  · cases is
  · rename_i some
    obtain ⟨rfl, rfl⟩ := Prod.mk.inj (Option.some.inj is)
    have whole : s = s.takeWhile isSpace ++ (sign ++ (t.takeWhile Char.isDigit ++ t.dropWhile Char.isDigit)) := by
      rw [takeWhile_append_dropWhile, ← rejoined, takeWhile_append_dropWhile]
    have stop (c t') (is : t.dropWhile Char.isDigit = c :: t') : c.isDigit = false := by
      have head := List.head?_dropWhile_not Char.isDigit t
      rw [is] at head
      exact head
    have blanks : ∀ c ∈ s.takeWhile isSpace, isSpace c := fun _ => mem_takeWhile_imp
    have N := Numeral.mk blanks S some (fun _ => mem_takeWhile_imp) stop
    rw [← whole] at N
    exact N

/-- A number takes something off the text. -/
lemma Numeral.rest_ne (N : Numeral s n rest) : rest ≠ s := by
  cases N with
  | @mk blanks sign ds _ neg _ _ some =>
    intro same
    have length := congrArg List.length same
    have pos := length_pos_iff.2 some
    rw [length_append, length_append, length_append] at length
    omega

/-- The number is no `long`. -/
def OutOfRange (s : List Char) : Prop := ∃ n rest, numeral s = some (n, rest) ∧ ¬ (longMin ≤ n ∧ n ≤ longMax)

lemma strtol_erange : (strtol s).erange = true ↔ OutOfRange s := by
  unfold strtol OutOfRange
  cases isN : numeral s with
  | none =>
    constructor
    · intro no
      cases no
    · rintro ⟨n, rest, is, -⟩
      cases is
  | some x =>
    obtain ⟨n, rest⟩ := x
    dsimp only
    constructor
    · intro out
      refine ⟨n, rest, rfl, ?_⟩
      split at out
      · omega
      · split at out
        · omega
        · cases out
    · rintro ⟨n', rest', is, out⟩
      obtain ⟨rfl, rfl⟩ := Prod.mk.inj (Option.some.inj is)
      split
      · rfl
      · split
        · rfl
        · omega

/-- A text that does not begin with a number. -/
lemma strtol_none (isNone : numeral s = none) : strtol s = ⟨0, s, false⟩ := by
  rw [strtol, isNone]

lemma strtol_rest (is : numeral s = some (n, rest)) : (strtol s).rest = rest := by
  rw [strtol, is]
  dsimp only
  split
  · rfl
  · split
    · rfl
    · rfl

lemma strtol_long (is : numeral s = some (n, rest)) (low : longMin ≤ n) (high : n ≤ longMax) :
    strtol s = ⟨n, rest, false⟩ := by
  rw [strtol, is]
  dsimp only
  rw [if_neg (Int.not_lt.2 high), if_neg (Int.not_lt.2 low)]

/-- A text that is read to its end without an error is a number. -/
lemma strtol_whole (some : (strtol s).rest ≠ s) (whole : (strtol s).rest = []) (inside : (strtol s).erange ≠ true) :
    numeral s = .some ((strtol s).value, []) := by
  cases isN : numeral s with
  | none =>
    rw [strtol_none isN] at some
    exact absurd rfl some
  | some x =>
    obtain ⟨n, rest⟩ := x
    rw [strtol_rest isN] at whole
    have long : longMin ≤ n ∧ n ≤ longMax := by
      by_contra out
      exact inside (strtol_erange.2 ⟨n, rest, isN, out⟩)
    rw [strtol_long isN long.1 long.2, whole]

end Kupl.Text
