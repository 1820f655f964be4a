import Kupl.Places.Grammar
import Kupl.Text.Tokens

/-!
# Scanning a place list

The scanning macros of `kupl_places.h` (`KUPL_SKIP_WS`, `KUPL_SKIP_DIGITS`), `kupl_str_to_int`, and the
numbers and signs that the parsers of `kupl_places.cpp` read with them. A C string is the list of the
characters before its end, and a pointer into it is what is left from there on.

The tokens of a place list are its numbers and marks, with any blanks before them; `readNum`,
`readSign` and the comparisons with a mark read tokens. The number read is `clamp` of the number that
stands there: from 2147483638 on it is `INT_MAX`.
-/

namespace Kupl.Places
open Text List

/-- `*scan == ' ' || *scan == '\t'` -/
def isBlank (c : Char) : Bool := c = ' ' || c = '\t'

/-- The character pointed to (C++ `*scan`). -/
def peek : List Char → Char
  | [] => '\x00'
  | c :: _ => c

/-- C++ `KUPL_SKIP_WS` -/
def skipWs (scan : List Char) : List Char := scan.dropWhile isBlank

/-- C++ `KUPL_SKIP_DIGITS` -/
def skipDigits (scan : List Char) : List Char := scan.dropWhile Char.isDigit

/-- The loop of `kupl_str_to_int`. -/
def strToIntFrom : Int → List Char → Int
  | result, [] => result
  | result, c :: t =>
    if c.isDigit then
      if (intMax - digitValue c) / 10 ≤ result then intMax else strToIntFrom (result * 10 + digitValue c) t
    else result

/-- C++ `kupl_str_to_int` -/
def strToInt (str : List Char) : Int := strToIntFrom 0 str

/-- A number: blanks are skipped, a digit has to follow, and the digits are converted and skipped. -/
def readNum (scan : List Char) : Option (Int × List Char) :=
  let scan := skipWs scan
  if (peek scan).isDigit then some (strToInt scan, skipDigits scan) else none

/-- The signs before a stride, with the blanks between them. -/
def readSign : List Char → Int → Int × List Char
  | [], sign => (sign, [])
  | c :: scan, sign =>
    if isBlank c then readSign scan sign
    else if c = '+' then readSign scan sign
    else if c = '-' then readSign scan (sign * -1)
    else (sign, c :: scan)

def readSigned (scan : List Char) : Option (Int × List Char) :=
  let (sign, scan) := readSign scan 1
  (readNum scan).map fun (stride, scan) => (stride * sign, scan)

/-! ## Tokens -/

def mark : Char → Option Token
  | ',' => some .comma
  | ':' => some .colon
  | '{' => some .lbrace
  | '}' => some .rbrace
  | '!' => some .bang
  | '+' => some .plus
  | '-' => some .minus
  | _ => none

/-- The next token: blanks are skipped, and digits are read as far as they go. -/
def token (scan : List Char) : Option (Token × List Char) :=
  match skipWs scan with
  | [] => none
  | c :: r =>
    if c.isDigit then some (.num (digitsValue ((c :: r).takeWhile Char.isDigit)), skipDigits (c :: r))
    else (mark c).map fun t => (t, r)

/-- A text spells a list of tokens; blanks may stand at its end. -/
def Spells (text : List Char) (ts : List Token) : Prop := ∃ r, Reads token text ts r ∧ skipWs r = []

/-- The number that is read for a number that stands there. -/
def clamp (n : Int) : Int := if 2147483638 ≤ n then intMax else if n ≤ -2147483638 then -intMax else n

/-! ## Reading tokens -/

section Tokens

variable {s r : List Char} {c : Char} {t : Token} {n v sign : Int} {ts : List Token}

lemma isDigit_mark (isMark : mark c = some t) : c.isDigit = false := by
  unfold mark at isMark
  split at isMark
  all_goals first | rfl | cases isMark

lemma mark_inj {c' : Char} (isMark : mark c = some t) (isMark' : mark c' = some t) : c = c' := by
  unfold mark at isMark isMark'
  split at isMark
  all_goals
    cases isMark
    try (split at isMark' <;> first | rfl | cases isMark')

lemma skipWs_blank (blank : isBlank c) : skipWs (c :: s) = skipWs s := dropWhile_cons_of_pos blank

lemma skipWs_cons (stays : isBlank c = false) : skipWs (c :: s) = c :: s :=
  dropWhile_cons_of_neg (by rw [stays]; exact Bool.false_ne_true)

lemma skipWs_head (is : skipWs s = c :: r) : isBlank c = false := by
  induction s with
  | nil => cases is
  | cons d s ih =>
    cases blank : isBlank d with
    | true =>
      rw [skipWs_blank blank] at is
      exact ih is
    | false =>
      rw [skipWs_cons blank] at is
      cases is
      exact blank

@[simp] lemma skipWs_skipWs : skipWs (skipWs s) = skipWs s := by
  cases is : skipWs s with
  | nil => rfl
  | cons c r => exact skipWs_cons (skipWs_head is)

lemma skipWs_length : (skipWs s).length ≤ s.length := (dropWhile_suffix _).length_le

lemma skipDigits_length : (skipDigits s).length ≤ s.length := (dropWhile_suffix _).length_le

@[simp] lemma token_skipWs : token (skipWs s) = token s := by
  unfold token
  rw [skipWs_skipWs]

lemma token_mark (isMark : mark c = some t) : token s = some (t, r) ↔ skipWs s = c :: r := by
  unfold token
  constructor
  · intro is
    split at is
    · cases is
    · rename_i c' r' skipped
      split at is
      · cases is
        unfold mark at isMark
        split at isMark <;> cases isMark
      · obtain ⟨t', isMark', same⟩ := Option.map_eq_some_iff.1 is
        cases same
        rw [skipped, mark_inj isMark isMark']
  · intro is
    simp only [is, isDigit_mark isMark, isMark, Bool.false_eq_true, if_false, Option.map_some]

lemma token_shrinks : Shrinks token := by
  intro s t r is
  unfold token at is
  split at is
  · cases is
  · rename_i c r' skipped
    have le : (c :: r').length ≤ s.length := by
      rw [← skipped]
      exact skipWs_length
    rw [length_cons] at le
    split at is
    · rename_i digit
      cases is
      have drops : skipDigits (c :: r') = skipDigits r' := dropWhile_cons_of_pos digit
      rw [drops]
      have := @skipDigits_length r'
      omega
    · obtain ⟨t', _, same⟩ := Option.map_eq_some_iff.1 is
      cases same
      omega

lemma peek_mark (isMark : mark c = some t) : peek (skipWs s) = c ↔ token s = some (t, (skipWs s).tail) := by
  rw [token_mark isMark]
  cases skipWs s with
  | nil =>
    constructor
    · intro is
      rw [← is] at isMark
      cases isMark
    · nofun
  | cons d r =>
    constructor
    · intro is
      exact congrArg (· :: r) is
    · intro is
      cases is
      rfl

/-! ## Numbers -/

lemma clamp_small (low : -2147483638 < n) (high : n < 2147483638) : clamp n = n := by
  unfold clamp
  rw [if_neg (by omega), if_neg (by omega)]

lemma clamp_large (le : 2147483638 ≤ n) : clamp n = intMax := if_pos le

lemma clamp_neg : clamp (-n) = -clamp n := by
  unfold clamp intMax
  split <;> split <;> (try split) <;> omega

lemma clamp_nonneg (nonneg : 0 ≤ n) : 0 ≤ clamp n := by
  unfold clamp intMax
  split <;> (try split) <;> omega

lemma strToIntFrom_eq {k : Nat} (small : k < 2147483638) :
    strToIntFrom k s = clamp (digitsFrom k (s.takeWhile Char.isDigit) : Nat) := by
  induction s generalizing k with
  | nil =>
    rw [takeWhile_nil, digitsFrom_nil, clamp_small (by omega) (by omega)]
    rfl
  | cons c s ih =>
    unfold strToIntFrom
    cases digit : c.isDigit with
    | true =>
      have le := digitValue_le digit
      rw [if_pos rfl, takeWhile_cons_of_pos digit, digitsFrom_cons]
      split
      · -- the number is at the top, and more digits leave it there
        have more : 10 * k + digitValue c ≤ digitsFrom (10 * k + digitValue c) (s.takeWhile Char.isDigit) :=
          le_digitsFrom
        rename_i full
        unfold intMax at full
        exact (clamp_large (by omega)).symm
      · rename_i room
        unfold intMax at room
        rw [← ih (by omega)]
        congr 1
        omega
    | false =>
      rw [if_neg Bool.false_ne_true, takeWhile_cons_of_neg (by rw [digit]; exact Bool.false_ne_true),
        digitsFrom_nil]
      exact (clamp_small (by omega) (by omega)).symm

lemma readNum_iff : readNum s = some (v, r) ↔ ∃ k : Nat, token s = some (.num k, r) ∧ v = clamp k := by
  unfold readNum token
  cases skipWs s with
  | nil =>
    constructor
    · nofun
    · nofun
  | cons c s =>
    cases digit : c.isDigit with
    | true =>
      have value : strToInt (c :: s) = clamp (digitsValue ((c :: s).takeWhile Char.isDigit) : Nat) :=
        strToIntFrom_eq (k := 0) (by omega)
      simp only [peek, digit, if_true, value, Option.some.injEq, Prod.mk.injEq, Token.num.injEq]
      constructor
      · rintro ⟨rfl, rfl⟩
        exact ⟨_, ⟨rfl, rfl⟩, rfl⟩
      · rintro ⟨_, ⟨rfl, rfl⟩, rfl⟩
        exact ⟨rfl, rfl⟩
    | false =>
      simp only [peek, digit, Bool.false_eq_true, if_false, reduceCtorEq, false_iff]
      rintro ⟨k, is, -⟩
      obtain ⟨t, isMark, same⟩ := Option.map_eq_some_iff.1 is
      cases same
      unfold mark at isMark
      split at isMark <;> cases isMark

/-! ## Signs -/

lemma readSign_blank (blank : isBlank c) : readSign (c :: s) sign = readSign s sign := if_pos blank

lemma readSign_skipWs : readSign (skipWs s) sign = readSign s sign := by
  induction s with
  | nil => rfl
  | cons c s ih =>
    cases blank : isBlank c with
    | true => rw [skipWs_blank blank, ih, readSign_blank blank]
    | false => rw [skipWs_cons blank]

/-- The rest of a stride, behind some of its signs. -/
def signedFrom (sign : Int) (s : List Char) : Option (Int × List Char) :=
  (readNum (readSign s sign).2).map fun p => (p.1 * (readSign s sign).1, p.2)

lemma readSigned_eq : readSigned s = signedFrom 1 s := rfl

lemma signedFrom_plus (is : token s = some (.plus, r)) : signedFrom sign s = signedFrom sign r := by
  unfold signedFrom
  rw [← readSign_skipWs (s := s), (token_mark (c := '+') rfl).1 is]
  rfl

lemma signedFrom_minus (is : token s = some (.minus, r)) : signedFrom sign s = signedFrom (sign * -1) r := by
  unfold signedFrom
  rw [← readSign_skipWs (s := s), (token_mark (c := '-') rfl).1 is]
  rfl

lemma signedFrom_num {k : Nat} (is : token s = some (.num k, r)) : signedFrom sign s = some (clamp k * sign, r) := by
  have reads : readNum (skipWs s) = some (clamp k, r) := by
    apply readNum_iff.2
    rw [token_skipWs]
    exact ⟨k, is, rfl⟩
  have none_else : readSign (skipWs s) sign = (sign, skipWs s) := by
    unfold token at is
    cases skipped : skipWs s with
    | nil => rfl
    | cons c m =>
      have stays := skipWs_head skipped
      rw [skipped] at is
      have noPlus : c ≠ '+' := by
        rintro rfl
        cases is
      have noMinus : c ≠ '-' := by
        rintro rfl
        cases is
      simp only [readSign, stays, noPlus, noMinus, Bool.false_eq_true, if_false]
  unfold signedFrom
  rw [← readSign_skipWs, none_else, reads]
  rfl

lemma signedFrom_of (S : Signed ts v) (R : Reads token s ts r) : signedFrom sign s = some (clamp v * sign, r) := by
  induction S generalizing s sign with
  | num k =>
    obtain ⟨m, first, rest⟩ := Reads.cons_iff.1 R
    cases rest.nil_eq
    exact signedFrom_num first
  | plus _ ih =>
    obtain ⟨m, first, rest⟩ := Reads.cons_iff.1 R
    rw [signedFrom_plus first]
    exact ih rest
  | @minus ts v _ ih =>
    obtain ⟨m, first, rest⟩ := Reads.cons_iff.1 R
    rw [signedFrom_minus first, ih rest, clamp_neg]
    rw [Int.mul_neg_one, Int.mul_neg, Int.neg_mul]

lemma of_signedFrom (is : signedFrom sign s = some (v, r)) :
    ∃ ts w, Signed ts w ∧ Reads token s ts r ∧ v = clamp w * sign := by
  induction s generalizing sign with
  | nil => cases is
  | cons c s ih =>
    cases blank : isBlank c with
    | true =>
      have same : signedFrom sign (c :: s) = signedFrom sign s := by
        unfold signedFrom
        rw [readSign_blank blank]
      have same' : token (c :: s) = token s := by
        rw [← token_skipWs, skipWs_blank blank, token_skipWs]
      obtain ⟨ts, w, S, R, eq⟩ := ih (same.symm.trans is)
      refine ⟨ts, w, S, ?_, eq⟩
      cases R with
      | nil => cases S
      | cons first rest => exact .cons (same'.trans first) rest
    | false =>
      have skipped := skipWs_cons (s := s) blank
      by_cases plus : c = '+'
      · have first : token (c :: s) = some (.plus, s) := (token_mark (c := '+') rfl).2 (by rw [skipped, plus])
        rw [signedFrom_plus first] at is
        obtain ⟨ts, w, S, R, eq⟩ := ih is
        exact ⟨_, w, .plus S, .cons first R, eq⟩
      · by_cases minus : c = '-'
        · have first : token (c :: s) = some (.minus, s) := (token_mark (c := '-') rfl).2 (by rw [skipped, minus])
          rw [signedFrom_minus first] at is
          obtain ⟨ts, w, S, R, eq⟩ := ih is
          refine ⟨_, -w, .minus S, .cons first R, ?_⟩
          rw [eq, clamp_neg, Int.mul_neg_one, Int.mul_neg, Int.neg_mul]
        · unfold signedFrom at is
          simp only [readSign, blank, plus, minus, Bool.false_eq_true, if_false] at is
          obtain ⟨⟨v', r'⟩, reads, same⟩ := Option.map_eq_some_iff.1 is
          cases same
          obtain ⟨k, first, rfl⟩ := readNum_iff.1 reads
          exact ⟨_, k, .num k, .one first, rfl⟩

lemma readSigned_iff : readSigned s = some (v, r) ↔ ∃ ts w, Signed ts w ∧ Reads token s ts r ∧ v = clamp w := by
  rw [readSigned_eq]
  constructor
  · intro is
    obtain ⟨ts, w, S, R, eq⟩ := of_signedFrom is
    exact ⟨ts, w, S, R, by rw [eq, Int.mul_one]⟩
  · rintro ⟨ts, w, S, R, rfl⟩
    rw [signedFrom_of S R, Int.mul_one]

end Tokens

end Kupl.Places
