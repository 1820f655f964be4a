import Mathlib.Tactic.Linarith

/-!
# Reading tokens off a text

A lexer takes the next token off what is left of a text. `Reads` reads a list of tokens in this way;
it composes like the lists do, and every token read takes something off the text. `digitsValue` is the
number that a list of decimal digits writes.
-/

namespace Kupl.Text

section Reads

variable {α τ : Type} {token : List α → Option (τ × List α)} {s m r : List α} {t : τ} {ts us : List τ}

/-- A lexer reads tokens one after the other, and leaves a rest. -/
inductive Reads (token : List α → Option (τ × List α)) : List α → List τ → List α → Prop
  | nil {s : List α} : Reads token s [] s
  | cons {s : List α} {t : τ} {m : List α} {ts : List τ} {r : List α} :
      token s = some (t, m) → Reads token m ts r → Reads token s (t :: ts) r

lemma Reads.nil_eq (R : Reads token s [] r) : s = r := by
  cases R
  rfl

lemma Reads.cons_iff : Reads token s (t :: ts) r ↔ ∃ m, token s = some (t, m) ∧ Reads token m ts r := by
  constructor
  · intro R
    cases R with
    | cons first rest => exact ⟨_, first, rest⟩
  · intro ⟨m, first, rest⟩
    exact .cons first rest

/-- One token. -/
lemma Reads.one (first : token s = some (t, r)) : Reads token s [t] r := .cons first .nil

/-- A text with two parts is read part by part. -/
lemma Reads.append (R : Reads token s ts m) (R' : Reads token m us r) : Reads token s (ts ++ us) r := by
  induction R with
  | nil => exact R'
  | cons first _ ih => exact .cons first (ih R')

lemma Reads.split (R : Reads token s (ts ++ us) r) : ∃ m, Reads token s ts m ∧ Reads token m us r := by
  induction ts generalizing s with
  | nil => exact ⟨s, .nil, R⟩
  | cons t ts ih =>
    obtain ⟨m, first, rest⟩ := Reads.cons_iff.1 R
    obtain ⟨m', left, right⟩ := ih rest
    exact ⟨m', .cons first left, right⟩

/-- A lexer takes something off the text. -/
def Shrinks (token : List α → Option (τ × List α)) : Prop :=
  ∀ s t r, token s = some (t, r) → r.length < s.length

lemma Reads.length_le (shrinks : Shrinks token) (R : Reads token s ts r) : ts.length + r.length ≤ s.length := by
  induction R with
  | nil => exact Nat.le_of_eq (Nat.zero_add _)
  | cons first _ ih =>
    have lt := shrinks _ _ _ first
    rw [List.length_cons]
    omega

/-- The tokens of a text, so many of them. -/
def readAll (token : List α → Option (τ × List α)) : Nat → List α → List τ × List α
  | 0, s => ([], s)
  | n + 1, s =>
    match token s with
    | none => ([], s)
    | some (t, m) => let (ts, r) := readAll token n m; (t :: ts, r)

lemma reads_readAll {n : Nat} : Reads token s (readAll token n s).1 (readAll token n s).2 := by
  induction n generalizing s with
  | zero => exact .nil
  | succ n ih =>
    unfold readAll
    split
    · exact .nil
    · rename_i first
      exact .cons first ih

end Reads

section Digits

variable {n : Nat} {c : Char} {ds : List Char}

@[irreducible] def digitValue (c : Char) : Nat := c.toNat - 48

def digitsFrom : Nat → List Char → Nat
  | n, [] => n
  | n, c :: ds => digitsFrom (10 * n + digitValue c) ds

def digitsValue (ds : List Char) : Nat := digitsFrom 0 ds

@[simp] lemma digitsFrom_nil : digitsFrom n [] = n := rfl

@[simp] lemma digitsFrom_cons : digitsFrom n (c :: ds) = digitsFrom (10 * n + digitValue c) ds := rfl

lemma digitValue_le (isDigit : c.isDigit) : digitValue c ≤ 9 := by
  rw [Char.isDigit, Bool.and_eq_true, decide_eq_true_eq, decide_eq_true_eq] at isDigit
  have le : c.toNat ≤ 57 := UInt32.le_iff_toNat_le.1 isDigit.2
  unfold digitValue
  omega

/-- More digits make no smaller number. -/
lemma le_digitsFrom : n ≤ digitsFrom n ds := by
  induction ds generalizing n with
  | nil => exact Nat.le_refl n
  | cons c ds ih =>
    rw [digitsFrom_cons]
    apply Nat.le_trans _ ih
    omega

end Digits

end Kupl.Text
