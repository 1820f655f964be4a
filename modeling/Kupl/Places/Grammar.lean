import Mathlib.Data.Finset.Union

/-!
# The grammar of place lists

The grammar in the comment above `kupl_process_placelist`, over the tokens of a place list, with the
syntax that a derivation builds, and what the syntax denotes over a set of available processors.

`Place.Gives` is the list of a place. A suffix `: num : signed` gives the successive shifts of a place,
so it applies to a place that denotes one set, and only once: `Place.OneSuffix` says that a place has
one suffix at most, behind its marks `!`.
-/

namespace Kupl.Places

/-- `INT_MAX` -/
def intMax : Int := 2147483647

inductive Token
  | num (n : Nat)
  | comma
  | colon
  | lbrace
  | rbrace
  | bang
  | plus
  | minus
  deriving DecidableEq

inductive Subplace
  | one (start : Int)
  | run (start count : Int)
  | strided (start count stride : Int)

inductive Place
  | num (n : Int)
  | shift (p : Place) (count stride : Int)
  | subplaces (l : List Subplace)
  | compl (p : Place)

/-! ## Derivations -/

/-- `signed` -/
inductive Signed : List Token → Int → Prop
  | num (n : Nat) : Signed [.num n] n
  | plus {ts v} : Signed ts v → Signed (.plus :: ts) v
  | minus {ts v} : Signed ts v → Signed (.minus :: ts) (-v)

/-- `subplace` -/
inductive IsSubplace : List Token → Subplace → Prop
  | one (n : Nat) : IsSubplace [.num n] (.one n)
  | run (n c : Nat) : IsSubplace [.num n, .colon, .num c] (.run n c)
  | strided (n c : Nat) {ts d} : Signed ts d → IsSubplace (.num n :: .colon :: .num c :: .colon :: ts)
      (.strided n c d)

/-- `subplace_list` -/
inductive IsSubplaceList : List Token → List Subplace → Prop
  | one {ts p} : IsSubplace ts p → IsSubplaceList ts [p]
  | cons {ts us p l} : IsSubplace ts p → IsSubplaceList us l → IsSubplaceList (ts ++ .comma :: us) (p :: l)

/-- `place` -/
inductive IsPlace : List Token → Place → Prop
  | num (n : Nat) : IsPlace [.num n] (.num n)
  | shift {ts p} (c : Nat) : IsPlace ts p → IsPlace (ts ++ [.colon, .num c]) (.shift p c 1)
  | strided {ts us p d} (c : Nat) : IsPlace ts p → Signed us d →
    IsPlace (ts ++ .colon :: .num c :: .colon :: us) (.shift p c d)
  | subplaces {ts l} : IsSubplaceList ts l → IsPlace (.lbrace :: (ts ++ [.rbrace])) (.subplaces l)
  | compl {ts p} : IsPlace ts p → IsPlace (.bang :: ts) (.compl p)

/-- `place_list` -/
inductive IsPlaceList : List Token → List Place → Prop
  | one {ts p} : IsPlace ts p → IsPlaceList ts [p]
  | cons {ts us p l} : IsPlace ts p → IsPlaceList us l → IsPlaceList (ts ++ .comma :: us) (p :: l)

def Place.Plain : Place → Prop
  | .num _ => True
  | .shift .. => False
  | .subplaces _ => True
  | .compl p => p.Plain

def Place.OneSuffix : Place → Prop
  | .shift p _ _ => p.Plain
  | p => p.Plain

/-! ## Denotations -/

section Denotes

variable (avail : Finset Nat)

/-- The numbers `start`, `start + stride`, and so on, `count` of them. -/
def progression (start : Int) (count : Nat) (stride : Int) : List Int :=
  (List.range count).map fun i => start + (i : Nat) * stride

def availableOf (l : List Int) : Finset Nat := avail.filter fun k => (k : Int) ∈ l

/-- No available number comes after one that is not available. -/
def Steady (l : List Int) : Prop :=
  ∀ i k, (h : i < l.length) → (h' : k < l.length) → i < k → (∃ a ∈ avail, (a : Int) = l[k]) →
    ∃ a ∈ avail, (a : Int) = l[i]

def Subplace.numbers : Subplace → List Int
  | .one start => [start]
  | .run start count => progression start count.toNat 1
  | .strided start count stride => progression start count.toNat stride

/-- A subplace denotes the available ones of its numbers; of a strided one whose progression meets an
available number after one that is not, some of them. -/
def Subplace.Denotes (p : Subplace) (S : Finset Nat) : Prop :=
  S ⊆ availableOf avail p.numbers ∧
    ((∀ start count stride, p = .strided start count stride → Steady avail p.numbers) →
      S = availableOf avail p.numbers)

/-- A plain place denotes a set of available processors. -/
inductive Place.Denotes : Place → Finset Nat → Prop
  | num (n : Int) : Place.Denotes (.num n) (availableOf avail [n])
  | subplaces {l sets} : List.Forall₂ (Subplace.Denotes avail) l sets →
    Place.Denotes (.subplaces l) (sets.foldr (· ∪ ·) ∅)
  | compl {p S} : Place.Denotes p S → Place.Denotes (.compl p) (avail \ S)

/-- The available processors at a distance from those of a set. -/
def shifted (stride : Int) (S : Finset Nat) : Finset Nat := avail.filter fun k => ∃ j ∈ S, (k : Int) = j + stride

def nonempty (sets : List (Finset Nat)) : List (Finset Nat) := sets.filter fun S => S ≠ ∅

/-- The places that a place gives: its successive shifts, without the empty ones. -/
inductive Place.Gives : Place → List (Finset Nat) → Prop
  | one {p S} : Place.Denotes avail p S → Place.Gives p (nonempty [S])
  | shift {p S} (count stride : Int) : Place.Denotes avail p S → Place.Gives (.shift p count stride)
      (nonempty ((List.range count.toNat).map fun i => (shifted avail stride)^[i] S))

end Denotes

end Kupl.Places
