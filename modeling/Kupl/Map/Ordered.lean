import Mathlib.Data.Finmap
import Mathlib.Data.Finset.Max

/-!
# Finite maps with ordered keys

Mathlib's finite maps, read the way an ordered map is: the last entry at or below a key.
-/

namespace Kupl

abbrev OrderedMap (K V : Type*) := Finmap fun _ : K => V

namespace OrderedMap
variable {K V : Type*} [LinearOrder K] {m : OrderedMap K V} {a k : K} {v : V}

def keysLe (m : OrderedMap K V) (a : K) : Finset K := m.keys.filter (· ≤ a)

def lastLe (m : OrderedMap K V) (a : K) : Option (K × V) :=
  if h : (m.keysLe a).Nonempty then (m.lookup ((m.keysLe a).max' h)).map fun v => ((m.keysLe a).max' h, v)
  else none

lemma mem_keysLe : k ∈ m.keysLe a ↔ (∃ v, m.lookup k = some v) ∧ k ≤ a := by
  rw [keysLe, Finset.mem_filter, Finmap.mem_keys, Finmap.mem_iff]

/-- There is no entry at or below a key when every entry is above it. -/
lemma lastLe_eq_none : m.lastLe a = none ↔ ∀ k v, m.lookup k = some v → a < k := by
  rw [lastLe]
  constructor
  · intro none k v here
    apply lt_of_not_ge
    intro le
    have some : (m.keysLe a).Nonempty := ⟨k, mem_keysLe.2 ⟨⟨v, here⟩, le⟩⟩
    rw [dif_pos some, Option.map_eq_none_iff] at none
    obtain ⟨⟨v, last⟩, -⟩ := mem_keysLe.1 ((m.keysLe a).max'_mem some)
    rw [none] at last
    cases last
  · intro above
    apply dif_neg
    rintro ⟨k, mem⟩
    obtain ⟨⟨v, here⟩, le⟩ := mem_keysLe.1 mem
    exact lt_irrefl _ ((above k v here).trans_le le)

/-- The last entry at or below a key is one that no other entry there comes after. -/
lemma lastLe_eq_some : m.lastLe a = some (k, v) ↔
    m.lookup k = some v ∧ k ≤ a ∧ ∀ k' v', m.lookup k' = some v' → k' ≤ a → k' ≤ k := by
  rw [lastLe]
  constructor
  · intro last
    by_cases some : (m.keysLe a).Nonempty
    · rw [dif_pos some, Option.map_eq_some_iff] at last
      obtain ⟨v', here, same⟩ := last
      cases same
      refine ⟨here, (mem_keysLe.1 ((m.keysLe a).max'_mem some)).2, fun k' v' here' le => ?_⟩
      exact (m.keysLe a).le_max' k' (mem_keysLe.2 ⟨⟨v', here'⟩, le⟩)
    · rw [dif_neg some] at last
      cases last
  · rintro ⟨here, le, last⟩
    have mem : k ∈ m.keysLe a := mem_keysLe.2 ⟨⟨v, here⟩, le⟩
    have isK : (m.keysLe a).max' ⟨k, mem⟩ = k := by
      apply le_antisymm
      · obtain ⟨⟨v', here'⟩, le'⟩ := mem_keysLe.1 ((m.keysLe a).max'_mem ⟨k, mem⟩)
        exact last _ v' here' le'
      · exact (m.keysLe a).le_max' k mem
    rw [dif_pos ⟨k, mem⟩, isK, here]
    rfl

/-- A key with an entry is the last one at or below itself. -/
lemma lastLe_self (here : m.lookup a = some v) : m.lastLe a = some (a, v) :=
  lastLe_eq_some.2 ⟨here, le_rfl, fun _ _ _ le => le⟩

/-- At or above an entry there is a last one. -/
lemma exists_lastLe (here : m.lookup k = some v) (le : k ≤ a) :
    ∃ k' v', m.lastLe a = some (k', v') ∧ m.lookup k' = some v' ∧ k' ≤ a ∧ k ≤ k' := by
  cases last : m.lastLe a with
  | none => exact absurd (lastLe_eq_none.1 last k v here) (not_lt_of_ge le)
  | some p =>
    obtain ⟨here', le', above⟩ := lastLe_eq_some.1 last
    exact ⟨p.1, p.2, rfl, here', le', above k v here le⟩

/-- The last entry when all values are renamed. -/
lemma lastLe_map {W : Type*} {m' : OrderedMap K W} {f : V → W} (same : ∀ k, m'.lookup k = (m.lookup k).map f) :
    m'.lastLe a = (m.lastLe a).map fun p => (p.1, f p.2) := by
  cases last : m.lastLe a with
  | none =>
    refine lastLe_eq_none.2 fun k w here => ?_
    rw [same] at here
    obtain ⟨v, here, -⟩ := Option.map_eq_some_iff.1 here
    exact lastLe_eq_none.1 last k v here
  | some p =>
    obtain ⟨here, le, above⟩ := lastLe_eq_some.1 last
    refine lastLe_eq_some.2 ⟨?_, le, fun k w here' le' => ?_⟩
    · rw [same, here]
      rfl
    · rw [same] at here'
      obtain ⟨v, here', -⟩ := Option.map_eq_some_iff.1 here'
      exact above k v here' le'

end OrderedMap
end Kupl
