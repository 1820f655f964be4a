import Mathlib.Data.List.Nodup

/-!
# Linked lists in memory

`Seg next a l b` says that following the words in memory from `a` one meets the nodes `l` and then `b`; no
node is at address zero. `Apart` says of a family of lists that nothing is in two places.
-/

namespace Kupl.Chain
open List
open Function (update update_of_ne update_self)

/-- The nodes from one address to another. -/
def Seg (next : Nat → Nat) : Nat → List Nat → Nat → Prop
  | a, [], b => a = b
  | a, x :: xs, b => x = a ∧ x ≠ 0 ∧ Seg next (next x) xs b

variable {next : Nat → Nat} {a b c t v x : Nat} {l m : List Nat}

namespace Seg

section
variable (S : Seg next a l b)
include S

lemma congr {g : Nat → Nat} (same : ∀ x ∈ l, g x = next x) : Seg g a l b := by
  induction l generalizing a with
  | nil => exact S
  | cons x l ih =>
    obtain ⟨rfl, ne, S⟩ := S
    refine ⟨rfl, ne, ?_⟩
    rw [same x mem_cons_self]
    exact ih S fun y hy => same y (mem_cons_of_mem x hy)

lemma write (out : x ∉ l) : Seg (update next x v) a l b := by
  apply S.congr
  intro y hy
  apply update_of_ne
  rintro rfl
  exact out hy

lemma put (ne : x ≠ 0) (out : x ∉ l) : Seg (update next x a) x (x :: l) b := by
  refine ⟨rfl, ne, ?_⟩
  rw [update_self]
  exact S.write out

lemma append (T : Seg next b m c) : Seg next a (l ++ m) c := by
  induction l generalizing a with
  | nil =>
    cases S
    exact T
  | cons x l ih => exact ⟨S.1, S.2.1, ih S.2.2⟩

lemma relink (last : l.getLast? = some t) (once : l.Nodup) : Seg (update next t v) a l v := by
  induction l generalizing a with
  | nil => cases last
  | cons x l ih =>
    obtain ⟨rfl, ne, S⟩ := S
    obtain ⟨out, once⟩ := nodup_cons.1 once
    cases l with
    | nil =>
      cases last
      exact ⟨rfl, ne, update_self ..⟩
    | cons y l =>
      have last : (y :: l).getLast? = some t := last
      have isX : x ≠ t := by
        rintro rfl
        exact out (mem_of_getLast? last)
      refine ⟨rfl, ne, ?_⟩
      rw [update_of_ne isX]
      exact ih S last once

end

lemma eq_nil (S : Seg next 0 l b) : l = [] := by
  cases l with
  | nil => rfl
  | cons x l => exact absurd S.1 S.2.1

lemma exists_cons (S : Seg next a l 0) (ne : a ≠ 0) : ∃ xs, l = a :: xs ∧ Seg next (next a) xs 0 := by
  cases l with
  | nil => exact absurd S ne
  | cons x xs =>
    obtain ⟨rfl, -, S⟩ := S
    exact ⟨xs, rfl, S⟩

end Seg

/-- Nothing is in two places. -/
structure Apart {ι : Type} (w : ι → List Nat) : Prop where
  once : ∀ π, (w π).Nodup
  place : ∀ π π' x, x ∈ w π → x ∈ w π' → π = π'

namespace Apart
variable {ι : Type} {w u : ι → List Nat} {π : ι}

lemma shift (A : Apart w) (σ : ι → ι) (sub : ∀ π, (u π).Sublist (w (σ π)))
    (inj : ∀ π π' x, x ∈ u π → x ∈ u π' → σ π = σ π' → π = π') : Apart u where
  once π := (A.once (σ π)).sublist (sub π)
  place π π' x h h' := inj π π' x h h' (A.place _ _ x ((sub π).subset h) ((sub π').subset h'))

lemma add [DecidableEq ι] (A : Apart w) (new : ∀ π, x ∉ w π) : Apart (update w π (x :: w π)) := by
  have cases {ρ : ι} {y : Nat} (h : y ∈ update w π (x :: w π) ρ) : y ∈ w ρ ∨ y = x ∧ ρ = π := by
    by_cases same : ρ = π
    · subst same
      rw [update_self] at h
      exact (mem_cons.1 h).elim (fun e => .inr ⟨e, rfl⟩) .inl
    · rw [update_of_ne same] at h
      exact .inl h
  constructor
  · intro ρ
    by_cases same : ρ = π
    · subst same
      rw [update_self]
      exact nodup_cons.2 ⟨new ρ, A.once ρ⟩
    · rw [update_of_ne same]
      exact A.once ρ
  · intro ρ ρ' y h h'
    obtain old | ⟨isX, isρ⟩ := cases h
    · obtain old' | ⟨isX, -⟩ := cases h'
      · exact A.place ρ ρ' y old old'
      · exact absurd (isX ▸ old) (new ρ)
    · obtain old' | ⟨-, isρ'⟩ := cases h'
      · exact absurd (isX ▸ old') (new ρ')
      · exact isρ.trans isρ'.symm

end Apart

section Moves
variable {ι : Type} [DecidableEq ι] {w : ι → List Nat} {π ρ σ : ι} {y : Nat}

/-- An element goes from one list to the front of another one. -/
def pull (w : ι → List Nat) (π ρ : ι) (x : Nat) : ι → List Nat :=
  update (update w π ((w π).erase x)) ρ (x :: w ρ)

/-- A list goes to the front of another one. -/
def join (w : ι → List Nat) (π ρ : ι) : ι → List Nat :=
  update (update w π []) ρ (w π ++ w ρ)

lemma pull_to : pull w π ρ x ρ = x :: w ρ := update_self ..

lemma pull_from (ne : π ≠ ρ) : pull w π ρ x π = (w π).erase x := by
  rw [pull, update_of_ne ne, update_self]

lemma pull_of_ne (isPi : σ ≠ π) (isRho : σ ≠ ρ) : pull w π ρ x σ = w σ := by
  rw [pull, update_of_ne isRho, update_of_ne isPi]

lemma join_to : join w π ρ ρ = w π ++ w ρ := update_self ..

lemma join_from (ne : π ≠ ρ) : join w π ρ π = [] := by
  rw [join, update_of_ne ne, update_self]

lemma join_of_ne (isPi : σ ≠ π) (isRho : σ ≠ ρ) : join w π ρ σ = w σ := by
  rw [join, update_of_ne isRho, update_of_ne isPi]

lemma Apart.mem_pull (A : Apart w) (ne : π ≠ ρ) (mem : x ∈ w π) :
    y ∈ pull w π ρ x σ ↔ y = x ∧ σ = ρ ∨ y ≠ x ∧ y ∈ w σ := by
  have out {τ : ι} (other : τ ≠ π) : x ∉ w τ := fun h => other (A.place τ π x h mem)
  by_cases isRho : σ = ρ
  · subst isRho
    rw [pull_to, mem_cons]
    constructor
    · rintro (same | h)
      · exact .inl ⟨same, rfl⟩
      · refine .inr ⟨?_, h⟩
        rintro rfl
        exact out ne.symm h
    · exact fun h => h.elim (fun h => .inl h.1) fun h => .inr h.2
  · by_cases isPi : σ = π
    · subst isPi
      rw [pull_from ne, (A.once σ).mem_erase_iff]
      exact ⟨.inr, fun h => h.resolve_left fun h => ne h.2⟩
    · rw [pull_of_ne isPi isRho]
      refine ⟨fun h => .inr ⟨?_, h⟩, fun h => (h.resolve_left fun h => isRho h.2).2⟩
      rintro rfl
      exact out isPi h

lemma mem_join (ne : π ≠ ρ) : y ∈ join w π ρ σ ↔ σ = ρ ∧ y ∈ w π ∨ σ ≠ π ∧ y ∈ w σ := by
  by_cases isRho : σ = ρ
  · subst isRho
    rw [join_to, mem_append]
    exact ⟨fun h => h.imp (fun h => ⟨rfl, h⟩) fun h => ⟨ne.symm, h⟩, fun h => h.imp (·.2) (·.2)⟩
  · by_cases isPi : σ = π
    · subst isPi
      rw [join_from ne]
      exact ⟨nofun, fun h => h.elim (fun h => absurd h.1 ne) fun h => absurd rfl h.1⟩
    · rw [join_of_ne isPi isRho]
      exact ⟨fun h => .inr ⟨isPi, h⟩, fun h => (h.resolve_left fun h => isRho h.1).2⟩

lemma Apart.pulled (A : Apart w) (ne : π ≠ ρ) (mem : x ∈ w π) : Apart (pull w π ρ x) where
  once σ := by
    by_cases isRho : σ = ρ
    · subst isRho
      rw [pull_to]
      exact nodup_cons.2 ⟨fun h => ne (A.place _ _ x mem h), A.once σ⟩
    · by_cases isPi : σ = π
      · subst isPi
        rw [pull_from ne]
        exact (A.once σ).erase x
      · rw [pull_of_ne isPi isRho]
        exact A.once σ
  place σ τ y h h' := by
    obtain ⟨isX, isRho⟩ | ⟨other, h⟩ := (A.mem_pull ne mem).1 h
    · obtain ⟨-, isRho'⟩ | ⟨other', -⟩ := (A.mem_pull ne mem).1 h'
      · exact isRho.trans isRho'.symm
      · exact absurd isX other'
    · obtain ⟨isX, -⟩ | ⟨-, old⟩ := (A.mem_pull ne mem).1 h'
      · exact absurd isX other
      · exact A.place σ τ y h old

lemma Apart.exists_pull (A : Apart w) (ne : π ≠ ρ) (mem : x ∈ w π) :
    (∃ σ, y ∈ pull w π ρ x σ) ↔ ∃ σ, y ∈ w σ := by
  constructor
  · rintro ⟨σ, h⟩
    obtain ⟨rfl, -⟩ | ⟨-, h⟩ := (A.mem_pull ne mem).1 h
    · exact ⟨π, mem⟩
    · exact ⟨σ, h⟩
  · rintro ⟨σ, h⟩
    by_cases same : y = x
    · exact ⟨ρ, (A.mem_pull ne mem).2 (.inl ⟨same, rfl⟩)⟩
    · exact ⟨σ, (A.mem_pull ne mem).2 (.inr ⟨same, h⟩)⟩

lemma Apart.joined (A : Apart w) (ne : π ≠ ρ) : Apart (join w π ρ) where
  once σ := by
    by_cases isRho : σ = ρ
    · subst isRho
      rw [join_to]
      exact (A.once π).append (A.once σ) fun y h h' => ne (A.place _ _ y h h')
    · by_cases isPi : σ = π
      · subst isPi
        rw [join_from ne]
        exact nodup_nil
      · rw [join_of_ne isPi isRho]
        exact A.once σ
  place σ τ y h h' := by
    obtain ⟨isRho, h⟩ | ⟨notPi, h⟩ := (mem_join ne).1 h
    · obtain ⟨isRho', -⟩ | ⟨notPi', old⟩ := (mem_join ne).1 h'
      · exact isRho.trans isRho'.symm
      · exact absurd (A.place _ _ y old h) notPi'
    · obtain ⟨-, old⟩ | ⟨-, old⟩ := (mem_join ne).1 h'
      · exact absurd (A.place _ _ y h old) notPi
      · exact A.place σ τ y h old

lemma exists_join (ne : π ≠ ρ) : (∃ σ, y ∈ join w π ρ σ) ↔ ∃ σ, y ∈ w σ := by
  constructor
  · rintro ⟨σ, h⟩
    obtain ⟨-, h⟩ | ⟨-, h⟩ := (mem_join ne).1 h
    · exact ⟨_, h⟩
    · exact ⟨_, h⟩
  · rintro ⟨σ, h⟩
    by_cases isPi : σ = π
    · exact ⟨ρ, (mem_join ne).2 (.inl ⟨rfl, isPi ▸ h⟩)⟩
    · exact ⟨σ, (mem_join ne).2 (.inr ⟨isPi, h⟩)⟩

end Moves
end Kupl.Chain
