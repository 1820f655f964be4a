import Kupl.Prec.Pending

/-!
# Graph nodes

`src/mt/kupl_dag.h` and `src/mt/kupl_dag.cpp`: the node of a task in the dependency graph, the edge
that `kupl_gnode_precede` adds, and the walk over the successors that `gnode_release_ready` makes when
a task has finished.

C++ → Lean naming: `kupl_gnode_t` → `Gnode`; `kupl_gnode_init` → `gnodeInit`;
`kupl_gnode_precede` → `gnodePrecede`; `gnode_release_ready` → `releaseWalk`/`gnodeReleaseReady`;
`kupl_gnode_reset` → `gnodeReset`.

A state of the nodes is a function from tasks to nodes. The `uint32_t` counters are integers, since
no node has 2³⁰ edges; a counter that is decremented before it is incremented is `-1`. The field
`n_soft_predecessors` and the list's `tail` are never read.
-/

namespace Kupl.Dag
open Function (update)

variable {τ : Type*} [DecidableEq τ]

/-- A node of the graph (C++ `kupl_gnode_t`). -/
structure Gnode (τ : Type*) where
  successors : List τ
  nSuccessors : Nat
  nHardPredecessors : Int
  nPredecessors : Int

/-- A new node (C++ `kupl_gnode_init`). -/
def gnodeInit : Gnode τ := ⟨[], 0, 0, 0⟩

/-- The edges of a state of the nodes. -/
def succs (g : τ → Gnode τ) (p : τ) : List τ := (g p).successors

/-- What `kupl_gnode_precede` does under the lock of `precede`. -/
def gnodeInsert (g : τ → Gnode τ) (precede succeed : τ) : τ → Gnode τ :=
  update g precede
    { g precede with
      successors := succeed :: (g precede).successors
      nSuccessors := (g precede).nSuccessors + 1 }

/-- What `kupl_gnode_precede` does after the unlock. -/
def gnodeCount (g : τ → Gnode τ) (succeed : τ) : τ → Gnode τ :=
  update g succeed
    { g succeed with
      nHardPredecessors := (g succeed).nHardPredecessors + 1
      nPredecessors := (g succeed).nPredecessors + 1 }

/-- An edge from `precede` to `succeed`, unless `precede` is null or has finished; the number of edges
added (C++ `kupl_gnode_precede`). -/
def gnodePrecede (finished : τ → Bool) (g : τ → Gnode τ) (precede : Option τ) (succeed : τ) :
    (τ → Gnode τ) × Nat :=
  match precede with
  | none => (g, 0)
  | some p =>
    if finished p then (g, 0)
    else (gnodeCount (gnodeInsert g p succeed) succeed, 1)

/-- One `kupl_gnode_precede` after another. -/
def precedeAll (finished : τ → Bool) (g : τ → Gnode τ) (succeed : τ) :
    List (Option τ) → (τ → Gnode τ) × Nat
  | [] => (g, 0)
  | p :: ps =>
    let r := gnodePrecede finished g p succeed
    let rs := precedeAll finished r.1 succeed ps
    (rs.1, r.2 + rs.2)

/-- The atomic decrement of `gnode_release_ready`. -/
def gnodeRelease (g : τ → Gnode τ) (t : τ) : τ → Gnode τ :=
  update g t { g t with nPredecessors := (g t).nPredecessors - 1 }

/-- Decrements the counter of each successor in turn and collects those that were at one
(C++ `gnode_release_ready`). -/
def releaseWalk (g : τ → Gnode τ) : List τ → (τ → Gnode τ) × List τ
  | [] => (g, [])
  | t :: ts =>
    let r := releaseWalk (gnodeRelease g t) ts
    if (g t).nPredecessors = 1 then (r.1, t :: r.2) else r

/-- Releases the successors of a node and returns the tasks that are ready
(C++ `kupl_gnode_release_ready`). -/
def gnodeReleaseReady (g : τ → Gnode τ) (p : τ) : (τ → Gnode τ) × List τ :=
  releaseWalk g (g p).successors

/-- Arms a node again (C++ `kupl_gnode_reset`). -/
def gnodeReset (g : τ → Gnode τ) (t : τ) : τ → Gnode τ :=
  update g t { g t with nPredecessors := (g t).nHardPredecessors }

section Edge
variable {finished : τ → Bool} {g : τ → Gnode τ} {p s t : τ} {ps : List (Option τ)}

lemma succs_insert : succs (gnodeInsert g p s) = update (succs g) p (s :: succs g p) := by
  funext q
  by_cases h : q = p
  · subst h
    simp [succs, gnodeInsert]
  · simp [succs, gnodeInsert, h]

@[simp] lemma succs_count : succs (gnodeCount g s) = succs g := by
  funext q
  by_cases h : q = s
  · subst h
    simp [succs, gnodeCount]
  · simp [succs, gnodeCount, h]

@[simp] lemma nPredecessors_insert : (gnodeInsert g p s t).nPredecessors = (g t).nPredecessors := by
  by_cases h : t = p
  · subst h
    simp [gnodeInsert]
  · simp [gnodeInsert, h]

@[simp] lemma nHardPredecessors_insert : (gnodeInsert g p s t).nHardPredecessors = (g t).nHardPredecessors := by
  by_cases h : t = p
  · subst h
    simp [gnodeInsert]
  · simp [gnodeInsert, h]

lemma nPredecessors_count : (gnodeCount g s t).nPredecessors = (g t).nPredecessors + if s = t then 1 else 0 := by
  by_cases h : s = t
  · subst h
    simp [gnodeCount]
  · simp [gnodeCount, h, Ne.symm h]

lemma nHardPredecessors_count :
    (gnodeCount g s t).nHardPredecessors = (g t).nHardPredecessors + if s = t then 1 else 0 := by
  by_cases h : s = t
  · subst h
    simp [gnodeCount]
  · simp [gnodeCount, h, Ne.symm h]

lemma nPredecessors_precede {p : Option τ} : ((gnodePrecede finished g p s).1 t).nPredecessors =
      (g t).nPredecessors + if s = t then ((gnodePrecede finished g p s).2 : Int) else 0 := by
  unfold gnodePrecede
  cases p with
  | none => simp
  | some p =>
    by_cases h : finished p = true
    · simp [h]
    · simp [h, nPredecessors_count]

lemma nPredecessors_precedeAll : ((precedeAll finished g s ps).1 t).nPredecessors =
      (g t).nPredecessors + if s = t then ((precedeAll finished g s ps).2 : Int) else 0 := by
  induction ps generalizing g with
  | nil => simp [precedeAll]
  | cons p ps ih =>
    simp only [precedeAll]
    rw [ih, nPredecessors_precede]
    split
    · omega
    · omega

lemma succs_precede_sub {p : Option τ} {q u : τ} (h : u ∈ succs g q) :
    u ∈ succs (gnodePrecede finished g p s).1 q := by
  unfold gnodePrecede
  cases p with
  | none => exact h
  | some p =>
    by_cases hf : finished p = true
    · simpa [hf] using h
    · simp only [hf, Bool.false_eq_true, if_false, succs_count, succs_insert]
      by_cases e : q = p
      · subst e
        simp [h]
      · simpa [e] using h

lemma succs_precedeAll_sub (ps : List (Option τ)) {q u : τ} (h : u ∈ succs g q) :
    u ∈ succs (precedeAll finished g s ps).1 q := by
  induction ps generalizing g with
  | nil => exact h
  | cons p ps ih => exact ih (succs_precede_sub h)

lemma mem_succs_precede {p : Option τ} {q u : τ} (h : u ∈ succs (gnodePrecede finished g p s).1 q) :
    u ∈ succs g q ∨ u = s ∧ p = some q ∧ finished q = false := by
  unfold gnodePrecede at h
  cases p with
  | none => exact .inl h
  | some p =>
    by_cases hf : finished p = true
    · exact .inl (by simpa [hf] using h)
    · simp only [hf, Bool.false_eq_true, if_false, succs_count, succs_insert] at h
      by_cases e : q = p
      · subst e
        simp only [Function.update_self, List.mem_cons] at h
        rcases h with rfl | h
        · exact .inr ⟨rfl, rfl, by simpa using hf⟩
        · exact .inl h
      · exact .inl (by simpa [e] using h)

lemma mem_succs_precedeAll {q u : τ} (h : u ∈ succs (precedeAll finished g s ps).1 q) :
    u ∈ succs g q ∨ u = s ∧ some q ∈ ps ∧ finished q = false := by
  induction ps generalizing g with
  | nil => exact .inl h
  | cons p ps ih =>
    rcases ih h with h | ⟨rfl, hq, hf⟩
    · rcases mem_succs_precede h with h | ⟨rfl, rfl, hf⟩
      · exact .inl h
      · exact .inr ⟨rfl, by simp, hf⟩
    · exact .inr ⟨rfl, by simp [hq], hf⟩

lemma succs_precedeAll_mem (h : some p ∈ ps) (hf : finished p = false) :
    s ∈ succs (precedeAll finished g s ps).1 p := by
  induction ps generalizing g with
  | nil => cases h
  | cons q ps ih =>
    rcases List.mem_cons.1 h with rfl | h
    · have first : s ∈ succs (gnodePrecede finished g (some p) s).1 p := by
        simp [gnodePrecede, hf, succs_insert]
      exact succs_precedeAll_sub ps first
    · exact ih h

end Edge

section Release
variable {g : τ → Gnode τ} {p t u : τ} {ts : List τ}

@[simp] lemma succs_release : succs (gnodeRelease g t) = succs g := by
  funext q
  by_cases h : q = t
  · subst h
    simp [succs, gnodeRelease]
  · simp [succs, gnodeRelease, h]

lemma nPredecessors_release : (gnodeRelease g u t).nPredecessors = (g t).nPredecessors - if u = t then 1 else 0 := by
  by_cases h : u = t
  · subst h
    simp [gnodeRelease]
  · simp [gnodeRelease, h, Ne.symm h]

@[simp] lemma nHardPredecessors_release : (gnodeRelease g u t).nHardPredecessors = (g t).nHardPredecessors := by
  by_cases h : t = u
  · subst h
    simp [gnodeRelease]
  · simp [gnodeRelease, h]

lemma releaseWalk_cons_fst : (releaseWalk g (u :: ts)).1 = (releaseWalk (gnodeRelease g u) ts).1 := by
  simp only [releaseWalk]
  split <;> rfl

lemma releaseWalk_cons_snd : (releaseWalk g (u :: ts)).2 =
      if (g u).nPredecessors = 1 then u :: (releaseWalk (gnodeRelease g u) ts).2
      else (releaseWalk (gnodeRelease g u) ts).2 := by
  simp only [releaseWalk]
  split <;> rfl

@[simp] lemma succs_releaseWalk : succs (releaseWalk g ts).1 = succs g := by
  induction ts generalizing g with
  | nil => rfl
  | cons u ts ih => rw [releaseWalk_cons_fst, ih, succs_release]

lemma releaseWalk_nPredecessors : ((releaseWalk g ts).1 t).nPredecessors = (g t).nPredecessors - ts.count t := by
  induction ts generalizing g with
  | nil => simp [releaseWalk]
  | cons u ts ih =>
    rw [releaseWalk_cons_fst, ih, nPredecessors_release, List.count_cons]
    by_cases h : u = t
    · simp [h]
      omega
    · simp [h]

@[simp] lemma releaseWalk_nHardPredecessors : ((releaseWalk g ts).1 t).nHardPredecessors = (g t).nHardPredecessors := by
  induction ts generalizing g with
  | nil => rfl
  | cons u ts ih => rw [releaseWalk_cons_fst, ih, nHardPredecessors_release]

lemma releaseWalk_ready : (releaseWalk g ts).2.count t =
      if 1 ≤ (g t).nPredecessors ∧ (g t).nPredecessors ≤ ts.count t then 1 else 0 := by
  induction ts generalizing g with
  | nil =>
    rw [if_neg (by simp; omega)]
    rfl
  | cons u ts ih =>
    have head : (releaseWalk g (u :: ts)).2.count t = (releaseWalk (gnodeRelease g u) ts).2.count t +
          if (g u).nPredecessors = 1 ∧ u = t then 1 else 0 := by
      rw [releaseWalk_cons_snd]
      by_cases h : (g u).nPredecessors = 1
      · simp [h, List.count_cons]
      · simp [h]
    rw [head, ih, nPredecessors_release, List.count_cons]
    by_cases h : u = t
    · subst h
      simp only [beq_self_eq_true, if_true, and_true]
      split <;> split <;> split <;> omega
    · simp [h]

lemma mem_releaseWalk_ready : t ∈ (releaseWalk g ts).2 ↔
      1 ≤ (g t).nPredecessors ∧ (g t).nPredecessors ≤ ts.count t := by
  rw [← List.count_pos_iff, releaseWalk_ready]
  split
  · rename_i h
    simp [h]
  · rename_i h
    simp [h]

lemma releaseWalk_nodup : (releaseWalk g ts).2.Nodup := by
  rw [List.nodup_iff_count_le_one]
  intro t
  rw [releaseWalk_ready]
  split <;> omega

@[simp] lemma succs_reset : succs (gnodeReset g p) = succs g := by
  funext q
  by_cases h : q = p
  · subst h
    simp [succs, gnodeReset]
  · simp [succs, gnodeReset, h]

lemma nPredecessors_reset_ne (h : t ≠ p) : (gnodeReset g p t).nPredecessors = (g t).nPredecessors := by
  simp [gnodeReset, h]

@[simp] lemma nHardPredecessors_reset : (gnodeReset g p t).nHardPredecessors = (g t).nHardPredecessors := by
  by_cases h : t = p
  · subst h
    simp [gnodeReset]
  · simp [gnodeReset, h]

end Release
end Kupl.Dag
