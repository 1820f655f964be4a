import Kupl.Shmc.Allreduce

/-!
# The status of the sum over all ranks (`do_allreduce_with_rb_rh_rd`)

Each of the four routines returns `KUPL_ERROR` when a window query or a copy fails, and leaves out what it would have
done after that. The caller drops these statuses; what it returns is the status of the last fence. So with two ranks or
more it never returns anything but `KUPL_OK` (`ok_of_many`), and a rank is honest if and only if nothing fails in its
routines. A single rank copies its buffer and returns the status of that.
-/

namespace Kupl.Shmc.Allreduce
open Script Faulty List

/-- The ranks of a communicator (C++ `do_allreduce_with_rb_rh_rd`). -/
abbrev ranks {α : Type} [Add α] (n : Nat) (req : Nat → Request) :
    Machine (Faulty.State Op Flag Loc α) (Faulty.Label Loc α) :=
  machine n (fun p => doAllreduceWithRbRhRd n p (req p)) Loc.rank

/-- A query, a copy or a send has failed in the call of a rank. -/
def Failed {α : Type} (s : Faulty.State Op Flag Loc α) (p : Nat) : Prop := ∃ f ∈ s.frame p, false ∈ f.ended

/-- Nobody returns from a call of several ranks in which something has failed. -/
def Whole {α : Type} (n : Nat) (s : Faulty.State Op Flag Loc α) : Faulty.Label Loc α → Prop
  | .ret p => n = 1 ∨ ¬ Failed s p
  | .enter _ | .run _ | .fail _ | .set _ _ => True

instance Whole.decidable {α : Type} (n : Nat) (s : Faulty.State Op Flag Loc α) :
    (a : Faulty.Label Loc α) → Decidable (Whole n s a)
  | .ret p => inferInstanceAs (Decidable (n = 1 ∨ ¬ ∃ f ∈ s.frame p, false ∈ f.ended))
  | .enter _ | .run _ | .fail _ | .set _ _ => .isTrue trivial

variable {α : Type} [Add α] {n p : Nat} {req : Nat → Request} {r : Request} {s s' : Faulty.State Op Flag Loc α}
  {g : Faulty.State Op Flag Loc α → Faulty.Label Loc α → Prop}

lemma attempt_notMem_shmFence {win : Nat} {o : Op} : .attempt o ∉ shmFence win n p := by
  intro mem
  obtain ⟨x, -, is⟩ := mem_map.1 mem
  cases is

lemma plain (many : n ≠ 1) : ∀ c ∈ doAllreduceWithRbRhRd n p r, c.checked = true →
    ∀ o, .attempt o ∉ c.acts := by
  intro c mem checked o
  have dropped {c : Routine Op Flag Loc} {code : Code} (mem : c ∈ [⟨false, code⟩]) : c.checked ≠ true := by
    rw [mem_singleton.1 mem]
    exact Bool.false_ne_true
  have optional {cond : Prop} [Decidable cond] {code : Code}
      (mem : c ∈ if cond then [(⟨false, code⟩ : Routine Op Flag Loc)] else []) : c.checked ≠ true := by
    split at mem
    case isTrue => exact dropped mem
    case isFalse => cases mem
  rw [doAllreduceWithRbRhRd, if_neg many] at mem
  obtain mem | mem := mem_append.1 mem
  · exact absurd checked (optional mem)
  · obtain rfl | mem := mem_cons.1 mem
    · exact attempt_notMem_shmFence
    · rw [mem_append, mem_append] at mem
      obtain (mem | mem) | mem := mem
      · split at mem
        case h_1 => cases mem
        case h_2 =>
          obtain rfl | mem := mem_cons.1 mem
          · cases checked
          · exact absurd checked (dropped mem)
      · exact absurd checked (optional mem)
      · rw [mem_singleton.1 mem]
        exact attempt_notMem_shmFence

lemma ok_of_many (h : (ranks n req).Reach g s) (many : n ≠ 1) {f : Frame Op Flag Loc} (at_p : s.frame p = some f) :
    f.ok = true :=
  ok_of_plain h (fun _ => plain many) at_p

lemma lost_iff (h : (ranks n req).Reach g s) : Lost s p ↔ n ≠ 1 ∧ Failed s p := by
  constructor
  · intro L
    refine ⟨?_, ?_⟩
    · rintro rfl
      refine not_lost h (fun p r mem => ?_) L
      rw [doAllreduceWithRbRhRd, if_pos rfl] at mem
      rw [mem_singleton.1 mem]
    · obtain ⟨f, at_p, -, mem⟩ := L
      exact ⟨f, at_p, mem⟩
  · rintro ⟨many, f, at_p, mem⟩
    exact ⟨f, at_p, ok_of_many h many at_p, mem⟩

lemma honest_iff (h : (ranks n req).Reach g s) {a : Faulty.Label Loc α} (H : Honest s)
    (st : (ranks n req).step s a = some s') : Honest s' ↔ Whole n s a := by
  rw [honest_step (machine_step st).2 H]
  cases a with
  | ret p =>
    rw [Whole, ← Decidable.not_not (p := n = 1), ← not_and_or, ← lost_iff h]
    exact ⟨fun kept => kept p rfl, fun kept q is => Faulty.Label.ret.inj is ▸ kept⟩
  | enter | run | fail | set => exact ⟨fun _ => trivial, fun _ q is => by cases is⟩

/-- Two ranks sum up one `int` each, from the beginning of window 3 to offset 8 of window 7. -/
def request : Request := ⟨3, 7, ⟨some 3, 0⟩, ⟨some 7, 8⟩, 1, .sum, .int, 4, .auto, 0, 8⟩

/-- Rank 0 has 5, rank 1 has 6. -/
def start : Faulty.State Op Flag Loc Nat := State.fresh fun l => if l.win = some 3 then 5 + l.rank else 0

/-- Some steps of a rank. -/
def runs (p k : Nat) : List (Faulty.Label Loc Nat) := List.replicate k (.run p)

/-- The two ranks come to the point where rank 1 copies the sum that rank 0 has. -/
def upToCopy : List (Faulty.Label Loc Nat) :=
  [.enter 0, .enter 1] ++ runs 0 2 ++ runs 1 1 ++ runs 0 4 ++ runs 1 5 ++ runs 0 4 ++ runs 1 3 ++ runs 0 5 ++ runs 1 2

/-- What the two ranks have returned, and what rank 1 has in its buffer. -/
def result (s : Faulty.State Op Flag Loc Nat) : List (Bool × List Bool) × List (Bool × List Bool) × Nat :=
  (s.returned 0, s.returned 1, s.val (request.recv 1))

end Kupl.Shmc.Allreduce
