import Kupl.Bcast.Notify

/-!
# The linear broadcast (`do_bcast_linear`)

The root notifies the others that it is there, each of them copies its buffer, and the root waits until all have. Who
copies has the root in the same broadcast: it has seen the root come (`root_came`), and the root cannot leave before it
has been notified (`root_stays`).
-/

namespace Kupl.Bcast.Linear
open Script List

/-- (C++ `do_bcast_linear`). -/
def doBcastLinear (numprocs dataSize root myid : Nat) : Code :=
  notifyOthers (othersFlags root) myid root ++
    ((if myid ≠ root then memcpy myid root 0 dataSize else []) ++ notifyRoot (rootFlags root) 0 numprocs myid root)

variable {α : Type} [Add α] {n size root p q : Nat} {s : State Flag Byte α} {d t : Code} {f : Flag} {l l' : Byte}
  {g : State Flag Byte α → Label Byte α → Prop}

lemma flags_ne : othersFlags root p ≠ rootFlags root q := nofun

lemma count_copies : (if p ≠ root then memcpy p root 0 size else []).count (.inc f) = 0 := by
  split
  · exact count_memcpy
  · rfl

lemma count_inc : (doBcastLinear n size root p).count (.inc f) =
    (if f = othersFlags root p then 1 else 0) + if f = rootFlags root p then 1 else 0 := by
  rw [doBcastLinear, count_append, count_append, count_notifyOthers, count_notifyRoot, count_copies,
    Nat.zero_add]

lemma count_others : (doBcastLinear n size root p).count (.inc (othersFlags root p)) = 1 := by
  rw [count_inc, if_pos rfl, if_neg flags_ne]

lemma count_root : (doBcastLinear n size root p).count (.inc (rootFlags root p)) = 1 := by
  rw [count_inc, if_pos rfl, if_neg flags_ne.symm]

lemma own {p : Nat} {c : Flag} (mem : .inc c ∈ doBcastLinear n size root p) : writer c = p := by
  have pos := count_pos_iff.2 mem
  rw [count_inc] at pos
  by_cases isOthers : c = othersFlags root p
  · rw [isOthers]
    rfl
  · by_cases isRoot : c = rootFlags root p
    · rw [isRoot]
      rfl
    · rw [if_neg isOthers, if_neg isRoot] at pos
      cases pos

lemma mem_copy : .copy l l' ∈ doBcastLinear n size root p ↔ p ≠ root ∧ l.1 = p ∧ l' = (root, l.2) ∧
    l.2 < size := by
  rw [doBcastLinear, mem_append, mem_append]
  constructor
  · rintro (mem | mem | mem)
    · exact absurd mem copy_notMem_notifyOthers
    · split at mem
      case isTrue other =>
        obtain ⟨isP, src, -, lt⟩ := mem_memcpy.1 mem
        exact ⟨other, isP, src, by omega⟩
      case isFalse => cases mem
    · exact absurd mem copy_notMem_notifyRoot
  · rintro ⟨other, isP, src, lt⟩
    right
    left
    rw [if_pos other]
    exact mem_memcpy.2 ⟨isP, src, Nat.zero_le _, by omega⟩

section Run
variable (h : (machine n (doBcastLinear n size root) Prod.fst).Reach g s)
include h

section
variable (at_q : s.pc q = some (d, .copy l l' :: t))
include at_q

lemma at_copy : ∃ d', d = notifyOthers (othersFlags root) q root ++ d' ∧ d.count (.inc (rootFlags root q)) = 0 := by
  have parts := split h q d _ at_q
  rw [doBcastLinear] at parts
  obtain ⟨d', isD, rest⟩ := split_right parts copy_notMem_notifyOthers
  obtain ⟨t', copies, -⟩ := split_left rest.symm copy_notMem_notifyRoot
  refine ⟨d', isD, ?_⟩
  have none : (if q ≠ root then memcpy q root 0 size else []).count (.inc (rootFlags root q)) = 0 := count_copies
  rw [copies, count_append] at none
  rw [isD, count_append, count_notifyOthers, if_neg flags_ne.symm]
  omega

lemma root_came (other : q ≠ root) : s.Has root (s.left q) (.inc (othersFlags root root)) := by
  obtain ⟨d', isD, -⟩ := at_copy h at_q
  rw [isD] at at_q
  have first : doBcastLinear n size root root = [] ++ .inc (othersFlags root root) ::
      ([] ++ notifyRoot (rootFlags root) 0 n root root) := by
    rw [doBcastLinear, notifyOthers, if_pos rfl, if_neg fun ne => ne rfl]
    rfl
  exact notified_has (u := []) h (fun p c => own) rfl other rfl rfl (over_in at_q) count_others rfl first count_others
    rfl _ mem_cons_self

lemma root_stays (other : q ≠ root) : s.left root ≤ s.left q := by
  by_contra left
  have lt : q < n := rank_lt h (by rw [at_q]; nofun)
  obtain ⟨-, -, none⟩ := at_copy h at_q
  have is : doBcastLinear n size root root = (notifyOthers (othersFlags root) root root ++ []) ++
      (notifyRoot (rootFlags root) 0 n root root ++ []) := by
    rw [doBcastLinear, if_neg fun ne => ne rfl, append_nil, append_nil]
    rfl
  have behind := notified_root h (fun p c => own) is (Nat.zero_le q) lt other.symm rfl rfl
    (over_left (Nat.lt_of_not_le left))
  rw [State.executed, State.done_in at_q, none, count_root, count_root] at behind
  omega

end

lemma safe : Safe (doBcastLinear n size root) Prod.fst root s := by
  intro q d t l l' at_q
  have mem : .copy l l' ∈ doBcastLinear n size root q := by
    rw [← split h q d _ at_q]
    exact mem_append_right d mem_cons_self
  obtain ⟨other, rfl, rfl, -⟩ := mem_copy.1 mem
  refine ⟨State.inside_in at_q, ?_, .inl rfl⟩
  exact inside_of_has (root_came h at_q other) (root_stays h at_q other)

end Run

lemma copies : Copies (doBcastLinear n size root) Prod.fst (fun l => (root, l.2)) root := by
  refine ⟨fun l isRoot => ?_, fun p l l' mem => ?_, fun p l a b mem => ?_⟩
  · rw [← isRoot]
  · obtain ⟨-, -, rfl, -⟩ := mem_copy.1 mem
    rfl
  · rw [doBcastLinear, mem_append, mem_append] at mem
    obtain mem | mem | mem := mem
    · exact add_notMem_notifyOthers mem
    · split at mem
      · exact add_notMem_memcpy mem
      · cases mem
    · exact add_notMem_notifyRoot mem

lemma right (h : (machine n (doBcastLinear n size root) Prod.fst).Reach g s) : Right root size s := by
  refine right_of copies (fun s h => safe h) h fun p d at_p o lt => ?_
  by_cases isRoot : p = root
  · exact .inl isRoot
  · have mem : .copy (p, o) (root, o) ∈ doBcastLinear n size root p := mem_copy.2 ⟨isRoot, rfl, rfl, lt⟩
    refine .inr ⟨p, (root, o), mem, .inr ⟨rfl, ?_⟩⟩
    have all := split h p d [] at_p
    rw [append_nil] at all
    rwa [State.done_in at_p, all]

end Kupl.Bcast.Linear
