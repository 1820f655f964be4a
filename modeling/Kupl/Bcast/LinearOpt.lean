import Kupl.Bcast.Notify
import Mathlib.Data.List.Nodup

/-!
# The linear broadcast with help of the root (`do_bcast_linear_opt`)

The root writes the first bytes to each of the others, which copy the rest. Before, the root waits until all have come
(`come`), so that it writes to nobody who is not there; and each waits in the end until the root has written to it
(`helped`), so that the root writes to nobody who is there no longer. The second time that the root is notified is as in
the linear broadcast: it stays until all have copied.
-/

namespace Kupl.Bcast.LinearOpt
open Script List

/-- All ranks but the root. -/
def others (numprocs root : Nat) : List Nat := (List.range numprocs).filter fun i => i ≠ root

/-- (C++ `do_bcast_linear_opt`). -/
def doBcastLinearOpt (numprocs dataSize root myid : Nat) : Code :=
  let rootMemcpySize := dataSize / numprocs
  let leftMemcpySize := dataSize - rootMemcpySize
  (if myid = root then [.inc (p2pFlags root root)] else []) ++ (notifyOthers (othersFlags root) myid root ++
    ([.load (p2pFlags root root)] ++
    (notifyRoot (rootFlags root) 0 numprocs myid root ++
    ((if myid ≠ root then memcpy myid root rootMemcpySize leftMemcpySize
      else help (p2pFlags root) (others numprocs root) root rootMemcpySize) ++
    (notifyRoot (rootFlags root) 0 numprocs myid root ++
    if myid ≠ root then [.waitReg (p2pFlags root myid)] else [])))))

variable {α : Type} [Add α] {n size m r root p q i k : Nat} {s : State Flag Byte α} {d t : Code}
  {f : Flag} {l l' : Byte}
  {g : State Flag Byte α → Label Byte α → Prop}

/-! ## What stands in the scripts -/

lemma mem_others : i ∈ others n root ↔ i < n ∧ i ≠ root := by
  rw [others, mem_filter, mem_range, decide_eq_true_iff]

lemma tell_inj (i j : Nat) (same : p2pFlags root i = p2pFlags root j) : i = j := congrArg Flag.id same

lemma count_others_help (lt : i < n) (ne : i ≠ root) :
    (help (p2pFlags root) (others n root) root m).count (.inc (p2pFlags root i)) = 1 := by
  rw [count_help tell_inj]
  apply count_eq_one_of_mem
  · exact nodup_range.filter _
  · exact mem_others.2 ⟨lt, ne⟩

lemma count_middle (other : f.win ≠ .p2p) :
    (if p ≠ root then memcpy p root r m else help (p2pFlags root) (others n root) root r).count (.inc f) = 0 := by
  split
  · exact count_memcpy
  · apply count_eq_zero.2
    intro mem
    obtain ⟨i, -, mem | is⟩ := mem_help.1 mem
    · obtain ⟨l, l', is⟩ := memcpy_only mem
      cases is
    · cases is
      exact other rfl

lemma count_first (other : f.win ≠ .p2p) :
    (if p = root then [.inc (p2pFlags root root)] else [] : Code).count (.inc f) = 0 := by
  split
  · apply count_eq_zero.2
    intro mem
    cases mem_singleton.1 mem
    exact other rfl
  · rfl

lemma count_last : (if p ≠ root then [.waitReg (p2pFlags root p)] else [] : Code).count (.inc f) = 0 := by
  split
  · apply count_eq_zero.2
    intro mem
    cases mem_singleton.1 mem
  · rfl

lemma count_inc (other : f.win ≠ .p2p) : (doBcastLinearOpt n size root p).count (.inc f) =
    (if f = othersFlags root p then 1 else 0) + 2 * if f = rootFlags root p then 1 else 0 := by
  have load : ([.load (p2pFlags root root)] : Code).count (.inc f) = 0 := rfl
  rw [doBcastLinearOpt]
  simp only [count_append]
  rw [count_first other, count_notifyOthers, load, count_notifyRoot, count_middle other, count_last]
  omega

lemma others_ne : (othersFlags root p).win ≠ .p2p := nofun

lemma root_ne : (rootFlags root p).win ≠ .p2p := nofun

lemma flags_ne : othersFlags root p ≠ rootFlags root q := nofun

lemma count_others : (doBcastLinearOpt n size root p).count (.inc (othersFlags root p)) = 1 := by
  rw [count_inc others_ne, if_pos rfl, if_neg flags_ne]

lemma count_root : (doBcastLinearOpt n size root p).count (.inc (rootFlags root p)) = 2 := by
  rw [count_inc root_ne, if_pos rfl, if_neg flags_ne.symm]

lemma own {p : Nat} {c : Flag} (mem : .inc c ∈ doBcastLinearOpt n size root p) : writer c = p := by
  rw [doBcastLinearOpt] at mem
  simp only [mem_append] at mem
  obtain mem | mem | mem | mem | mem | mem | mem := mem
  · split at mem
    case isTrue isRoot =>
      cases mem_singleton.1 mem
      exact isRoot.symm
    case isFalse => cases mem
  · rw [inc_mem_notifyOthers mem]
    rfl
  · cases mem_singleton.1 mem
  · rw [inc_mem_notifyRoot mem]
    rfl
  · split at mem
    case isTrue => exact absurd mem inc_notMem_memcpy
    case isFalse isRoot =>
      obtain ⟨i, -, mem | is⟩ := mem_help.1 mem
      · exact absurd mem inc_notMem_memcpy
      · cases is
        exact (not_not.1 isRoot).symm
  · rw [inc_mem_notifyRoot mem]
    rfl
  · split at mem
    · cases mem_singleton.1 mem
    · cases mem

lemma mem_copy (mem : .copy l l' ∈ doBcastLinearOpt n size root p) :
    .copy l l' ∈ if p ≠ root then memcpy p root (size / n) (size - size / n)
      else help (p2pFlags root) (others n root) root (size / n) := by
  rw [doBcastLinearOpt] at mem
  simp only [mem_append] at mem
  obtain mem | mem | mem | mem | mem | mem | mem := mem
  · split at mem
    · cases mem_singleton.1 mem
    · cases mem
  · exact absurd mem copy_notMem_notifyOthers
  · cases mem_singleton.1 mem
  · exact absurd mem copy_notMem_notifyRoot
  · exact mem
  · exact absurd mem copy_notMem_notifyRoot
  · split at mem
    · cases mem_singleton.1 mem
    · cases mem

lemma copy_cases (mem : .copy l l' ∈ doBcastLinearOpt n size root p) : l' = (root, l.2) ∧
    ((p ≠ root ∧ l.1 = p) ∨ (p = root ∧ l.1 < n ∧ l.1 ≠ root)) := by
  have mem := mem_copy mem
  split at mem
  case isTrue other =>
    obtain ⟨isP, src, -⟩ := mem_memcpy.1 mem
    exact ⟨src, .inl ⟨other, isP⟩⟩
  case isFalse isRoot =>
    obtain ⟨i, other, mem | is⟩ := mem_help.1 mem
    · obtain ⟨lt, ne⟩ := mem_others.1 other
      obtain ⟨rfl, src, -⟩ := mem_memcpy.1 mem
      exact ⟨src, .inr ⟨not_not.1 isRoot, lt, ne⟩⟩
    · cases is

lemma copies : Copies (doBcastLinearOpt n size root) Prod.fst (fun l => (root, l.2)) root := by
  refine ⟨fun l isRoot => ?_, fun p l l' mem => ?_, fun p l a b mem => ?_⟩
  · rw [← isRoot]
  · obtain ⟨rfl, -⟩ := copy_cases mem
    rfl
  · rw [doBcastLinearOpt] at mem
    simp only [mem_append] at mem
    obtain mem | mem | mem | mem | mem | mem | mem := mem
    · split at mem
      · cases mem_singleton.1 mem
      · cases mem
    · exact add_notMem_notifyOthers mem
    · cases mem_singleton.1 mem
    · exact add_notMem_notifyRoot mem
    · split at mem
      · exact add_notMem_memcpy mem
      · obtain ⟨i, -, mem | is⟩ := mem_help.1 mem
        · exact add_notMem_memcpy mem
        · cases is
    · exact add_notMem_notifyRoot mem
    · split at mem
      · cases mem_singleton.1 mem
      · cases mem

lemma mem_load {c : Flag} (mem : .load c ∈ doBcastLinearOpt n size root p) : c = p2pFlags root root := by
  rw [doBcastLinearOpt] at mem
  simp only [mem_append] at mem
  obtain mem | mem | mem | mem | mem | mem | mem := mem
  · split at mem
    · cases mem_singleton.1 mem
    · cases mem
  · exact absurd mem load_notMem_notifyOthers
  · exact Instr.load.inj (mem_singleton.1 mem)
  · exact absurd mem load_notMem_notifyRoot
  · split at mem
    · exact absurd mem load_notMem_memcpy
    · obtain ⟨i, -, mem | is⟩ := mem_help.1 mem
      · exact absurd mem load_notMem_memcpy
      · cases is
  · exact absurd mem load_notMem_notifyRoot
  · split at mem
    · cases mem_singleton.1 mem
    · cases mem

lemma load_count {c : Flag} : ([.load c] : Code).count (.inc f) = 0 := rfl

lemma count_told (size : Nat) (lt : i < n) (ne : i ≠ root) :
    (doBcastLinearOpt n size root root).count (.inc (p2pFlags root i)) = 1 := by
  have first : ([.inc (p2pFlags root root)] : Code).count (.inc (p2pFlags root i)) = 0 := by
    apply count_eq_zero.2
    rw [mem_singleton]
    intro is
    exact ne (congrArg Flag.id (Instr.inc.inj is))
  rw [doBcastLinearOpt, if_pos rfl, if_neg fun h => h rfl, if_neg fun h => h rfl]
  simp only [count_append]
  rw [first, count_notifyOthers, if_neg nofun, load_count, count_notifyRoot, if_neg nofun, count_others_help lt ne]
  rfl

lemma helps (size : Nat) (lt : i < n) (ne : i ≠ root) : ∃ u v, doBcastLinearOpt n size root root =
    (u ++ memcpy i root 0 (size / n)) ++ .inc (p2pFlags root i) :: v := by
  obtain ⟨u, v, is⟩ := help_split (p2pFlags root) root (size / n) (mem_others.2 ⟨lt, ne⟩)
  refine ⟨[.inc (p2pFlags root root)] ++ (notifyOthers (othersFlags root) root root ++
    ([.load (p2pFlags root root)] ++
    (notifyRoot (rootFlags root) 0 n root root ++ u))), v ++ (notifyRoot (rootFlags root) 0 n root root ++ []), ?_⟩
  rw [doBcastLinearOpt, if_pos rfl, if_neg fun h => h rfl, if_neg fun h => h rfl, is]
  simp only [append_assoc, cons_append, nil_append]

section Run
variable (h : (machine n (doBcastLinearOpt n size root) Prod.fst).Reach g s)
include h

lemma at_copy (at_q : s.pc q = some (d, .copy l l' :: t)) : ∃ d' t',
    d = (if q = root then [.inc (p2pFlags root root)] else []) ++ (notifyOthers (othersFlags root) q root ++
      ([.load (p2pFlags root root)] ++ (notifyRoot (rootFlags root) 0 n q root ++ d'))) ∧
    (if q ≠ root then memcpy q root (size / n) (size - size / n)
      else help (p2pFlags root) (others n root) root (size / n)) =
      d' ++ .copy l l' :: t' := by
  have parts := split h q d _ at_q
  rw [doBcastLinearOpt] at parts
  have first : .copy l l' ∉ (if q = root then [.inc (p2pFlags root root)] else [] : Code) := by
    intro mem
    split at mem
    · cases mem_singleton.1 mem
    · cases mem
  have last : .copy l l' ∉ (notifyRoot (rootFlags root) 0 n q root ++
      if q ≠ root then [.waitReg (p2pFlags root q)] else [] : Code) := by
    rw [mem_append]
    rintro (mem | mem)
    · exact copy_notMem_notifyRoot mem
    · split at mem
      · cases mem_singleton.1 mem
      · cases mem
  have load : .copy l l' ∉ ([.load (p2pFlags root root)] : Code) := by
    rw [mem_singleton]
    nofun
  obtain ⟨d₁, isD, rest₁⟩ := split_right parts first
  obtain ⟨d₂, isD₁, rest₂⟩ := split_right rest₁.symm copy_notMem_notifyOthers
  obtain ⟨d₃, isD₂, rest₃⟩ := split_right rest₂.symm load
  obtain ⟨d₄, isD₃, rest₄⟩ := split_right rest₃.symm copy_notMem_notifyRoot
  obtain ⟨t', middle, -⟩ := split_left rest₄.symm last
  exact ⟨d₄, t', by rw [isD, isD₁, isD₂, isD₃], middle⟩

lemma root_came (other : q ≠ root) (O : s.Over q k ([] ++ notifyOthers (othersFlags root) q root)) :
    s.Has root k (.inc (p2pFlags root root)) ∧ s.Has root k (.inc (othersFlags root root)) := by
  have is : ∃ v, doBcastLinearOpt n size root q = [] ++ (notifyOthers (othersFlags root) q root ++ v) := by
    rw [doBcastLinearOpt, if_neg other]
    exact ⟨_, rfl⟩
  obtain ⟨v, is⟩ := is
  have first : ∃ v, doBcastLinearOpt n size root root =
    [.inc (p2pFlags root root)] ++ .inc (othersFlags root root) :: v := by
    rw [doBcastLinearOpt, if_pos rfl, notifyOthers, if_pos rfl]
    exact ⟨_, rfl⟩
  obtain ⟨v, first⟩ := first
  have has := notified_has h (fun p c => own) is other rfl rfl O count_others rfl first count_others rfl
  exact ⟨has _ mem_cons_self, has _ (mem_cons_of_mem _ mem_cons_self)⟩

lemma come (lt : i < n) (ne : i ≠ root) (O : s.Over root k (([.inc (p2pFlags root root)] ++
    (notifyOthers (othersFlags root) root root ++ [.load (p2pFlags root root)])) ++
    notifyRoot (rootFlags root) 0 n root root)) : s.Has i k (.inc (rootFlags root i)) := by
  have is : ∃ v, doBcastLinearOpt n size root root = ([.inc (p2pFlags root root)] ++
      (notifyOthers (othersFlags root) root root ++ [.load (p2pFlags root root)])) ++
      (notifyRoot (rootFlags root) 0 n root root ++ v) := by
    rw [doBcastLinearOpt, if_pos rfl]
    simp only [append_assoc]
    exact ⟨_, rfl⟩
  obtain ⟨v, is⟩ := is
  have behind := notified_root h (fun p c => own) is (Nat.zero_le i) lt ne.symm rfl rfl O
  have theirs : ∃ v, doBcastLinearOpt n size root i = (notifyOthers (othersFlags root) i root ++
      [.load (p2pFlags root root)]) ++ .inc (rootFlags root i) :: v := by
    rw [doBcastLinearOpt, if_neg ne, notifyRoot, if_neg ne]
    exact ⟨_, by simp only [append_assoc, nil_append, cons_append]; rfl⟩
  obtain ⟨v, theirs⟩ := theirs
  have none : List.count (Instr.inc (rootFlags root i))
      (notifyOthers (othersFlags root) i root ++ [.load (p2pFlags root root)]) = 0 := by
    rw [count_append, count_notifyOthers, if_neg flags_ne.symm]
    rfl
  rw [count_root] at behind
  have past := past_of_count (split h i) theirs (k := k) (x := .inc (rootFlags root i))
    (by rw [count_root, none]; omega)
  exact has_of_past (split h i) theirs past (mem_append_right _ mem_cons_self)

lemma left_root (lt : i < n) (ne : i ≠ root) (left : k < s.left root) :
    k * 2 + 2 ≤ s.executed (doBcastLinearOpt n size root) i (.inc (rootFlags root i)) := by
  have is : doBcastLinearOpt n size root root = ([.inc (p2pFlags root root)] ++
      (notifyOthers (othersFlags root) root root ++ ([.load (p2pFlags root root)] ++
      (notifyRoot (rootFlags root) 0 n root root ++ help (p2pFlags root) (others n root) root (size / n))))) ++
      (notifyRoot (rootFlags root) 0 n root root ++ []) := by
    rw [doBcastLinearOpt, if_pos rfl, if_neg fun ne => ne rfl, if_neg fun ne => ne rfl]
    simp only [append_assoc]
  have behind := notified_root h (fun p c => own) is (Nat.zero_le i) lt ne.symm rfl rfl (over_left left)
  rw [count_root] at behind
  simp only [count_append, count_notifyRoot, ↓reduceIte] at behind
  omega

lemma loaded {c : Flag} (at_q : s.pc q = some (d, .load c :: t)) : s.left q + 1 ≤ s.count c := by
  have parts := split h q d _ at_q
  have mem : .load c ∈ doBcastLinearOpt n size root q := by
    rw [← parts]
    exact mem_append_right d mem_cons_self
  have isC : c = p2pFlags root root := mem_load mem
  have root_has : s.Has root (s.left q) (.inc (p2pFlags root root)) := by
    rw [doBcastLinearOpt] at parts
    by_cases isRoot : q = root
    · subst isRoot
      rw [if_pos rfl] at parts
      obtain ⟨d', isD, -⟩ := split_right parts (by rw [mem_singleton]; nofun)
      refine .inr ⟨rfl, ?_⟩
      rw [State.done_in at_q, isD]
      exact mem_append_left _ mem_cons_self
    · rw [if_neg isRoot, nil_append] at parts
      obtain ⟨d', isD, -⟩ := split_right parts load_notMem_notifyOthers
      rw [isD] at at_q
      exact (root_came h isRoot (over_in at_q)).1
  have is : .inc (p2pFlags root root) ∈ doBcastLinearOpt n size root root := by
    rw [doBcastLinearOpt, if_pos rfl]
    exact mem_append_left _ mem_cons_self
  have some_ := count_pos_iff.2 is
  have often := count_of_has is root_has
  rw [isC, count_eq (fun p c => own) h]
  exact Nat.le_trans (Nat.succ_le_succ (Nat.le_mul_of_pos_right _ some_)) often

lemma helped (ne : p ≠ root) (O : s.Over p k (doBcastLinearOpt n size root p)) :
    k + 1 ≤ s.executed (doBcastLinearOpt n size root) root (.inc (p2pFlags root p)) := by
  have is : doBcastLinearOpt n size root p = (notifyOthers (othersFlags root) p root ++
      ([.load (p2pFlags root root)] ++ (notifyRoot (rootFlags root) 0 n p root ++
      (memcpy p root (size / n) (size - size / n) ++ notifyRoot (rootFlags root) 0 n p root)))) ++
      .waitReg (p2pFlags root p) :: [] := by
    rw [doBcastLinearOpt, if_neg ne, if_pos ne, if_pos ne]
    simp only [append_assoc, nil_append]
  have load : Instr.load (p2pFlags root root) ∈ notifyOthers (othersFlags root) p root ++
      ([.load (p2pFlags root root)] ++ (notifyRoot (rootFlags root) 0 n p root ++
      (memcpy p root (size / n) (size - size / n) ++ notifyRoot (rootFlags root) 0 n p root))) :=
    mem_append_right _ (mem_append_left _ mem_cons_self)
  rw [is] at O
  have low (s : State Flag Byte α) (h : (machine n (doBcastLinearOpt n size root) Prod.fst).Reach g s) (p : Nat)
      (d : Code) (c : Flag) (t : Code) (_ : g s (.run p)) (at_p : s.pc p = some (d, .load c :: t)) :
      s.left p + 1 ≤ s.count c := loaded h at_p
  exact passed_reg (fun p c => own) h low load is O.past

lemma has_written {x : Instr Flag Byte} (lt : i < n) (ne : i ≠ root)
    (told : k + 1 ≤ s.executed (doBcastLinearOpt n size root) root (.inc (p2pFlags root i)))
    (mem : x ∈ memcpy i root 0 (size / n)) : s.Has root k x := by
  obtain ⟨u, v, is⟩ := helps size lt ne
  have once := count_told size lt ne
  have none : (u ++ memcpy i root 0 (size / n)).count (.inc (p2pFlags root i)) = 0 := by
    rw [is, count_append, count_cons_self] at once
    omega
  have past := past_of_count (split h root) is (k := k) (x := .inc (p2pFlags root i)) (by rw [once, none]; omega)
  exact has_of_past (split h root) is past (mem_append_left _ (mem_append_right u mem))

lemma returns {o : Nat} (at_p : s.pc p = some (d, [])) (ne : p ≠ root) (lt : o < size) :
    Written (doBcastLinearOpt n size root) s (p, o) (s.left p) := by
  have all := split h p d [] at_p
  rw [append_nil] at all
  have bound : p < n := rank_lt h (by rw [at_p]; nofun)
  by_cases own_part : size / n ≤ o
  · have mem : .copy (p, o) (root, o) ∈ doBcastLinearOpt n size root p := by
      rw [doBcastLinearOpt, if_neg ne, if_pos ne]
      simp only [mem_append]
      exact .inr (.inr (.inr (.inr (.inl (mem_memcpy.2 ⟨rfl, rfl, own_part, by dsimp only; omega⟩)))))
    refine ⟨p, (root, o), mem, .inr ⟨rfl, ?_⟩⟩
    rwa [State.done_in at_p, all]
  · have told := helped h ne (.inr ⟨rfl, by rw [State.done_in at_p, all]⟩)
    have copied : .copy (p, o) (root, o) ∈ memcpy p root 0 (size / n) :=
      mem_memcpy.2 ⟨rfl, rfl, Nat.zero_le o, by dsimp only; omega⟩
    have mem : .copy (p, o) (root, o) ∈ doBcastLinearOpt n size root root := by
      obtain ⟨u, v, is⟩ := helps size bound ne
      rw [is]
      exact mem_append_left _ (mem_append_right u copied)
    exact ⟨root, (root, o), mem, has_written h bound ne told copied⟩

lemma root_writes (at_root : s.pc root = some (d, .copy l l' :: t)) : s.Inside l.1 (s.left root) := by
  have parts := split h root d _ at_root
  have mem : .copy l l' ∈ doBcastLinearOpt n size root root := by
    rw [← parts]
    exact mem_append_right d mem_cons_self
  obtain ⟨-, ⟨ne, -⟩ | ⟨-, lt, ne⟩⟩ := copy_cases mem
  · exact absurd rfl ne
  · obtain ⟨d', t', isD, rest⟩ := at_copy h at_root
    have came : s.Has l.1 (s.left root) (.inc (rootFlags root l.1)) := by
      refine come h lt ne (.inr ⟨rfl, ?_⟩)
      rw [State.done_in at_root, isD, if_pos rfl]
      simp only [length_append]
      omega
    refine inside_of_has came ?_
    by_contra gone
    have told := helped h ne (over_left (Nat.lt_of_not_le gone))
    -- the root tells the rank behind the byte that it is about to write
    rw [if_neg fun h => h rfl] at rest
    have is : doBcastLinearOpt n size root root = d ++ .copy l l' ::
      (t' ++ notifyRoot (rootFlags root) 0 n root root) := by
      rw [doBcastLinearOpt, if_pos rfl, if_neg fun h => h rfl, if_neg fun h => h rfl, rest, isD, if_pos rfl]
      simp only [append_assoc, append_nil, cons_append]
    have later := help_later rest
    have once := count_told size lt ne
    have some_ := count_pos_iff.2 later
    have other : Instr.copy l l' ≠ .inc (p2pFlags root l.1) := nofun
    rw [is, count_append, count_cons_of_ne other, count_append] at once
    rw [State.executed, State.done_in at_root, count_told size lt ne] at told
    omega

lemma safe : Safe (doBcastLinearOpt n size root) Prod.fst root s := by
  intro q d t l l' at_q
  have mem : .copy l l' ∈ doBcastLinearOpt n size root q := by
    rw [← split h q d _ at_q]
    exact mem_append_right d mem_cons_self
  obtain ⟨rfl, ⟨other, rfl⟩ | ⟨rfl, -⟩⟩ := copy_cases mem
  · obtain ⟨d', t', isD, rest⟩ := at_copy h at_q
    refine ⟨State.inside_in at_q, ?_, .inl rfl⟩
    rw [if_neg other] at isD
    rw [isD] at at_q
    have root_has := (root_came h other (over_in (d := [] ++ notifyOthers (othersFlags root) l.1 root) at_q)).2
    refine inside_of_has root_has ?_
    by_contra gone
    have lt : l.1 < n := rank_lt h (by rw [at_q]; nofun)
    have twice := left_root h lt other (Nat.lt_of_not_le gone)
    have none : (memcpy l.1 root (size / n) (size - size / n)).count (.inc (rootFlags root l.1)) = 0 := count_memcpy
    rw [if_pos other] at rest
    rw [rest, count_append] at none
    rw [State.executed, State.done_in at_q, count_root] at twice
    simp only [count_append] at twice
    rw [count_notifyOthers, if_neg flags_ne.symm, load_count, count_notifyRoot, if_pos rfl] at twice
    simp only [count_nil] at twice
    omega
  · exact ⟨root_writes h at_q, State.inside_in at_q, .inl rfl⟩

end Run

lemma right (h : (machine n (doBcastLinearOpt n size root) Prod.fst).Reach g s) : Right root size s := by
  refine right_of copies (fun s h => safe h) h fun p d at_p o lt => ?_
  by_cases isRoot : p = root
  · exact .inl isRoot
  · exact .inr (returns h at_p isRoot lt)

end Kupl.Bcast.LinearOpt
