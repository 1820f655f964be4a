import Kupl.Bcast.Notify

/-!
# The broadcast in blocks (`do_bcast_linear_scatter_allgather`)

Each rank copies its block from the root; then there is a fence, and each copies the blocks of all others. Nothing
follows, so that a rank may leave while others still copy its block. Where it leaves only after they have (`Waits`),
every state is right.
-/

namespace Kupl.Bcast.Allgather
open Script List

/-- Where the block of a rank begins (C++ `calc_offset`). -/
def calcOffset (rank div rem : Nat) : Nat :=
  if rank < rem + 1 then rank * (div + 1) else rem * (div + 1) + (rank - rem) * div

def blockSize (rank div rem : Nat) : Nat := if rank < rem then div + 1 else div

/-- A rank copies the block of rank `i`. -/
def copyBlock (numprocs dataSize src rank i : Nat) : Code :=
  memcpy rank src (calcOffset i (dataSize / numprocs) (dataSize % numprocs))
    (blockSize i (dataSize / numprocs) (dataSize % numprocs))

/-- What a rank does until it comes to the fence. -/
def scatter (numprocs dataSize root rank : Nat) : Code :=
  notifyOthers (othersFlags root) rank root ++ if rank ≠ root then copyBlock numprocs dataSize root rank rank else []

/-- A rank copies the blocks of the first ranks. -/
def allgather (numprocs dataSize rank upto : Nat) : Code :=
  (List.range upto).flatMap fun i => if rank ≠ i then copyBlock numprocs dataSize i rank i else []

/-- (C++ `do_bcast_linear_scatter_allgather`). -/
def doBcastLinearScatterAllgather (numprocs dataSize root rank : Nat) : Code :=
  scatter numprocs dataSize root rank ++ (fence numprocs rank ++ allgather numprocs dataSize rank numprocs)

/-- A rank returns only when all others have copied its block. -/
def Waits {α : Type} (n size root : Nat) (s : State Flag Byte α) : Label Byte α → Prop
  | .ret p => ∀ q < n, q ≠ p → s.Over q (s.left p)
      (scatter n size root q ++ (fence n q ++ allgather n size q (p + 1)))
  | _ => True

instance {α : Type} {n size root : Nat} {s : State Flag Byte α} {a : Label Byte α} :
    Decidable (Waits n size root s a) :=
  match a with
  | .ret p => inferInstanceAs (Decidable (∀ q < n, q ≠ p →
    s.Over q (s.left p) (scatter n size root q ++ (fence n q ++ allgather n size q (p + 1)))))
  | .enter _ | .run _ | .set _ _ => isTrue trivial

variable {α : Type} [Add α] {n size root p q i k o : Nat} {s : State Flag Byte α} {d t : Code}
  {f : Flag} {l l' : Byte}
  {g : State Flag Byte α → Label Byte α → Prop}

/-! ## Blocks -/

lemma block_of (lt : o < size) (some_ : 0 < n) : ∃ i < n, calcOffset i (size / n) (size % n) ≤ o ∧
    o < calcOffset i (size / n) (size % n) + blockSize i (size / n) (size % n) := by
  have parts := Nat.div_add_mod size n
  have lt_n := Nat.mod_lt size some_
  generalize size / n = div at *
  generalize size % n = rem at *
  by_cases first : o < rem * (div + 1)
  · have lt_rem : o / (div + 1) < rem := (Nat.div_lt_iff_lt_mul (Nat.succ_pos div)).2 first
    have parts' := Nat.div_add_mod o (div + 1)
    have lt' : o % (div + 1) < div + 1 := Nat.mod_lt o (Nat.succ_pos div)
    refine ⟨o / (div + 1), by omega, ?_⟩
    rw [calcOffset, blockSize, if_pos (Nat.lt_succ_of_lt lt_rem), if_pos lt_rem, Nat.mul_comm (o / (div + 1))]
    omega
  · have pos : 0 < div := by
      by_contra zero
      have isZero : div = 0 := by omega
      subst isZero
      omega
    have parts' := Nat.div_add_mod (o - rem * (div + 1)) div
    have lt' := Nat.mod_lt (o - rem * (div + 1)) pos
    have expand : n * div = rem * div + (n - rem) * div := by
      rw [← Nat.add_mul]
      congr 1
      omega
    have below : (o - rem * (div + 1)) / div < n - rem := by
      rw [Nat.div_lt_iff_lt_mul pos]
      rw [Nat.mul_succ] at first ⊢
      omega
    refine ⟨rem + (o - rem * (div + 1)) / div, by omega, ?_⟩
    have offset : calcOffset (rem + (o - rem * (div + 1)) / div) div rem =
        rem * (div + 1) + (o - rem * (div + 1)) / div * div := by
      rw [calcOffset]
      split
      case isTrue here =>
        have zero : (o - rem * (div + 1)) / div = 0 :=
          Nat.le_zero.1 (Nat.le_of_add_le_add_left (Nat.le_of_lt_succ here))
        rw [zero, Nat.zero_mul]
        rfl
      case isFalse => rw [Nat.add_sub_cancel_left]
    rw [offset, blockSize, if_neg (Nat.not_lt.2 (Nat.le_add_right _ _)), Nat.mul_comm ((o - rem * (div + 1)) / div)]
    omega

/-! ## What stands in the scripts -/

variable {x : Instr Flag Byte}

lemma mem_scatter (mem : x ∈ scatter n size root p) :
    x ∈ notifyOthers (othersFlags root) p root ∨ (p ≠ root ∧ x ∈ copyBlock n size root p p) := by
  rw [scatter, mem_append] at mem
  refine mem.imp_right fun mem => ?_
  split at mem
  case isTrue other => exact ⟨other, mem⟩
  case isFalse => cases mem

lemma mem_allgather : x ∈ allgather n size p k ↔ ∃ i < k, p ≠ i ∧ x ∈ copyBlock n size i p i := by
  rw [allgather, mem_flatMap]
  constructor
  · rintro ⟨i, mem, isX⟩
    rw [mem_range] at mem
    split at isX
    case isTrue other => exact ⟨i, mem, other, isX⟩
    case isFalse => cases isX
  · rintro ⟨i, lt, other, isX⟩
    refine ⟨i, mem_range.2 lt, ?_⟩
    rw [if_pos other]
    exact isX

lemma mem_script (mem : x ∈ doBcastLinearScatterAllgather n size root p) :
    x ∈ scatter n size root p ∨ x ∈ fence n p ∨ x ∈ allgather n size p n := by
  rwa [doBcastLinearScatterAllgather, mem_append, mem_append] at mem

lemma own {p : Nat} {c : Flag} (mem : .inc c ∈ doBcastLinearScatterAllgather n size root p) : writer c = p := by
  obtain mem | mem | mem := mem_script mem
  · obtain mem | ⟨-, mem⟩ := mem_scatter mem
    · rw [inc_mem_notifyOthers mem]
      rfl
    · exact absurd mem inc_notMem_memcpy
  · have pos := count_pos_iff.2 mem
    rw [count_fence] at pos
    split at pos
    case isTrue is =>
      rw [is]
      rfl
    case isFalse => cases pos
  · obtain ⟨i, -, -, mem⟩ := mem_allgather.1 mem
    exact absurd mem inc_notMem_memcpy

lemma count_scatter : (scatter n size root p).count (.inc f) = if f = othersFlags root p then 1 else 0 := by
  have copies : (if p ≠ root then copyBlock n size root p p else [] : Code).count (.inc f) = 0 := by
    split
    · exact count_memcpy
    · rfl
  rw [scatter, count_append, count_notifyOthers, copies, Nat.add_zero]

lemma count_allgather : (allgather n size p k).count (.inc f) = 0 := by
  apply count_eq_zero.2
  intro mem
  obtain ⟨i, -, -, mem⟩ := mem_allgather.1 mem
  exact inc_notMem_memcpy mem

lemma count_others : (doBcastLinearScatterAllgather n size root p).count (.inc (othersFlags root p)) = 1 := by
  rw [doBcastLinearScatterAllgather, count_append, count_append, count_scatter, count_fence, count_allgather,
    if_pos rfl, if_neg nofun]

lemma count_fenceFlag (p : Nat) : (doBcastLinearScatterAllgather n size root p).count (.inc (fenceFlag p)) = 1 := by
  rw [doBcastLinearScatterAllgather, count_append, count_append, count_scatter, count_fence, count_allgather,
    if_neg (c := fenceFlag p = othersFlags root p) nofun, if_pos rfl]

lemma copies : Copies (doBcastLinearScatterAllgather n size root) Prod.fst (fun l => (root, l.2)) root := by
  refine ⟨fun l isRoot => ?_, fun p l l' mem => ?_, fun p l a b mem => ?_⟩
  · rw [← isRoot]
  · obtain mem | mem | mem := mem_script mem
    · obtain mem | ⟨-, mem⟩ := mem_scatter mem
      · exact absurd mem copy_notMem_notifyOthers
      · obtain ⟨-, rfl, -⟩ := mem_memcpy.1 mem
        rfl
    · obtain ⟨f, is⟩ | ⟨f, f', is⟩ := mem_fence mem
      · cases is
      · cases is
    · obtain ⟨i, -, -, mem⟩ := mem_allgather.1 mem
      obtain ⟨-, rfl, -⟩ := mem_memcpy.1 mem
      rfl
  · obtain mem | mem | mem := mem_script mem
    · obtain mem | ⟨-, mem⟩ := mem_scatter mem
      · exact add_notMem_notifyOthers mem
      · exact add_notMem_memcpy mem
    · obtain ⟨f, is⟩ | ⟨f, f', is⟩ := mem_fence mem
      · cases is
      · cases is
    · obtain ⟨i, -, -, mem⟩ := mem_allgather.1 mem
      exact add_notMem_memcpy mem

/-! ## Runs -/

section Run
variable (h : (machine n (doBcastLinearScatterAllgather n size root) Prod.fst).Reach g s)
include h

lemma root_came (other : p ≠ root) (O : s.Over p k (notifyOthers (othersFlags root) p root)) :
    s.Has root k (.inc (othersFlags root root)) := by
  have is : ∃ v, doBcastLinearScatterAllgather n size root p =
    [] ++ (notifyOthers (othersFlags root) p root ++ v) := by
    rw [doBcastLinearScatterAllgather, scatter, append_assoc]
    exact ⟨_, rfl⟩
  obtain ⟨v, is⟩ := is
  have first : ∃ v, doBcastLinearScatterAllgather n size root root = [] ++ .inc (othersFlags root root) :: v := by
    rw [doBcastLinearScatterAllgather, scatter, notifyOthers, if_pos rfl]
    exact ⟨_, rfl⟩
  obtain ⟨v, first⟩ := first
  exact notified_has h (fun p c => own) is other rfl rfl O count_others rfl first count_others rfl _ mem_cons_self

lemma gathered (lt : i < n) (O : s.Over q k (scatter n size root q ++ fence n q)) :
    ∀ x ∈ scatter n size root i ++ [.inc (fenceFlag i)], s.Has i k x :=
  fenced h (fun _ _ => own) rfl lt (fun _ => rfl) O count_fenceFlag rfl

lemma at_copy (at_q : s.pc q = some (d, .copy l l' :: t)) :
    (q ≠ root ∧ ∃ d' t', d = notifyOthers (othersFlags root) q root ++ d' ∧
      copyBlock n size root q q = d' ++ .copy l l' :: t') ∨
    (∃ i < n, q ≠ i ∧ ∃ d' t', d = scatter n size root q ++ (fence n q ++ (allgather n size q i ++ d')) ∧
      copyBlock n size i q i = d' ++ .copy l l' :: t') := by
  have whole := split h q d _ at_q
  have not_fence : .copy l l' ∉ fence n q := by
    intro mem
    obtain ⟨f, is⟩ | ⟨f, f', is⟩ := mem_fence mem
    · cases is
    · cases is
  rw [doBcastLinearScatterAllgather] at whole
  obtain ⟨t₁, here, -⟩ | ⟨d₁, isD, rest⟩ := split_append whole
  · left
    rw [scatter] at here
    obtain ⟨d₁, isD, rest⟩ := split_right here.symm copy_notMem_notifyOthers
    split at rest
    case isTrue other => exact ⟨other, d₁, t₁, isD, rest⟩
    case isFalse => exact absurd rest.symm (by simp only [append_eq_nil_iff, reduceCtorEq, and_false,
      not_false_eq_true])
  · right
    obtain ⟨d₂, isD₁, rest₂⟩ := split_right rest.symm not_fence
    rw [allgather] at rest₂
    obtain ⟨L₁, i, L₂, d₃, t₃, isRange, here, isD₂, -⟩ := split_flatMap rest₂.symm
    obtain ⟨lt, rfl⟩ := split_range isRange
    split at here
    case isTrue other => exact ⟨i, lt, other, d₃, t₃, by rw [isD, isD₁, isD₂, allgather], here⟩
    case isFalse => exact absurd here.symm (by simp only [append_eq_nil_iff, reduceCtorEq, and_false,
      not_false_eq_true])

end Run

lemma allgather_succ (other : q ≠ i) : allgather n size q (i + 1) =
    allgather n size q i ++ copyBlock n size i q i := by
  rw [allgather, range_succ, flatMap_append, ← allgather, flatMap_singleton, if_pos other]

section Guarded
variable (h : (machine n (doBcastLinearScatterAllgather n size root) Prod.fst).Reach (Waits n size root) s)
include h

lemma waited (left : k < s.left p) (lt : q < n) (other : q ≠ p) :
    s.Over q k (scatter n size root q ++ (fence n q ++ allgather n size q (p + 1))) := by
  refine left_with (N := fun k s => s.Over q k (scatter n size root q ++ (fence n q ++ allgather n size q (p + 1))))
    h ?_ ?_ left
  · exact fun s h waits => waits q lt other
  · exact fun s a s' h st k O => (goes h st q).upTo O

lemma safe : Safe (doBcastLinearScatterAllgather n size root) Prod.fst root s := by
  intro q d t l l' at_q
  have lt : q < n := rank_lt h (by rw [at_q]; nofun)
  obtain ⟨other, d', t', isD, here⟩ | ⟨i, lt_i, other, d', t', isD, here⟩ := at_copy h at_q
  · have mem : .copy l l' ∈ copyBlock n size root q q := by
      rw [here]
      exact mem_append_right d' mem_cons_self
    obtain ⟨isQ, rfl, -⟩ := mem_memcpy.1 mem
    have mine : s.Inside l.1 (s.left q) := by
      rw [isQ]
      exact State.inside_in at_q
    refine ⟨mine, ?_, .inl rfl⟩
    have came := root_came h other (by rw [isD] at at_q; exact over_in at_q)
    refine inside_of_has came ?_
    by_contra gone
    obtain after | ⟨-, beyond⟩ := waited h (Nat.lt_of_not_le gone) lt other
    · exact Nat.lt_irrefl _ after
    · rw [State.done_in at_q, isD, scatter, if_pos other, here] at beyond
      simp only [length_append, length_cons] at beyond
      omega
  · have mem : .copy l l' ∈ copyBlock n size i q i := by
      rw [here]
      exact mem_append_right d' mem_cons_self
    obtain ⟨isQ, rfl, le, lt_o⟩ := mem_memcpy.1 mem
    have came := gathered h lt_i (by rw [isD, ← append_assoc] at at_q; exact over_in at_q)
    have mine : s.Inside l.1 (s.left q) := by
      rw [isQ]
      exact State.inside_in at_q
    refine ⟨mine, ?_, ?_⟩
    · refine inside_of_has (came _ (mem_append_right _ mem_cons_self)) ?_
      by_contra gone
      obtain after | ⟨-, beyond⟩ := waited h (Nat.lt_of_not_le gone) lt other
      · exact Nat.lt_irrefl _ after
      · rw [State.done_in at_q, isD, allgather_succ other, here] at beyond
        simp only [length_append, length_cons] at beyond
        omega
    · by_cases isRoot : i = root
      · exact .inl isRoot
      · -- rank i has copied its block before it came to the fence
        have copied : .copy (i, l.2) (root, l.2) ∈ scatter n size root i := by
          rw [scatter, if_pos isRoot, mem_append]
          exact .inr (mem_memcpy.2 ⟨rfl, rfl, le, lt_o⟩)
        exact .inr ⟨i, _, mem_append_left _ copied, came _ (mem_append_left _ copied)⟩

end Guarded

end Kupl.Bcast.Allgather
