import Mathlib.Data.List.Chain
import Mathlib.Data.List.Nodup

/-!
# Circular lists of linked nodes

Every node has a pointer to the next one and a pointer to the one before. A circle begins at a node that stands for the
list, goes through the elements and comes back. An element is put behind the first node or taken out; the circles that
have no node in common with it are left as they are. Nothing is known of nodes that are in no circle.
-/

namespace Kupl
open List
open Function (update update_of_ne update_self)

/-- The pointers of the nodes. -/
structure Links (N : Type) where
  next : N → N
  prev : N → N

namespace Links
variable {N : Type} {l : Links N} {g h e f : N} {xs ys us vs : List N}

/-- Two nodes, one behind the other. -/
def Linked (l : Links N) (a b : N) : Prop := l.next a = b ∧ l.prev b = a

structure Circle (l : Links N) (h : N) (xs : List N) : Prop where
  chain : ((h :: xs) ++ [h]).IsChain l.Linked
  nodup : (h :: xs).Nodup

section Operations
variable [DecidableEq N]

/-- The list with no elements. -/
def init (l : Links N) (list : N) : Links N :=
  ⟨update l.next list list, update l.prev list list⟩

/-- Puts an element behind a node. -/
def insertAfter (l : Links N) (list elem : N) : Links N :=
  let l := { l with prev := update l.prev elem list }
  let l := { l with next := update l.next elem (l.next list) }
  let l := { l with prev := update l.prev (l.next list) elem }
  { l with next := update l.next list elem }

/-- Takes an element out. -/
def del (l : Links N) (elem : N) : Links N :=
  let l := { l with next := update l.next (l.prev elem) (l.next elem) }
  { l with prev := update l.prev (l.next elem) (l.prev elem) }

end Operations

namespace Circle

section
variable (C : l.Circle h xs)
include C

/-- The node behind a node of a circle. -/
lemma exists_next (mem : e ∈ h :: xs) : ∃ f ∈ h :: xs, l.Linked e f := by
  obtain ⟨us, vs, split⟩ := append_of_mem mem
  have chain := C.chain
  rw [split, append_assoc] at chain
  cases vs with
  | nil => exact ⟨h, mem_cons_self, (isChain_append_cons_cons.1 chain).2.1⟩
  | cons f vs =>
    refine ⟨f, ?_, (isChain_append_cons_cons.1 chain).2.1⟩
    rw [split]
    simp

/-- The node before a node of a circle. -/
lemma exists_prev (mem : e ∈ h :: xs) : ∃ f ∈ h :: xs, l.Linked f e := by
  have mem' : e ∈ xs ++ [h] := by
    rw [mem_append, mem_singleton]
    exact (mem_cons.1 mem).symm
  obtain ⟨us, vs, split⟩ := append_of_mem mem'
  have chain := C.chain
  rw [cons_append, split] at chain
  rcases eq_nil_or_concat us with rfl | ⟨us, f, rfl⟩
  · exact ⟨h, mem_cons_self, (isChain_cons_cons.1 chain).1⟩
  · rw [concat_eq_append, append_assoc, ← cons_append] at chain
    refine ⟨f, ?_, (isChain_append_cons_cons.1 chain).2.1⟩
    have mem_f : f ∈ xs ++ [h] := by
      rw [split]
      simp
    rw [mem_append, mem_singleton] at mem_f
    exact mem_cons.2 mem_f.symm

lemma next_mem (mem : e ∈ h :: xs) : l.next e ∈ h :: xs := by
  obtain ⟨f, mem_f, linked⟩ := C.exists_next mem
  rwa [linked.1]

lemma prev_mem (mem : e ∈ h :: xs) : l.prev e ∈ h :: xs := by
  obtain ⟨f, mem_f, linked⟩ := C.exists_prev mem
  rwa [linked.2]

/-- A circle whose pointers are not changed. -/
lemma congr {l' : Links N} (next : ∀ e ∈ h :: xs, l'.next e = l.next e)
    (prev : ∀ e ∈ h :: xs, l'.prev e = l.prev e) : l'.Circle h xs := by
  refine ⟨C.chain.imp_of_mem_imp ?_, C.nodup⟩
  intro a b mem mem' linked
  have on : ∀ e, e ∈ h :: xs ++ [h] → e ∈ h :: xs := by
    intro e mem
    rcases mem_append.1 mem with here | last
    · exact here
    · exact mem_singleton.1 last ▸ mem_cons_self
  exact ⟨(next a (on a mem)).trans linked.1, (prev b (on b mem')).trans linked.2⟩

/-- The elements of a circle are determined by the pointers. -/
lemma unique (D : l.Circle h ys) : xs = ys := by
  have same : ∀ (xs ys : List N) (e : N), ((e :: xs) ++ [h]).IsChain l.Linked →
    ((e :: ys) ++ [h]).IsChain l.Linked →
      h ∉ xs → h ∉ ys → xs = ys := by
    intro xs
    induction xs with
    | nil =>
      intro ys e first second _ out
      cases ys with
      | nil => rfl
      | cons y ys =>
        have at_ := (isChain_cons_cons.1 first).1.1.symm.trans (isChain_cons_cons.1 second).1.1
        exact absurd (at_ ▸ mem_cons_self) out
    | cons x xs ih =>
      intro ys e first second out out'
      cases ys with
      | nil =>
        have at_ := (isChain_cons_cons.1 second).1.1.symm.trans (isChain_cons_cons.1 first).1.1
        exact absurd (at_ ▸ mem_cons_self) out
      | cons y ys =>
        obtain ⟨linked, rest⟩ := isChain_cons_cons.1 first
        obtain ⟨linked', rest'⟩ := isChain_cons_cons.1 second
        obtain rfl : x = y := linked.1.symm.trans linked'.1
        rw [ih ys x rest rest' (fun mem => out (mem_cons_of_mem _ mem))
          (fun mem => out' (mem_cons_of_mem _ mem))]
  exact same xs ys h C.chain D.chain (nodup_cons.1 C.nodup).1 (nodup_cons.1 D.nodup).1

end

lemma next_nil (C : l.Circle h []) : l.next h = h := (isChain_pair.1 C.chain).1

lemma next_cons (C : l.Circle h (e :: xs)) : l.next h = e := (isChain_cons_cons.1 C.chain).1.1

/-- An element between its neighbours. -/
lemma around (C : l.Circle h (us ++ e :: vs)) : ∃ p n, p ∈ (h :: us).getLast? ∧ n ∈ (vs ++ [h]).head? ∧
    l.Linked p e ∧ l.Linked e n ∧ (h :: us).IsChain l.Linked ∧ (vs ++ [h]).IsChain l.Linked := by
  have chain := C.chain
  have shape : h :: (us ++ e :: vs) ++ [h] = (h :: us) ++ (e :: (vs ++ [h])) := by simp
  rw [shape] at chain
  obtain ⟨before, rest, prev⟩ := isChain_append.1 chain
  obtain ⟨next, after⟩ := isChain_cons.1 rest
  have last := List.getLast?_eq_some_getLast (cons_ne_nil h us)
  have first : ∃ n, n ∈ (vs ++ [h]).head? := by
    cases vs with
    | nil => exact ⟨h, rfl⟩
    | cons v vs => exact ⟨v, rfl⟩
  obtain ⟨n, is_n⟩ := first
  exact ⟨_, n, last, is_n, prev _ last e rfl, next n is_n, before, after⟩

end Circle

/-! ### What the operations do to circles -/

section Operations
variable [DecidableEq N]

lemma init_circle : (l.init h).Circle h [] := by
  refine ⟨isChain_pair.2 ⟨?_, ?_⟩, nodup_singleton h⟩
  · exact update_self ..
  · exact update_self ..

/-- The pointers after an element is put in. -/
lemma insertAfter_eq (ne : h ≠ e) : l.insertAfter h e = ⟨update (update l.next e (l.next h)) h e,
      update (update l.prev e h) (l.next h) e⟩ := by
  have same : update l.next e (l.next h) h = l.next h := update_of_ne ne _ _
  simp only [insertAfter, same]

namespace Circle

/-- A new element comes first. -/
lemma insertAfter (C : l.Circle h xs) (new : e ∉ h :: xs) : (l.insertAfter h e).Circle h (e :: xs) := by
  have ne : h ≠ e := fun same => new (same ▸ mem_cons_self)
  have nodup := nodup_cons.1 C.nodup
  rw [insertAfter_eq ne]
  refine ⟨?_, ?_⟩
  · obtain ⟨x, rest, at_⟩ : ∃ x rest, xs ++ [h] = x :: rest := by
      cases xs with
      | nil => exact ⟨h, [], rfl⟩
      | cons x xs => exact ⟨x, xs ++ [h], rfl⟩
    have chain := C.chain
    rw [cons_append, at_] at chain
    obtain ⟨linked, tail⟩ := isChain_cons_cons.1 chain
    have next : l.next h = x := linked.1
    have nodup_rest : (x :: rest).Nodup := by
      rw [← at_, nodup_append_comm]
      exact C.nodup
    have new_rest : e ∉ x :: rest := by
      rw [← at_, mem_append, mem_singleton]
      exact fun mem => new (mem_cons.2 mem.symm)
    obtain ⟨first, nodup_tail⟩ := nodup_cons.1 nodup_rest
    have mid : (x :: rest).IsChain (Linked ⟨update (update l.next e (l.next h)) h e,
          update (update l.prev e h) (l.next h) e⟩) := by
      apply tail.imp_of_mem_tail_imp
      intro a b mem mem' linked
      have not_h : a ≠ h := by
        intro same
        have at_b : b = x := by rw [← linked.1, same, next]
        exact first (at_b ▸ mem')
      have not_e : a ≠ e := fun same => new_rest (same ▸ mem)
      have not_x : b ≠ l.next h := fun same => first (next ▸ same ▸ mem')
      have not_e' : b ≠ e := fun same => new_rest (mem_cons_of_mem _ (same ▸ mem'))
      refine ⟨?_, ?_⟩
      · exact (update_of_ne not_h ..).trans ((update_of_ne not_e ..).trans linked.1)
      · exact (update_of_ne not_x ..).trans ((update_of_ne not_e' ..).trans linked.2)
    have apart : e ≠ l.next h := fun same => new_rest (mem_cons.2 (Or.inl (same.trans next)))
    rw [cons_append, cons_append, at_]
    refine isChain_cons_cons.2 ⟨⟨?_, ?_⟩, isChain_cons_cons.2 ⟨⟨?_, ?_⟩, mid⟩⟩
    · exact update_self ..
    · exact (update_of_ne apart ..).trans (update_self ..)
    · exact (update_of_ne ne.symm ..).trans ((update_self ..).trans next)
    · rw [← next]
      exact update_self ..
  · refine nodup_cons.2 ⟨?_, nodup_cons.2 ⟨fun mem => new (mem_cons_of_mem _ mem), nodup.2⟩⟩
    rw [mem_cons, not_or]
    exact ⟨ne, nodup.1⟩

/-- A new element in another circle. -/
lemma insertAfter_other (C : l.Circle h xs) (D : l.Circle g ys) (apart : ∀ f ∈ g :: ys, f ∉ h :: xs)
    (new : e ∉ g :: ys) (ne : h ≠ e) : (l.insertAfter h e).Circle g ys := by
  rw [insertAfter_eq ne]
  apply D.congr
  · intro f mem
    have not_h : f ≠ h := fun same => apart f mem (same ▸ mem_cons_self)
    have not_e : f ≠ e := fun same => new (same ▸ mem)
    exact (update_of_ne not_h ..).trans (update_of_ne not_e ..)
  · intro f mem
    have not_x : f ≠ l.next h := fun same => apart f mem (same ▸ C.next_mem mem_cons_self)
    have not_e : f ≠ e := fun same => new (same ▸ mem)
    exact (update_of_ne not_x ..).trans (update_of_ne not_e ..)

/-- A list that begins elsewhere. -/
lemma init_other (D : l.Circle g ys) (new : h ∉ g :: ys) : (l.init h).Circle g ys := by
  apply D.congr
  · intro f mem
    have ne : f ≠ h := fun same => new (same ▸ mem)
    exact update_of_ne ne ..
  · intro f mem
    have ne : f ≠ h := fun same => new (same ▸ mem)
    exact update_of_ne ne ..

/-- The pointers after an element is taken out from between its neighbours. -/
lemma del_eq {p n : N} (prev : l.Linked p e) (next : l.Linked e n) (ne : p ≠ e) :
    l.del e = ⟨update l.next p n, update l.prev n p⟩ := by
  have same : update l.next p n e = l.next e := update_of_ne ne.symm _ _
  simp only [del, prev.2, next.1, same]

/-- Nodes that are linked without the element stay linked. -/
lemma del_linked {p n a b : N} (prev : l.Linked p e) (next : l.Linked e n) (ne_a : a ≠ e) (ne_b : b ≠ e)
    (linked : l.Linked a b) : Linked ⟨update l.next p n, update l.prev n p⟩ a b := by
  have not_p : a ≠ p := by
    rintro rfl
    exact ne_b (linked.1.symm.trans prev.1)
  have not_n : b ≠ n := by
    rintro rfl
    exact ne_a (linked.2.symm.trans next.2)
  exact ⟨(update_of_ne not_p ..).trans linked.1, (update_of_ne not_n ..).trans linked.2⟩

/-- An element that is taken out is not in the circle any more. -/
lemma del (C : l.Circle h (us ++ e :: vs)) : (l.del e).Circle h (us ++ vs) := by
  obtain ⟨p, n, last, first, prev, next, before, after⟩ := C.around
  have nodup : ((h :: us) ++ e :: vs).Nodup := C.nodup
  obtain ⟨nodup_us, nodup_vs, disjoint⟩ := nodup_append.1 nodup
  have out : ∀ a ∈ h :: us, a ≠ e := fun a mem => disjoint a mem e mem_cons_self
  have out' : ∀ a ∈ vs ++ [h], a ≠ e := by
    intro a mem
    rcases mem_append.1 mem with here | head
    · rintro rfl
      exact (nodup_cons.1 nodup_vs).1 here
    · rw [mem_singleton.1 head]
      exact out h mem_cons_self
  rw [del_eq prev next (out p (mem_of_getLast? last))]
  refine ⟨?_, ?_⟩
  · have shape : h :: (us ++ vs) ++ [h] = (h :: us) ++ (vs ++ [h]) := by simp
    rw [shape]
    refine List.IsChain.append ?_ ?_ ?_
    · exact before.imp_of_mem_imp fun a b mem mem' => del_linked prev next (out a mem) (out b mem')
    · exact after.imp_of_mem_imp fun a b mem mem' => del_linked prev next (out' a mem) (out' b mem')
    · intro a mem b mem'
      obtain rfl : a = p := Option.some_inj.1 (mem.symm.trans last)
      obtain rfl : b = n := Option.some_inj.1 (mem'.symm.trans first)
      exact ⟨update_self .., update_self ..⟩
  · have fewer : ((h :: us) ++ vs).Sublist ((h :: us) ++ e :: vs) :=
      (List.Sublist.refl _).append (sublist_cons_self _ _)
    exact nodup.sublist fewer

/-- What is behind the first element is first when that is taken out. -/
lemma next_del (C : l.Circle h (e :: xs)) : (l.del e).next h = l.next e := by
  have linked := (isChain_cons_cons.1 C.chain).1
  rw [Links.del, linked.2]
  exact update_self ..

/-- Taking an element out of another circle. -/
lemma del_other (C : l.Circle h (us ++ e :: vs)) (D : l.Circle g ys)
    (apart : ∀ f ∈ g :: ys, f ∉ h :: (us ++ e :: vs)) :
    (l.del e).Circle g ys := by
  obtain ⟨p, n, last, first, prev, next, before, after⟩ := C.around
  have mem_e : e ∈ h :: (us ++ e :: vs) := by simp
  have mem_p : p ∈ h :: (us ++ e :: vs) := prev.2 ▸ C.prev_mem mem_e
  have mem_n : n ∈ h :: (us ++ e :: vs) := next.1 ▸ C.next_mem mem_e
  have ne : p ≠ e := by
    rintro rfl
    have nodup : ((h :: us) ++ p :: vs).Nodup := C.nodup
    exact (nodup_append.1 nodup).2.2 p (mem_of_getLast? last) p mem_cons_self rfl
  rw [del_eq prev next ne]
  apply D.congr
  · intro f mem
    have not_p : f ≠ p := fun same => apart f mem (same ▸ mem_p)
    exact update_of_ne not_p ..
  · intro f mem
    have not_n : f ≠ n := fun same => apart f mem (same ▸ mem_n)
    exact update_of_ne not_n ..

end Circle
end Operations
end Links
end Kupl
