import Kupl.Queue.Event

/-!
# The events in line

What the events in a queue are like in a run that keeps their order: those that were dequeued are the
first ones, the next one is the only one whose function may have begun, and every other one waits for the
one before it, or is about to be made to. `Line` says so of the members of a queue, the events that are in
it, and the lemmas take it through what `src/mt/kupl_queue.cpp` does with one of them.
-/

namespace Kupl.Events
open Function (update update_of_ne update_self)

/-- The marks of functions that run one at a time in the order of the items. -/
def mark (i : Nat) : Mark := if i % 2 = 0 then .start (i / 2) else .stop (i / 2)

/-- An event in a queue: its number, the marks of its function, and what it waits for or is about to. -/
structure Member where
  item : Nat
  progress : Nat
  sources : List Nat

def Queue.events (Q : Queue) : List Nat := Q.items.map Item.event

/-- The last one of the first `m` items, unless it was dequeued. -/
def Queue.lastOf (Q : Queue) (m : Nat) : Option Nat :=
  if Q.dequeued.length < m then Q.events[m - 1]? else none

lemma Queue.length_events (Q : Queue) : Q.events.length = Q.items.length := List.length_map ..

structure Line (M : Nat → Option Member) (Q : Queue) : Prop where
  dequeued : Q.dequeued = List.range Q.dequeued.length
  le : Q.dequeued.length ≤ Q.items.length
  count : Q.eventCount = Q.items.length - Q.dequeued.length
  member : ∀ e m, M e = some m → Q.dequeued.length ≤ m.item ∧ Q.events[m.item]? = some e
  held : ∀ k, Q.dequeued.length ≤ k → k < Q.items.length → ∃ e m, M e = some m ∧ m.item = k
  chain : ∀ e m, M e = some m → Q.dequeued.length < m.item → ∃ p n, p ∈ m.sources ∧ M p = some n ∧
    n.item + 1 = m.item
  later : ∀ e m, M e = some m → Q.dequeued.length < m.item → m.progress = 0
  trace : ∃ j, Q.trace = (List.range j).map mark ∧ (Q.dequeued.length = Q.items.length →
    j = 2 * Q.dequeued.length) ∧
    ∀ e m, M e = some m → m.item = Q.dequeued.length → j = 2 * Q.dequeued.length + m.progress

section Line
variable {M M' : Nat → Option Member} {Q Q' : Queue} {m m' n : Member} {e p : Nat}

section
variable (L : Line M Q)
include L

lemma Line.lt (hm : M e = some m) : m.item < Q.items.length := by
  obtain ⟨lt, -⟩ := List.getElem?_eq_some_iff.1 (L.member e m hm).2
  rwa [Q.length_events] at lt

lemma Line.eq (hm : M e = some m) (hn : M p = some n) (same : m.item = n.item) : e = p := by
  have at' := (L.member e m hm).2
  rw [same, (L.member p n hn).2] at at'
  exact (Option.some.inj at').symm

lemma Line.first (hm : M e = some m) (none : m.sources = []) : m.item = Q.dequeued.length := by
  apply le_antisymm _ (L.member e m hm).1
  apply le_of_not_gt
  intro gt
  obtain ⟨p, n, mem, -⟩ := L.chain e m hm gt
  rw [none] at mem
  cases mem

lemma Line.at {k : Nat} (ge : Q.dequeued.length ≤ k) (lt : k < Q.items.length) :
    ∃ e m, M e = some m ∧ m.item = k ∧ Q.events[k]? = some e := by
  obtain ⟨e, m, hm, rfl⟩ := L.held k ge lt
  exact ⟨e, m, hm, rfl, (L.member e m hm).2⟩

lemma Line.lastOf_eq {k : Nat} (hm : M e = some m) (eq : m.item + 1 = k) : Q.lastOf k = some e := by
  have ge := (L.member e m hm).1
  unfold Queue.lastOf
  rw [if_pos (by omega), ← eq, Nat.add_sub_cancel, (L.member e m hm).2]

lemma Line.of_lastOf {k : Nat} (le : k ≤ Q.items.length) (h : Q.lastOf k = some e) :
    ∃ m, M e = some m ∧ m.item + 1 = k := by
  unfold Queue.lastOf at h
  split at h
  · obtain ⟨e', m, hm, item, at'⟩ := L.at (by omega : Q.dequeued.length ≤ k - 1) (by omega)
    rw [at'] at h
    cases h
    exact ⟨m, hm, by omega⟩
  · cases h

lemma Line.of_lastOf_none {k : Nat} (le : k ≤ Q.items.length) (h : Q.lastOf k = none) : k ≤ Q.dequeued.length := by
  apply le_of_not_gt
  intro lt
  obtain ⟨e, m, hm, item, -⟩ := L.at (by omega : Q.dequeued.length ≤ k - 1) (by omega)
  rw [L.lastOf_eq hm (by omega)] at h
  cases h

lemma Line.congr (items : Q'.items = Q.items) (dequeued : Q'.dequeued = Q.dequeued)
    (count : Q'.eventCount = Q.eventCount) (trace : Q'.trace = Q.trace) : Line M Q' := by
  cases Q
  cases Q'
  cases items
  cases dequeued
  cases count
  cases trace
  exact ⟨L.dequeued, L.le, L.count, L.member, L.held, L.chain, L.later, L.trace⟩

lemma Line.shift (old : ∀ e m', M' e = some m' → ∃ m, M e = some m ∧ m.item = m'.item ∧
    m.progress = m'.progress ∧
      ∀ p n, p ∈ m.sources → M p = some n → p ∈ m'.sources)
    (new : ∀ e m, M e = some m → ∃ m', M' e = some m' ∧ m'.item = m.item) : Line M' Q := by
  refine ⟨L.dequeued, L.le, L.count, ?_, ?_, ?_, ?_, ?_⟩
  · intro e m' h
    obtain ⟨m, hm, item, -⟩ := old e m' h
    rw [← item]
    exact L.member e m hm
  · intro k ge lt
    obtain ⟨e, m, hm, item⟩ := L.held k ge lt
    obtain ⟨m', hm', same⟩ := new e m hm
    exact ⟨e, m', hm', same.trans item⟩
  · intro e m' h late
    obtain ⟨m, hm, item, -, keeps⟩ := old e m' h
    obtain ⟨p, n, mem, hn, next⟩ := L.chain e m hm (item ▸ late)
    obtain ⟨n', hn', same⟩ := new p n hn
    exact ⟨p, n', keeps p n mem hn, hn', by rw [same, next, item]⟩
  · intro e m' h late
    obtain ⟨m, hm, item, progress, -⟩ := old e m' h
    rw [← progress]
    exact L.later e m hm (item ▸ late)
  · obtain ⟨j, tr, done, here⟩ := L.trace
    refine ⟨j, tr, done, fun e m' h first => ?_⟩
    obtain ⟨m, hm, item, progress, -⟩ := old e m' h
    rw [← progress]
    exact here e m hm (item.trans first)

lemma Line.enqueue (out : M e = none) {w : Option (Nat × Nat)} {sources : List Nat}
    (last : ∀ p, Q.lastOf Q.items.length = some p → p ∈ sources) (items : Q'.items = Q.items ++ [⟨e, w⟩])
    (dequeued : Q'.dequeued = Q.dequeued) (count : Q'.eventCount = Q.eventCount + 1) (trace : Q'.trace = Q.trace) :
    Line (update M e (some ⟨Q.items.length, 0, sources⟩)) Q' := by
  have le := L.le
  have old : ∀ x n, update M e (some ⟨Q.items.length, 0, sources⟩) x = some n →
      (x = e ∧ n = ⟨Q.items.length, 0, sources⟩) ∨ M x = some n := by
    intro x n hx
    by_cases eq : x = e
    · subst eq
      rw [update_self] at hx
      exact .inl ⟨rfl, (Option.some.inj hx).symm⟩
    · rw [update_of_ne eq] at hx
      exact .inr hx
  have new : ∀ x n, M x = some n → update M e (some ⟨Q.items.length, 0, sources⟩) x = some n := by
    intro x n hx
    have ne : x ≠ e := by
      rintro rfl
      rw [out] at hx
      cases hx
    rwa [update_of_ne ne]
  have len : Q'.items.length = Q.items.length + 1 := by rw [items]; simp
  have events : Q'.events = Q.events ++ [e] := by rw [Queue.events, items, List.map_append]; rfl
  refine ⟨by rw [dequeued]; exact L.dequeued, by rw [dequeued, len]; exact Nat.le_succ_of_le le, ?_, ?_,
    ?_, ?_, ?_, ?_⟩
  · rw [count, L.count, len, dequeued]
    omega
  · intro x n hx
    rw [events, dequeued]
    rcases old x n hx with ⟨rfl, rfl⟩ | hx
    · exact ⟨le, by simp [← Q.length_events]⟩
    · have at' := (L.member x n hx).2
      have lt := L.lt hx
      exact ⟨(L.member x n hx).1, by rwa [List.getElem?_append_left (Q.length_events ▸ lt)]⟩
  · intro k ge lt
    rw [dequeued] at ge
    cases Nat.lt_succ_iff_lt_or_eq.1 (len ▸ lt) with
    | inl lt =>
      obtain ⟨x, n, hx, item⟩ := L.held k ge lt
      exact ⟨x, n, new x n hx, item⟩
    | inr eq => exact ⟨e, _, update_self .., eq.symm⟩
  · intro x n hx late
    rw [dequeued] at late
    rcases old x n hx with ⟨rfl, rfl⟩ | hx
    · obtain ⟨p, k, hp, item, -⟩ := L.at (by simp at late; omega : Q.dequeued.length ≤ Q.items.length - 1)
        (by simp at late; omega)
      have next : k.item + 1 = Q.items.length := by simp at late; omega
      exact ⟨p, k, last p (L.lastOf_eq hp next), new p k hp, next⟩
    · obtain ⟨p, k, mem, hk, next⟩ := L.chain x n hx late
      exact ⟨p, k, mem, new p k hk, next⟩
  · intro x n hx late
    rw [dequeued] at late
    rcases old x n hx with ⟨rfl, rfl⟩ | hx
    · rfl
    · exact L.later x n hx late
  · obtain ⟨j, tr, done, here⟩ := L.trace
    rw [dequeued, len, trace]
    refine ⟨j, tr, fun eq => absurd eq (by omega), fun x n hx first => ?_⟩
    rcases old x n hx with ⟨rfl, rfl⟩ | hx
    · exact done first.symm
    · exact here x n hx first

lemma Line.advance (hm : M e = some m) (first : m.item = Q.dequeued.length) (item : m'.item = m.item)
    (progress : m'.progress = m.progress + 1) (items : Q'.items = Q.items) (dequeued : Q'.dequeued = Q.dequeued)
    (count : Q'.eventCount = Q.eventCount) (trace : Q'.trace = Q.trace ++ [mark (2 * Q.dequeued.length + m.progress)]) :
    Line (update M e (some m')) Q' := by
  have old : ∀ x n, update M e (some m') x = some n →
      ∃ k, M x = some k ∧ k.item = n.item ∧ (x ≠ e → k = n) ∧ (x = e → n = m') := by
    intro x n hx
    by_cases eq : x = e
    · subst eq
      rw [update_self] at hx
      cases hx
      exact ⟨m, hm, item.symm, fun ne => absurd rfl ne, fun _ => rfl⟩
    · rw [update_of_ne eq] at hx
      exact ⟨n, hx, rfl, fun _ => rfl, fun h => absurd h eq⟩
  have new : ∀ x n, M x = some n → ∃ k, update M e (some m') x = some k ∧ k.item = n.item := by
    intro x n hx
    by_cases eq : x = e
    · subst eq
      rw [hm] at hx
      cases hx
      exact ⟨m', update_self .., item⟩
    · exact ⟨n, by rwa [update_of_ne eq], rfl⟩
  have lt := L.lt hm
  have events : Q'.events = Q.events := by rw [Queue.events, items]; rfl
  refine ⟨by rw [dequeued]; exact L.dequeued, by rw [dequeued, items]; exact L.le,
    by rw [count, items, dequeued]; exact L.count, ?_, ?_, ?_, ?_, ?_⟩
  · intro x n hx
    obtain ⟨k, hk, eq, -⟩ := old x n hx
    rw [dequeued, events, ← eq]
    exact L.member x k hk
  · intro k ge lt
    rw [dequeued] at ge
    rw [items] at lt
    obtain ⟨x, n, hx, rfl⟩ := L.held k ge lt
    obtain ⟨n', hn', eq⟩ := new x n hx
    exact ⟨x, n', hn', eq⟩
  · intro x n hx late
    rw [dequeued] at late
    obtain ⟨k, hk, eq, other, this⟩ := old x n hx
    have ne : x ≠ e := by
      intro xe
      cases this xe
      omega
    cases other ne
    obtain ⟨p, y, mem, hy, next⟩ := L.chain x n hk late
    obtain ⟨y', hy', same⟩ := new p y hy
    exact ⟨p, y', mem, hy', by rw [same, next]⟩
  · intro x n hx late
    rw [dequeued] at late
    obtain ⟨k, hk, eq, other, this⟩ := old x n hx
    have ne : x ≠ e := by
      intro xe
      cases this xe
      omega
    cases other ne
    exact L.later x n hk late
  · obtain ⟨j, tr, done, here⟩ := L.trace
    have now := here e m hm first
    refine ⟨j + 1, ?_, ?_, ?_⟩
    · rw [trace, tr, List.range_succ, List.map_append, ← now]
      rfl
    · rw [dequeued, items]
      intro eq
      omega
    · intro x n hx next
      rw [dequeued] at next ⊢
      obtain ⟨k, hk, eq, -, this⟩ := old x n hx
      cases this (L.eq hk hm (by omega))
      omega

lemma Line.dequeue (hm : M e = some m) (first : m.item = Q.dequeued.length) (done : m.progress = 2)
    (items : Q'.items = Q.items) (dequeued : Q'.dequeued = Q.dequeued ++ [m.item])
    (count : Q'.eventCount = Q.eventCount - 1) (trace : Q'.trace = Q.trace) : Line (update M e none) Q' := by
  have old : ∀ x n, update M e none x = some n → x ≠ e ∧ M x = some n := by
    intro x n hx
    by_cases eq : x = e
    · subst eq
      rw [update_self] at hx
      cases hx
    · rw [update_of_ne eq] at hx
      exact ⟨eq, hx⟩
  have len : Q'.dequeued.length = Q.dequeued.length + 1 := by rw [dequeued]; simp
  have lt := L.lt hm
  have events : Q'.events = Q.events := by rw [Queue.events, items]; rfl
  -- no other member has its number
  have other : ∀ x n, x ≠ e → M x = some n → Q.dequeued.length + 1 ≤ n.item := by
    intro x n ne hx
    apply Nat.lt_of_le_of_ne (L.member x n hx).1
    intro eq
    exact ne (L.eq hx hm (by omega))
  refine ⟨?_, by rw [len, items]; exact first ▸ lt, ?_, ?_, ?_, ?_, ?_, ?_⟩
  · rw [len, List.range_succ, ← L.dequeued, dequeued, first]
  · rw [count, L.count, items, len]
    omega
  · intro x n hx
    obtain ⟨ne, hx⟩ := old x n hx
    rw [len, events]
    exact ⟨other x n ne hx, (L.member x n hx).2⟩
  · intro k ge lt
    rw [len] at ge
    rw [items] at lt
    obtain ⟨x, n, hx, rfl⟩ := L.held k (by omega) lt
    have ne : x ≠ e := by
      rintro rfl
      rw [hm] at hx
      cases hx
      omega
    exact ⟨x, n, by rwa [update_of_ne ne], rfl⟩
  · intro x n hx late
    obtain ⟨ne, hx⟩ := old x n hx
    rw [len] at late
    obtain ⟨p, k, mem, hk, next⟩ := L.chain x n hx (by omega)
    have pe : p ≠ e := by
      rintro rfl
      rw [hm] at hk
      cases hk
      omega
    exact ⟨p, k, mem, by rwa [update_of_ne pe], next⟩
  · intro x n hx late
    rw [len] at late
    exact L.later x n (old x n hx).2 (by omega)
  · obtain ⟨j, tr, -, here⟩ := L.trace
    have now := here e m hm first
    rw [trace, len, items]
    refine ⟨j, tr, fun _ => by omega, fun x n hx next => ?_⟩
    have zero := L.later x n (old x n hx).2 (by omega)
    omega

end

end Line
end Kupl.Events
