import Kupl.Queue.Joins
import Kupl.Queue.Serial

/-!
# When an item of `kupl_queue_wait_event` is scheduled

The item that `kupl_queue_wait_event` enqueues is given to the scheduler once, when the item before it and the
awaited event have completed, and the items behind it begin when it is done, as long as nobody meets an
event half-way (`queue_joined`). `kupl_gnode_precede` adds the edge from the task of the awaited event under
the lock of that task, and counts it when the lock is released: a task that releases its successors in between takes
the item for ready, before the item in front of it has begun, and then that one schedules it again
(`queue_joined_not`).

C++ → Lean naming: `kupl_sched_add_tb` → `added`; an item that is yet to be given to it → `State.Due`.
-/

namespace Kupl.Events
open Dag

/-- The item is yet to be given to the scheduler: its event is in `kupl_event_submit`, an executor has its task
among the ready ones, or it waits for the task of the item before it or for that of the awaited event. -/
def State.Due (s : State) (q k e w : Nat) : Prop :=
  (∃ a rest n, s.pc a = .submitting e q rest n) ∨ (∃ a p rest n, s.pc a = .counting e q p rest n) ∨
    (∃ a x ts, s.pc a = .scheduling x ts ∧ e ∈ ts) ∨
    ∃ p, (s.event p).live = true ∧ e ∈ succs s.gnode p ∧
      (p = w ∨ 0 < k ∧ (s.queue q).events[k - 1]? = some p)

/-- The item `k`, with the event `e`, that awaits an event that was set up `r` times. -/
structure Joined (s : State) (q k e w r : Nat) : Prop where
  once : (s.queue q).added.count k ≤ 1
  prev : k ∈ (s.queue q).added → 0 < k → .stop (k - 1) ∈ (s.queue q).trace
  awaited : k ∈ (s.queue q).added → r ≤ (s.event w).completes
  due : k ∉ (s.queue q).added → s.Due q k e w
  later : ∀ j, k < j → .start j ∈ (s.queue q).trace → .stop k ∈ (s.queue q).trace

section Awaited
variable {s : State} {G : Ghost} {a e q k w r : Nat} {sync : Nat → Bool}

lemma Edges.edge (E : Edges s G) {p : Nat} (mem : p ∈ (G.life e).preds) :
    (s.event p).live = true ∧ e ∈ succs s.gnode p := by
  have count := E.count p e
  have pos := List.count_pos_iff.2 mem
  rw [count] at pos
  split at pos
  · rename_i live
    exact ⟨live, List.count_pos_iff.1 pos⟩
  · exact absurd pos (lt_irrefl 0)

lemma Inv.opened (I : Inv s G) (home : (s.event e).q = some q) (opened : (G.life e).link.opened = true) :
    (∃ a rest n, s.pc a = .submitting e q rest n) ∨ ∃ a p rest n, s.pc a = .counting e q p rest n := by
  cases author : (G.life e).author with
  | none =>
    rw [I.edges.free e author] at opened
    cases opened
  | some a =>
    have auth := I.places.author e a author
    have place := I.places.place a
    cases hpc : s.pc a with
    | armed e' q' =>
      rw [hpc] at auth place
      cases auth
      rw [place.2.2.1] at opened
      cases opened
    | submitting e' q' rest n =>
      rw [hpc] at auth place
      cases auth
      cases home.symm.trans place.home
      exact .inl ⟨a, rest, n, hpc⟩
    | counting e' q' p rest n =>
      rw [hpc] at auth place
      cases auth
      cases home.symm.trans place.home
      exact .inr ⟨a, p, rest, n, hpc⟩
    | leaving e' q' =>
      rw [hpc] at auth place
      cases auth
      obtain ⟨n, place⟩ := place
      rw [place.link] at opened
      cases opened
    | _ =>
      rw [hpc] at auth
      exact auth.elim

lemma Line.item {M : Nat → Option Member} {Q : Queue} (L : Line M Q) {i : Item} (hi : Q.items[k]? = some i)
    (ge : Q.dequeued.length ≤ k) : ∃ m, M i.event = some m ∧ m.item = k := by
  obtain ⟨lt, -⟩ := List.getElem?_eq_some_iff.1 hi
  obtain ⟨e, m, hm, item, at'⟩ := L.at ge lt
  rw [Queue.events, List.getElem?_map, hi] at at'
  cases at'
  exact ⟨m, hm, item⟩

lemma Inv.due (I : Inv s G) (J : Joins s G) (hi : (s.queue q).items[k]? = some ⟨e, some (w, r)⟩)
    (off : k ∉ (s.queue q).added) : s.Due q k e w := by
  have ge : (s.queue q).dequeued.length ≤ k := le_of_not_gt fun lt => off (J.old q k lt)
  obtain ⟨m, hm, rfl⟩ := (I.lines.line q).item hi ge
  obtain ⟨kind, wait, -⟩ := J.due q _ w r m hi rfl hm
  have given := (J.given q e m hm).not.1 off
  obtain ⟨mem, home, eq⟩ := of_members hm
  cases stage : (G.life e).stage with
  | pending =>
    by_cases none : (G.life e).link.told = 0
    · have opened := ((I.edges.begun e none).2.1 stage)
      rcases I.opened home opened with h | h
      · exact .inl h
      · exact .inr (.inl h)
    · obtain ⟨p, hp⟩ := List.exists_mem_of_ne_nil _ (I.edges.held e stage none)
      obtain ⟨live, edge⟩ := I.edges.edge hp
      refine .inr (.inr (.inr ⟨p, live, edge, ?_⟩))
      have source : p ∈ m.sources := by
        rw [eq]
        exact List.mem_append_left _ hp
      refine (J.origin q e m p hm source).imp_left fun h => ?_
      exact Option.some.inj (h.2.symm.trans wait)
  | handed a =>
    obtain ⟨x, ts, hpc, there⟩ := I.places.handed e a stage
    exact .inr (.inr (.inl ⟨a, x, ts, hpc, there⟩))
  | lost => exact absurd stage (I.edges.kept e kind)
  | _ =>
    rw [stage] at mem given
    first | exact mem.elim | exact absurd trivial given

lemma Inv.before (I : Inv s G) (J : Joins s G) (on : k ∈ (s.queue q).added) (pos : 0 < k) :
    .stop (k - 1) ∈ (s.queue q).trace := by
  have L := I.lines.line q
  apply L.stopped
  by_cases lt : k < (s.queue q).dequeued.length
  · omega
  · obtain ⟨e, m, hm, rfl, -⟩ := L.at (not_lt.1 lt) (J.lt q k on)
    obtain ⟨mem, home, eq⟩ := of_members hm
    have given := (J.given q e m hm).1 on
    have first := I.lines.first I.edges mem (fun pending => by rw [pending] at given; exact given) home
    have item : m.item = (s.event e).item := by rw [eq]
    omega

lemma Inv.awaited (I : Inv s G) (J : Joins s G) (hi : (s.queue q).items[k]? = some ⟨e, some (w, r)⟩)
    (on : k ∈ (s.queue q).added) : r ≤ (s.event w).completes := by
  by_cases lt : k < (s.queue q).dequeued.length
  · exact J.done q k _ w r lt hi rfl
  · obtain ⟨m, hm, rfl⟩ := (I.lines.line q).item hi (not_lt.1 lt)
    obtain ⟨-, -, source | le⟩ := J.due q _ w r m hi rfl hm
    · obtain ⟨mem, home, eq⟩ := of_members hm
      have given := (J.given q e m hm).1 on
      obtain ⟨preds, rest⟩ := I.edges.still e fun pending => by rw [pending] at given; exact given
      rw [eq, preds, rest] at source
      cases source
    · exact le

lemma marks_later {n j : Nat} (lt : k < j) (h : Mark.start j ∈ (List.range n).map mark) :
    Mark.stop k ∈ (List.range n).map mark := by
  obtain ⟨i, hi, eq⟩ := List.mem_map.1 h
  have at' : i = 2 * j := by
    unfold mark at eq
    split at eq
    · cases eq
      omega
    · cases eq
  have less := List.mem_range.1 hi
  exact List.mem_map.2 ⟨2 * k + 1, List.mem_range.2 (by omega), mark_stop k⟩

/-- The items of `kupl_queue_wait_event` are scheduled once, when what they wait for has completed, as long as
nobody meets an event half-way. -/
theorem queue_joined (h : (queueMachine sync).Reach Orderly s)
    (hi : (s.queue q).items[k]? = some ⟨e, some (w, r)⟩) : Joined s q k e w r := by
  obtain ⟨G, I, J⟩ := reach_inv Joins.init (fun _ _ _ _ I J m => J.move I.lines I.places I.edges m) h
  obtain ⟨n, trace, -⟩ := (I.lines.line q).trace
  constructor
  case once => exact List.nodup_iff_count_le_one.1 (J.nodup q) k
  case prev => exact I.before J
  case awaited => exact I.awaited J hi
  case due => exact I.due J hi
  case later =>
    intro j lt start
    rw [trace] at start ⊢
    exact marks_later lt start

/-- An item waits for an event in another queue and for the item before it. -/
theorem queue_joined_two : ∃ s, (queueMachine (· == 7)).Reach Orderly s ∧
    (s.queue 0).items[1]? = some ⟨2, some (1, 1)⟩ ∧ Joined s 0 1 2 1 1 := by
  refine Machine.shown_and [.submit 0 0, .next 0, .next 0, .next 0, .create, .record 0 1 1, .next 0, .next 0, .next 0,
    .next 0, .run 1 1, .waitEvent 0 0 1, .next 0, .next 0, .next 0, .next 0, .next 0, .next 0] rfl (by decide)
    fun s h item => ?_
  exact queue_joined h item

/-- The awaited event completes while the edge from its task is added: the item begins before the item in
front of it, and it is scheduled once more behind that. -/
theorem queue_joined_not : ∃ s, (queueMachine (· == 7)).Reachable s ∧
    (s.queue 0).items[1]? = some ⟨2, some (1, 1)⟩ ∧ (s.queue 0).added = [0, 1, 1] ∧
    (s.queue 0).trace = [.start 1, .start 0, .stop 1, .stop 0] ∧ ¬Joined s 0 1 2 1 1 := by
  refine Machine.shown (P := fun s => (s.queue 0).items[1]? = some (Item.mk 2 (some (1, 1))) ∧
      (s.queue 0).added = [0, 1, 1] ∧ (s.queue 0).trace = [.start 1, .start 0, .stop 1, .stop 0])
    [.submit 0 0, .next 0, .next 0, .next 0, .create, .record 0 1 1, .next 0, .next 0, .next 0, .next 0,
      .run 1 1, .next 1, .next 1, .next 1, .next 1, .waitEvent 0 0 1, .next 0, .next 0, .next 0, .next 0,
      .next 1, .next 1, .next 1, .next 0, .next 0, .next 0, .next 1, .run 1 2, .run 2 0, .next 1, .next 2,
      .next 2, .next 2, .next 2, .next 2, .next 2, .next 2] rfl (by decide) fun s _ is => ?_
  obtain ⟨item, added, trace⟩ := is
  refine ⟨item, added, trace, fun joined => ?_⟩
  have once := joined.once
  rw [added] at once
  exact absurd once (by decide)

end Awaited
end Kupl.Events
