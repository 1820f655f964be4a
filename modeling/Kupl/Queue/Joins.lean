import Kupl.Queue.Steps

/-!
# The items that await an event

What the items of `kupl_queue_wait_event` wait for, and when they are given to the scheduler. An item awaits
an event as often as it had been set up when the item was enqueued, and a task is given to the scheduler only
when it waits for nothing more (`Joins`). No move breaks that (`Joins.move`).

C++ → Lean naming: `kupl_queue_wait_event` → the items with `awaits`; `kupl_sched_add_tb` → `added`.
-/

namespace Kupl.Events
open Dag List
open Function (update update_of_ne update_self)

def Stage.Given : Stage → Prop
  | .ready | .item _ | .flagged _ => True
  | _ => False

/-- The event was set up and its function has not returned. -/
def Life.Busy (l : Life) : Prop :=
  match l.stage with
  | .pending | .lost | .ready | .handed _ | .item _ => True
  | .out => l.author ≠ none
  | _ => False

/-- What was given to the scheduler and what items await. -/
structure Joins (s : State) (G : Ghost) : Prop where
  busy : ∀ e, (G.life e).Busy → (s.event e).inits = (s.event e).completes + 1
  rest : ∀ e, ¬(G.life e).Busy → (s.event e).inits = (s.event e).completes
  nodup : ∀ q, (s.queue q).added.Nodup
  lt : ∀ q, ∀ k ∈ (s.queue q).added, k < (s.queue q).items.length
  old : ∀ q, ∀ k < (s.queue q).dequeued.length, k ∈ (s.queue q).added
  given : ∀ q e m, members s G q e = some m → (m.item ∈ (s.queue q).added ↔ (G.life e).stage.Given)
  bound : ∀ q, ∀ i ∈ (s.queue q).items, ∀ w r, i.awaits = some (w, r) → r ≤ (s.event w).inits
  due : ∀ q i w r m, (s.queue q).items[m.item]? = some i → i.awaits = some (w, r) →
    members s G q i.event = some m → (s.event i.event).kind = .wait ∧ (s.event i.event).wait = some w ∧
      (w ∈ m.sources ∨ r ≤ (s.event w).completes)
  done : ∀ q k i w r, k < (s.queue q).dequeued.length → (s.queue q).items[k]? = some i →
    i.awaits = some (w, r) → r ≤ (s.event w).completes
  origin : ∀ q e m p, members s G q e = some m → p ∈ m.sources → (s.event e).kind = .wait ∧
    (s.event e).wait = some p ∨
      0 < m.item ∧ (s.queue q).events[m.item - 1]? = some p

section Joins
variable {s s' : State} {G G' : Ghost} {a e p q k n : Nat} {ps : List Nat}

/-- How often an event was set up and was completed, and whether its function is to return. -/
def Counts (s s' : State) (G' : Ghost) (e : Nat) : Prop :=
  (s.event e).inits ≤ (s'.event e).inits ∧ (s.event e).completes ≤ (s'.event e).completes ∧
    ((G'.life e).Busy → (s'.event e).inits = (s'.event e).completes + 1) ∧
    (¬(G'.life e).Busy → (s'.event e).inits = (s'.event e).completes)

section
variable (J : Joins s G)
include J

lemma Joins.same (inits : (s'.event e).inits = (s.event e).inits)
    (completes : (s'.event e).completes = (s.event e).completes)
    (busy : (G'.life e).Busy ↔ (G.life e).Busy) : Counts s s' G' e := by
  unfold Counts
  rw [inits, completes, busy]
  exact ⟨le_rfl, le_rfl, J.busy e, J.rest e⟩

/-- A step in which no item is enqueued. -/
lemma Joins.step (items : ∀ q, (s'.queue q).items = (s.queue q).items)
    (nodup : ∀ q, (s'.queue q).added.Nodup) (lt : ∀ q, ∀ k ∈ (s'.queue q).added, k < (s.queue q).items.length)
    (first : ∀ q, ∀ k < (s'.queue q).dequeued.length, k ∈ (s'.queue q).added)
    (given : ∀ q e m, members s G q e = some m → (G'.life e).stage.Member →
      (m.item ∈ (s'.queue q).added ↔ (G'.life e).stage.Given))
    (done : ∀ q k i w r, k < (s'.queue q).dequeued.length → (s.queue q).items[k]? = some i →
      i.awaits = some (w, r) → r ≤ (s.event w).completes)
    (counts : ∀ e, Counts s s' G' e)
    (static : ∀ e, (G.life e).stage.Member → s.SameItem s' e)
    (stage : ∀ e, (G'.life e).stage.Member → (G.life e).stage.Member)
    (old : ∀ e p, (G.life e).stage.Member → p ∈ (G'.life e).preds ++ (G'.life e).link.rest →
      p ∈ (G.life e).preds ++ (G.life e).link.rest)
    (keep : ∀ e p, (G.life e).stage.Member → p ∈ (G.life e).preds ++ (G.life e).link.rest →
      p ∈ (G'.life e).preds ++ (G'.life e).link.rest ∨ ¬(G.life p).Busy) : Joins s' G' := by
  have member : ∀ q e m', members s' G' q e = some m' → ∃ m, members s G q e = some m ∧ m.item = m'.item ∧
      (G.life e).stage.Member ∧ m.sources = (G.life e).preds ++ (G.life e).link.rest ∧
      m'.sources = (G'.life e).preds ++ (G'.life e).link.rest := by
    intro q e m' h
    obtain ⟨mem', home', rfl⟩ := of_members h
    have mem := stage e mem'
    obtain ⟨home, item, -⟩ := static e mem
    exact ⟨_, members_of mem (home ▸ home'), item.symm, mem, rfl, rfl⟩
  constructor
  case busy => exact fun e => (counts e).2.2.1
  case rest => exact fun e => (counts e).2.2.2
  case nodup => exact nodup
  case lt =>
    intro q k h
    rw [items]
    exact lt q k h
  case old => exact first
  case given =>
    intro q e m' h
    obtain ⟨m, hm, item, -⟩ := member q e m' h
    rw [← item]
    exact given q e m hm (of_members h).1
  case bound =>
    intro q i h w r awaits
    rw [items] at h
    exact (J.bound q i h w r awaits).trans (counts w).1
  case due =>
    intro q i w r m' h awaits hm'
    obtain ⟨m, hm, item, mem, sources, sources'⟩ := member q i.event m' hm'
    rw [items, ← item] at h
    obtain ⟨-, -, kind, wait⟩ := static i.event mem
    obtain ⟨kind', wait', due⟩ := J.due q i w r m h awaits hm
    refine ⟨kind.trans kind', wait.trans wait', ?_⟩
    have more := (counts w).2.1
    rw [sources']
    rcases due with source | le
    · rw [sources] at source
      refine (keep i.event w mem source).imp_right fun rest => le_trans ?_ more
      rw [← J.rest w rest]
      exact J.bound q i (mem_of_getElem? h) w r awaits
    · exact .inr (le.trans more)
  case done =>
    intro q k i w r lt h awaits
    rw [items] at h
    exact (done q k i w r lt h awaits).trans (counts w).2.1
  case origin =>
    intro q e m' p h source
    obtain ⟨m, hm, item, mem, sources, sources'⟩ := member q e m' h
    obtain ⟨-, -, kind, wait⟩ := static e mem
    rw [sources'] at source
    have from' := J.origin q e m p hm (by rw [sources]; exact old e p mem source)
    unfold Queue.events at from' ⊢
    rwa [kind, wait, items, ← item]

lemma Joins.shift (queue : ∀ q, s.SameQueue s' q)
    (counts : ∀ e, Counts s s' G' e)
    (static : ∀ e, (G.life e).stage.Member → s.SameItem s' e)
    (stage : ∀ e, ((G'.life e).stage.Member → (G.life e).stage.Member) ∧
      ((G.life e).stage.Member → ((G'.life e).stage.Given ↔ (G.life e).stage.Given)))
    (old : ∀ e p, (G.life e).stage.Member → p ∈ (G'.life e).preds ++ (G'.life e).link.rest →
      p ∈ (G.life e).preds ++ (G.life e).link.rest)
    (keep : ∀ e p, (G.life e).stage.Member → p ∈ (G.life e).preds ++ (G.life e).link.rest →
      p ∈ (G'.life e).preds ++ (G'.life e).link.rest ∨ ¬(G.life p).Busy) : Joins s' G' := by
  refine J.step (fun q => (queue q).1) (fun q => ?_) (fun q k h => ?_) (fun q k h => ?_) (fun q e m h _ => ?_)
    (fun q k i w r lt => ?_) counts static (fun e => (stage e).1) old keep
  · rw [(queue q).2.2]
    exact J.nodup q
  · rw [(queue q).2.2] at h
    exact J.lt q k h
  · rw [(queue q).2.1] at h
    rw [(queue q).2.2]
    exact J.old q k h
  · rw [(queue q).2.2, (stage e).2 (of_members h).1]
    exact J.given q e m h
  · rw [(queue q).2.1] at lt
    exact J.done q k i w r lt

omit J in
lemma of_awaits {w r : Nat} (h : s.awaits e = some (w, r)) :
    (s.event e).kind = .wait ∧ (s.event e).wait = some w ∧ r = (s.event w).inits := by
  unfold State.awaits at h
  split at h
  · rename_i kind
    obtain ⟨w', wait, eq⟩ := Option.map_eq_some_iff.1 h
    cases eq
    exact ⟨kind, wait, rfl⟩
  · cases h

lemma Joins.still (queue : ∀ q, s.SameQueue s' q)
    (counts : ∀ e, (s'.event e).inits = (s.event e).inits ∧ (s'.event e).completes = (s.event e).completes)
    (static : ∀ e, s.SameItem s' e) : Joins s' G :=
  J.shift queue (fun e => J.same (counts e).1 (counts e).2 Iff.rfl) (fun e _ => static e)
    (fun _ => ⟨id, fun _ => Iff.rfl⟩) (fun _ _ _ => id) fun _ _ _ => .inl

lemma Joins.give (L : Lines s G) {M : Life} (hG : G' = G.set e M) (hs : s'.event = s.event)
    (home : (s.event e).q = some q)
    (queue : s'.queue = update s.queue q { s.queue q with added := (s.queue q).added ++ [(s.event e).item] })
    (old : (G.life e).stage = .pending ∨ ∃ b, (G.life e).stage = .handed b) (new : M.stage = .ready)
    (none : (G.life e).preds ++ (G.life e).link.rest = []) (none' : M.preds ++ M.link.rest = []) : Joins s' G' := by
  have mem : (G.life e).stage.Member := by
    rcases old with h | ⟨b, h⟩ <;> rw [h] <;> trivial
  have here := members_of mem home
  have self : G'.life e = M := by
    rw [hG]
    exact update_self ..
  have other : ∀ t, t ≠ e → G'.life t = G.life t := by
    intro t ne
    rw [hG]
    exact update_of_ne ne ..
  have absent : (s.event e).item ∉ (s.queue q).added := by
    intro h
    have given := (J.given q e _ here).1 h
    rcases old with h | ⟨b, h⟩ <;> rw [h] at given <;> exact given
  have added : ∀ q' k, k ∈ (s'.queue q').added ↔ k ∈ (s.queue q').added ∨ q' = q ∧
    k = (s.event e).item := by
    intro q' k
    rw [queue]
    by_cases eq : q' = q
    · subst eq
      simp
    · simp [eq]
  have dequeued : ∀ q, (s'.queue q).dequeued = (s.queue q).dequeued := fun q => by
    rw [queue]
    exact update_queue Queue.dequeued rfl
  refine J.step (fun q => ?_) (fun q' => ?_) (fun q' k h => ?_) (fun q' k h => ?_) (fun q' t m h _ => ?_)
    (fun q' k i w r lt => ?_) (fun t => ?_) (fun t _ => by simp only [State.SameItem, hs, and_self]) (fun t h => ?_)
    (fun t p _ h => ?_)
    fun t p _ h => ?_
  · rw [queue]
    exact update_queue Queue.items rfl
  · rw [queue]
    by_cases eq : q' = q
    · subst eq
      rw [update_self]
      exact nodup_append.2 ⟨J.nodup q', nodup_singleton _, fun k hk j hj eq => absent (by
        rw [mem_singleton] at hj
        rwa [← hj, ← eq])⟩
    · rw [update_of_ne eq]
      exact J.nodup q'
  · rcases (added q' k).1 h with old | ⟨rfl, rfl⟩
    · exact J.lt q' k old
    · exact (L.line q').lt here
  · rw [dequeued] at h
    exact (added q' k).2 (.inl (J.old q' k h))
  · rw [added]
    by_cases eq : t = e
    · subst eq
      obtain ⟨-, home', rfl⟩ := of_members h
      rw [home] at home'
      cases home'
      simp [self, new, Stage.Given]
    · have other' : ¬(q' = q ∧ m.item = (s.event e).item) := by
        rintro ⟨rfl, item⟩
        exact eq ((L.line q').eq h here item)
      simp only [other', or_false, J.given q' t m h, other t eq]
  · rw [dequeued] at lt
    exact J.done q' k i w r lt
  · apply J.same
    · rw [hs]
    · rw [hs]
    · by_cases eq : t = e
      · subst eq
        simp only [self, Life.Busy, new]
        rcases old with h | ⟨b, h⟩ <;> simp [h]
      · rw [other t eq]
  · by_cases eq : t = e
    · exact eq ▸ mem
    · rwa [other t eq] at h
  · by_cases eq : t = e
    · rw [eq, self, none'] at h
      cases h
    · rwa [other t eq] at h
  · by_cases eq : t = e
    · rw [eq, none] at h
      cases h
    · rw [other t eq]
      exact .inl h

lemma Joins.enter (L : Lines s G) (P : Places s G) (E : Edges s G)
    (hpc : s.pc a = .armed e q) (unlocked : (s.queue q).locked = false) :
    Joins (s.enter a e q)
      (G.enter s a e q) := by
  obtain ⟨author, out, -, home⟩ := P.here hpc
  have last : LastOk (s.queue q) .free := (P.locked q).1 unlocked ▸ L.last q
  have gone : ∀ q', members s G q' e = none := fun q' => members_none (by rw [out]; exact id)
  have new := members_enter P E hpc
  generalize hG : G.enter s a e q = G' at new
  have stage : ∀ t, t ≠ e → G'.life t = G.life t := by
    rintro t ne
    rw [← hG]
    exact update_of_ne ne ..
  have self : (G'.life e).stage = .pending := by
    rw [← hG]
    simp [Ghost.setLock, Ghost.set]
  have static : ∀ t, ((s.enter a e q).event t).inits = (s.event t).inits ∧
      ((s.enter a e q).event t).completes = (s.event t).completes ∧
      ((s.enter a e q).event t).kind = (s.event t).kind ∧ ((s.enter a e q).event t).wait = (s.event t).wait :=
    fun t => ⟨update_field Event.inits rfl, update_field Event.completes rfl, update_field Event.kind rfl,
      update_field Event.wait rfl⟩
  have dequeued : ∀ q', ((s.enter a e q).queue q').dequeued = (s.queue q').dequeued :=
    fun q' => update_queue Queue.dequeued rfl
  have added : ∀ q', ((s.enter a e q).queue q').added = (s.queue q').added :=
    fun q' => update_queue Queue.added rfl
  have items : ∀ q', ((s.enter a e q).queue q').items =
      if q' = q then (s.queue q).items ++ [⟨e, s.awaits e⟩] else (s.queue q').items := by
    intro q'
    by_cases eq : q' = q
    · subst eq
      simp [State.enter, State.enqueue]
    · simp [State.enter, State.enqueue, eq]
  have busy : ∀ t, (G'.life t).Busy ↔ (G.life t).Busy := by
    intro t
    by_cases eq : t = e
    · subst eq
      simp [Life.Busy, self, out, author]
    · rw [stage t eq]
  have member : ∀ q' t m, members (s.enter a e q) G' q' t = some m →
      q' = q ∧ t = e ∧ m = ⟨(s.queue q).items.length, 0, s.sources e q⟩ ∨ t ≠ e ∧
        members s G q' t = some m := by
    intro q' t m h
    rw [new] at h
    by_cases eq : t = e
    · subst eq
      by_cases on : q' = q
      · rw [if_pos on, update_self] at h
        cases h
        exact .inl ⟨on, rfl, rfl⟩
      · rw [if_neg on, gone] at h
        cases h
    · right
      by_cases on : q' = q
      · subst on
        rw [if_pos rfl, update_of_ne eq] at h
        exact ⟨eq, h⟩
      · rw [if_neg on] at h
        exact ⟨eq, h⟩
  have before : ∀ q' k, k < (s.queue q').items.length →
      ((s.enter a e q).queue q').items[k]? = (s.queue q').items[k]? := by
    intro q' k lt
    rw [items]
    by_cases eq : q' = q
    · subst eq
      rw [if_pos rfl, List.getElem?_append_left lt]
    · rw [if_neg eq]
  constructor
  case busy =>
    intro t h
    rw [(static t).1, (static t).2.1]
    exact J.busy t ((busy t).1 h)
  case rest =>
    intro t h
    rw [(static t).1, (static t).2.1]
    exact J.rest t fun h' => h ((busy t).2 h')
  case nodup =>
    intro q'
    rw [added]
    exact J.nodup q'
  case lt =>
    intro q' k h
    rw [added] at h
    apply (J.lt q' k h).trans_le
    rw [items]
    split
    · rename_i eq
      subst eq
      simp
    · exact le_rfl
  case old =>
    intro q' k h
    rw [dequeued] at h
    rw [added]
    exact J.old q' k h
  case given =>
    intro q' t m h
    rw [added]
    rcases member q' t m h with ⟨rfl, rfl, rfl⟩ | ⟨ne, h⟩
    · rw [self]
      exact ⟨fun mem => absurd (J.lt q' _ mem) (lt_irrefl _), False.elim⟩
    · rw [stage t ne]
      exact J.given q' t m h
  case bound =>
    intro q' i h w r awaits
    rw [(static w).1]
    rw [items] at h
    split at h
    · rename_i eq
      subst eq
      rcases mem_append.1 h with old | new
      · exact J.bound q' i old w r awaits
      · rw [mem_singleton.1 new] at awaits
        obtain ⟨-, -, rfl⟩ := of_awaits awaits
        exact le_rfl
    · exact J.bound q' i h w r awaits
  case due =>
    intro q' i w r m h awaits hm
    rw [(static w).2.1, (static i.event).2.2.1, (static i.event).2.2.2]
    rcases member q' i.event m hm with ⟨rfl, eq, rfl⟩ | ⟨ne, old⟩
    · rw [items, if_pos rfl, List.getElem?_append_right le_rfl, Nat.sub_self] at h
      cases h
      obtain ⟨kind, wait, -⟩ := of_awaits awaits
      refine ⟨kind, wait, .inl ?_⟩
      simp [State.sources, kind, wait]
    · rw [before q' _ ((L.line q').lt old)] at h
      exact J.due q' i w r m h awaits old
  case done =>
    intro q' k i w r lt h awaits
    rw [dequeued] at lt
    rw [before q' k (lt.trans_le (L.line q').le)] at h
    rw [(static w).2.1]
    exact J.done q' k i w r lt h awaits
  case origin =>
    intro q' t m p h source
    rw [(static t).2.2.1, (static t).2.2.2]
    have at' : ∀ k, k < (s.queue q').items.length →
        ((s.enter a e q).queue q').events[k]? = (s.queue q').events[k]? := by
      intro k lt
      simp only [Queue.events, List.getElem?_map, before q' k lt]
    rcases member q' t m h with ⟨rfl, rfl, rfl⟩ | ⟨ne, old⟩
    · rcases mem_append.1 source with prev | wait
      · right
        obtain ⟨m, hm, next⟩ := (L.line q').of_lastOf le_rfl (last.symm.trans (Option.mem_toList.1 prev))
        dsimp only
        rw [at' _ (by omega), ← next, Nat.add_sub_cancel]
        exact ⟨Nat.succ_pos _, ((L.line q').member p m hm).2⟩
      · left
        split at wait
        · rename_i kind
          exact ⟨kind, Option.mem_toList.1 wait⟩
        · cases wait
    · have lt := (L.line q').lt old
      rw [at' _ (by omega)]
      exact J.origin q' t m p old source

lemma Joins.dequeue (L : Lines s G) (P : Places s G) (E : Edges s G)
    (hpc : s.pc a = .flagged e k) (home : (s.event e).q = some q) :
    Joins ((s.dequeue e q k).setPc a (.dequeuing e q))
      ((G.setStage e (.dequeuing a)).setLock q (.removing a e)) := by
  obtain ⟨stage, item⟩ := P.here hpc
  have mem : (G.life e).stage.Member := by
    rw [stage]
    trivial
  have hm := members_of mem home
  obtain ⟨preds, rest⟩ := E.still e (by rw [stage]; nofun)
  have first := L.first E mem (by rw [stage]; nofun) home
  have dequeued : ∀ q' i, i < (((s.dequeue e q k).setPc a (.dequeuing e q)).queue q').dequeued.length →
      i < (s.queue q').dequeued.length ∨ q' = q ∧ i = (s.event e).item := by
    intro q' i lt
    by_cases eq : q' = q
    · subst eq
      simp [State.dequeue] at lt
      omega
    · simp [State.dequeue, eq] at lt
      exact .inl lt
  have added : ∀ q', (((s.dequeue e q k).setPc a (.dequeuing e q)).queue q').added = (s.queue q').added :=
    fun q' => update_queue Queue.added rfl
  have lives : ∀ t, t ≠ e → ((G.setStage e (.dequeuing a)).setLock q (.removing a e)).life t = G.life t :=
    fun t ne => update_of_ne ne ..
  have self : (((G.setStage e (.dequeuing a)).setLock q (.removing a e)).life e).stage = .dequeuing a :=
    G.setStage_self
  refine J.step (fun q' => update_queue Queue.items rfl) (fun q' => ?_) (fun q' k h => ?_) (fun q' i h => ?_)
    (fun q' t m h mem' => ?_) (fun q' n i w r lt h awaits => ?_) (fun t => ?_) (fun t _ => ?_) (fun t h => ?_)
    (fun t p _ h => ?_) fun t p _ h => .inl ?_
  · rw [added]
    exact J.nodup q'
  · rw [added] at h
    exact J.lt q' k h
  · rw [added]
    rcases dequeued q' i h with lt | ⟨rfl, rfl⟩
    · exact J.old q' i lt
    · exact (J.given q' e _ hm).2 (by rw [stage]; trivial)
  · have ne : t ≠ e := by
      rintro rfl
      rw [self] at mem'
      exact mem'
    rw [added, lives t ne]
    exact J.given q' t m h
  · rcases dequeued q' n lt with lt | ⟨rfl, rfl⟩
    · exact J.done q' n i w r lt h awaits
    · -- the item that is dequeued waits for nothing
      have event : i.event = e := by
        have at' := ((L.line q').member e _ hm).2
        rw [Queue.events, List.getElem?_map, h] at at'
        exact Option.some.inj at'
      subst event
      obtain ⟨-, -, source | le⟩ := J.due q' i w r _ h awaits hm
      · rw [preds, rest] at source
        cases source
      · exact le
  · refine J.same (update_field Event.inits (by rfl)) (update_field Event.completes (by rfl)) ?_
    by_cases eq : t = e
    · subst eq
      simp [Life.Busy, self, stage]
    · rw [lives t eq]
  · exact ⟨update_field Event.q rfl, update_field Event.item rfl, update_field Event.kind rfl,
      update_field Event.wait rfl⟩
  · by_cases eq : t = e
    · exact eq ▸ mem
    · rwa [lives t eq] at h
  · rwa [Ghost.setLock, Ghost.setStage_preds, Ghost.setStage_link] at h
  · rwa [Ghost.setLock, Ghost.setStage_preds, Ghost.setStage_link]

lemma Joins.link {M : Life} (hG : G'.life = (G.set e M).life) (stage : (M.stage.Member → (G.life e).stage.Member) ∧
      ((G.life e).stage.Member → (M.stage.Given ↔ (G.life e).stage.Given)))
    (busy : M.Busy ↔ (G.life e).Busy)
    (sources : ∀ p, p ∈ M.preds ++ M.link.rest → p ∈ (G.life e).preds ++ (G.life e).link.rest)
    (keep : ∀ p, p ∈ (G.life e).preds ++ (G.life e).link.rest → p ∈ M.preds ++ M.link.rest ∨
      ¬(G.life p).Busy)
    (queue : ∀ q, s.SameQueue s' q)
    (counts : ∀ t, (s'.event t).inits = (s.event t).inits ∧ (s'.event t).completes = (s.event t).completes)
    (static : ∀ t, s.SameItem s' t) : Joins s' G' := by
  have here : G'.life e = M := by
    rw [hG]
    exact update_self ..
  have other : ∀ t, t ≠ e → G'.life t = G.life t := by
    intro t ne
    rw [hG]
    exact update_of_ne ne ..
  refine J.shift queue (fun t => ?_) (fun t _ => static t) (fun t => ?_) (fun t p _ h => ?_) fun t p _ h => ?_
  · apply J.same (counts t).1 (counts t).2
    by_cases eq : t = e
    · rw [eq, here]
      exact busy
    · rw [other t eq]
  · by_cases eq : t = e
    · rw [eq, here]
      exact stage
    · rw [other t eq]
      exact ⟨id, fun _ => Iff.rfl⟩
  · by_cases eq : t = e
    · rw [eq] at h ⊢
      rw [here] at h
      exact sources p h
    · rwa [other t eq] at h
  · by_cases eq : t = e
    · rw [eq] at h ⊢
      rw [here]
      exact keep p h
    · rw [other t eq]
      exact .inl h

lemma Joins.arm (P : Places s G) {kind : Kind} {wait : Option Nat} (live : (s.event e).live = false) :
    Joins ((s.eventInit e kind wait q).setPc a (.armed e q))
      (G.arm a e) := by
  obtain ⟨author, out⟩ := (P.live e).1 live
  have rest := J.rest e (by simp [Life.Busy, out, author])
  have other : ∀ t, t ≠ e → (G.arm a e).life t = G.life t :=
    fun t ne => update_of_ne ne ..
  have ne : ∀ t, (G.life t).stage.Member → t ≠ e := by
    rintro t mem rfl
    rw [out] at mem
    exact mem
  refine J.shift (fun _ => ⟨rfl, rfl, rfl⟩) (fun t => ?_) (fun t mem => ?_) (fun t => ?_) (fun t p mem h => ?_)
    fun t p mem h => ?_
  · by_cases eq : t = e
    · subst eq
      simp [Counts, State.eventInit, Event.init, Ghost.set, Life.Busy, out, rest]
    · apply J.same
      · simp [State.eventInit, eq]
      · simp [State.eventInit, eq]
      · rw [other t eq]
  · simp [State.SameItem, State.eventInit, ne t mem]
  · by_cases eq : t = e
    · subst eq
      simp [Ghost.set]
    · rw [other t eq]
      exact ⟨id, fun _ => Iff.rfl⟩
  · rwa [other t (ne t mem)] at h
  · rw [other t (ne t mem)]
    exact .inl h

lemma Joins.stop (P : Places s G) (hpc : s.pc a = .item e q k) :
    Joins ((s.stop e q k).setPc a (.flagged e k)) (G.setStage e (.flagged a)) := by
  obtain ⟨stage, -⟩ := P.here hpc
  have busy := J.busy e (by simp [Life.Busy, stage])
  refine J.shift (fun q' => ?_) (fun t => ?_) (fun t _ => ?_) (fun t => ?_) (fun t p _ h => ?_)
    fun t p _ h => .inl ?_
  · exact ⟨update_queue Queue.items rfl, update_queue Queue.dequeued rfl, update_queue Queue.added rfl⟩
  · by_cases eq : t = e
    · subst eq
      simp [Counts, State.stop, Life.Busy, busy]
    · apply J.same
      · simp [State.stop, eq]
      · simp [State.stop, eq]
      · simp [Life.Busy, eq]
  · exact ⟨update_field Event.q rfl, update_field Event.item rfl, update_field Event.kind rfl,
      update_field Event.wait rfl⟩
  · by_cases eq : t = e
    · subst eq
      simp [stage, Stage.Member, Stage.Given]
    · simp [eq]
  · rwa [Ghost.setStage_preds, Ghost.setStage_link] at h
  · rwa [Ghost.setStage_preds, Ghost.setStage_link]

lemma Joins.release (P : Places s G) (E : Edges s G) (hpc : s.pc a = .finishing e) :
    Joins (s.finished a e)
      (G.release a e) := by
  have stage : (G.life e).stage = .finishing a := P.here hpc
  have author : (G.life e).author = none := by
    apply P.author_none <;> rw [stage]
    · nofun
    · exact id
  refine J.shift (fun q' => ⟨rfl, rfl, rfl⟩) (fun t => ?_) (fun t _ => ?_) (fun t => ?_) (fun t p mem h => ?_)
    fun t p mem h => ?_
  · apply J.same
    · exact update_field Event.inits rfl
    · exact update_field Event.completes rfl
    · by_cases eq : t = e
      · subst eq
        simp [Life.Busy, stage, author]
      · obtain same | ⟨old, new | new⟩ := E.release_stage (a := a) eq
        · simp only [Life.Busy, same, Ghost.release_author]
        · simp only [Life.Busy, old, new]
        · simp only [Life.Busy, old, new]
  · exact ⟨update_field Event.q rfl, update_field Event.item rfl, update_field Event.kind rfl,
      update_field Event.wait rfl⟩
  · by_cases eq : t = e
    · subst eq
      simp [stage, Stage.Member]
    · obtain same | ⟨old, new | new⟩ := E.release_stage (a := a) eq
      · rw [same]
        exact ⟨id, fun _ => Iff.rfl⟩
      · rw [old, new]
        exact ⟨fun _ => trivial, fun _ => Iff.rfl⟩
      · rw [old, new]
        exact ⟨fun _ => trivial, fun _ => Iff.rfl⟩
  · simp only [Ghost.release_preds, Ghost.release_link, mem_append, mem_filter] at h
    exact mem_append.2 (h.imp_left And.left)
  · by_cases eq : p = e
    · subst eq
      exact .inr (by simp [Life.Busy, stage])
    · left
      simp only [Ghost.release_preds, Ghost.release_link, mem_append, mem_filter]
      exact (mem_append.1 h).imp_left fun mem => ⟨mem, by simpa using eq⟩

end

lemma Event.deref_counts (E : Event) : E.deref.inits = E.inits ∧ E.deref.completes = E.completes := by
  unfold Event.deref
  split <;> exact ⟨rfl, rfl⟩

/-- No move gives an item to the scheduler before what it awaits. -/
theorem Joins.move (J : Joins s G) (L : Lines s G) (P : Places s G) (E : Edges s G) (m : Move s G s' G') :
    Joins s' G' := by
  have static : ∀ {e : Nat} {F : Event}, F.q = (s.event e).q → F.item = (s.event e).item →
      F.kind = (s.event e).kind → F.wait = (s.event e).wait →
      ∀ t, (update s.event e F t).q = (s.event t).q ∧ (update s.event e F t).item = (s.event t).item ∧
        (update s.event e F t).kind = (s.event t).kind ∧
        (update s.event e F t).wait = (s.event t).wait :=
    fun q i k w t => ⟨update_field Event.q q, update_field Event.item i, update_field Event.kind k,
      update_field Event.wait w⟩
  have counts : ∀ {e : Nat} {F : Event}, F.inits = (s.event e).inits → F.completes = (s.event e).completes →
      ∀ t, (update s.event e F t).inits = (s.event t).inits ∧
        (update s.event e F t).completes = (s.event t).completes :=
    fun i c t => ⟨update_field Event.inits i, update_field Event.completes c⟩
  have queue : ∀ {q : Nat} {Q : Queue}, Q.items = (s.queue q).items → Q.dequeued = (s.queue q).dequeued →
      Q.added = (s.queue q).added → ∀ t, (update s.queue q Q t).items = (s.queue t).items ∧
        (update s.queue q Q t).dequeued = (s.queue t).dequeued ∧
        (update s.queue q Q t).added = (s.queue t).added :=
    fun i d a t => ⟨update_queue Queue.items i, update_queue Queue.dequeued d, update_queue Queue.added a⟩
  have none : ∀ q : Nat, (s.queue q).items = (s.queue q).items ∧ (s.queue q).dequeued = (s.queue q).dequeued ∧
      (s.queue q).added = (s.queue q).added := fun _ => ⟨rfl, rfl, rfl⟩
  have refs : ∀ t : Nat, (s.event t).q = (s.event t).q ∧ (s.event t).item = (s.event t).item ∧
      (s.event t).kind = (s.event t).kind ∧ (s.event t).wait = (s.event t).wait :=
    fun _ => ⟨rfl, rfl, rfl, rfl⟩
  have same : ∀ t : Nat, (s.event t).inits = (s.event t).inits ∧
      (s.event t).completes = (s.event t).completes := fun _ => ⟨rfl, rfl⟩
  cases m with
  | queue q requests inPlace => exact J.still (queue rfl rfl rfl) same refs
  | users e us | wait | waited | finish | finished => exact J.still none (counts rfl rfl) (static rfl rfl rfl rfl)
  | create o =>
    have blank := (P.fresh s.created le_rfl).2
    refine J.still none (counts ?_ ?_) (static ?_ ?_ ?_ ?_) <;> rw [blank] <;> rfl
  | destroy e =>
    have deref := Event.deref_static { s.event e with owner := .none }
    have counted := Event.deref_counts { s.event e with owner := .none }
    exact J.still none (counts counted.1 counted.2)
      (static deref.1.1 deref.1.2.1 deref.2.1 deref.2.2.1)
  | turn | pass | passed => exact J.still none same refs
  | arm calm live => exact J.arm P live
  | enter hpc unlocked => exact J.enter L P E hpc unlocked
  | @skip a e q p n ps hpc fin =>
    have here := P.here hpc
    refine J.link rfl ⟨id, fun _ => Iff.rfl⟩ Iff.rfl (fun x h => ?_) (fun x h => ?_) none (counts rfl rfl)
      (static rfl rfl rfl rfl)
    · rw [here.link]
      simp only [mem_append, mem_cons] at h ⊢
      tauto
    · rw [here.link] at h
      simp only [mem_append, mem_cons] at h ⊢
      by_cases eq : x = p
      · subst eq
        right
        obtain ⟨author, out | ⟨b, at'⟩⟩ := P.done x fin
        · simp [Life.Busy, out, author]
        · simp [Life.Busy, at']
      · tauto
  | @insert a e q p n ps hpc unfinished =>
    have here := P.here hpc
    refine J.link rfl ⟨id, fun _ => Iff.rfl⟩ Iff.rfl (fun x h => ?_) (fun x h => .inl ?_) none same refs
    · rw [here.link]
      simp only [mem_append, mem_cons] at h ⊢
      tauto
    · rw [here.link] at h
      simp only [mem_append, mem_cons] at h ⊢
      tauto
  | @count a e q p n ps hpc =>
    have here := P.here hpc
    refine J.link rfl ⟨id, fun _ => Iff.rfl⟩ Iff.rfl (fun x h => ?_) (fun x h => .inl ?_) none
      (counts rfl rfl) (static rfl rfl rfl rfl)
    · rwa [here.link]
    · rwa [here.link] at h
  | @schedule a e q hpc =>
    have here := P.here hpc
    obtain ⟨preds, pending⟩ := E.begun e (by rw [here.link])
    rw [State.schedAddTb_eq here.home]
    refine J.give L rfl rfl here.home rfl (.inl (pending.2 (by rw [here.link]))) rfl ?_ ?_
    · rw [preds, here.link]
      rfl
    · rw [preds]
      rfl
  | @submitted a e q n hpc =>
    have here := P.here hpc
    refine J.link rfl ⟨id, fun _ => Iff.rfl⟩ Iff.rfl (fun x h => ?_) (fun x h => .inl ?_) none same refs
    · rwa [here.link]
    · rwa [here.link] at h
  | @leave a e q hpc =>
    obtain ⟨n, here⟩ := P.here hpc
    refine J.link rfl ⟨id, fun _ => Iff.rfl⟩ ?_ (fun _ => id) (fun _ => .inl) (queue rfl rfl rfl) same refs
    have mem := here.member
    unfold Life.Busy
    split <;> simp_all [Stage.Member]
  | @run a e q hpc home mem =>
    have stage := (P.ready e).1 mem
    refine J.link rfl ?_ ?_ (fun _ => id) (fun _ => .inl) (queue rfl rfl rfl) same refs
    · rw [stage]
      exact ⟨fun _ => trivial, fun _ => Iff.rfl⟩
    · simp [Life.Busy, stage]
  | stop hpc => exact J.stop P hpc
  | dequeue hpc home => exact J.dequeue L P E hpc home
  | @deref a e q hpc =>
    have here := P.here hpc
    have deref := Event.deref_static (s.event e)
    have counted := Event.deref_counts (s.event e)
    refine J.link rfl ?_ ?_ (fun _ => id) (fun _ => .inl) none (counts counted.1 counted.2)
      (static deref.1.1 deref.1.2.1 deref.2.1 deref.2.2.1)
    · rw [here.1]
      exact ⟨id, fun _ => Iff.rfl⟩
    · simp [Life.Busy, here.1]
  | @clear a e q hpc =>
    have here := P.here hpc
    refine J.link rfl ?_ ?_ (fun _ => id) (fun _ => .inl) (queue rfl rfl rfl) same refs
    · rw [here.1]
      exact ⟨id, fun _ => Iff.rfl⟩
    · simp [Life.Busy, here.1]
  | release hpc ok => exact J.release P E hpc
  | @add a e t ts hpc =>
    obtain ⟨q, stage, home, sched⟩ := P.scheduled hpc
    obtain ⟨preds, rest⟩ := E.still t (by rw [stage]; rintro ⟨⟩)
    rw [sched]
    have none : (G.life t).preds ++ (G.life t).link.rest = [] := by rw [preds, rest]; rfl
    exact J.give L rfl rfl home rfl (.inr ⟨a, stage⟩) rfl none none

lemma Joins.init {sync : Nat → Bool} (s : State) (h : (queueMachine sync).init s) : Joins s Ghost.init := by
  cases h
  have none : ∀ q e, members ⟨fun _ => queueCreate, fun _ => eventBlank, fun _ => gnodeInit, [], 0,
      fun _ => .idle⟩ Ghost.init q e = none := fun q e => members_none id
  constructor
  case busy => exact fun e busy => absurd rfl busy
  case rest => exact fun _ _ => rfl
  case nodup => exact fun _ => nodup_nil
  case lt => nofun
  case old => exact fun _ k lt => absurd lt (Nat.not_lt_zero k)
  case bound => nofun
  case done => exact fun _ k _ _ _ lt => absurd lt (Nat.not_lt_zero k)
  all_goals
    intros
    simp [none] at *

end Joins
end Kupl.Events
