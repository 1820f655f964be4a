import Kupl.Queue.Edges
import Kupl.Queue.Line

/-!
# The order of a queue

The events in every queue are in line, `last_event` is the last of them whenever nobody has the lock, and
`kupl_queue_wait` waits for the last of the items before it (`Lines`). No move breaks the order (`Lines.move`).
-/

namespace Kupl.Events
open Dag
open Function (update update_of_ne update_self)

def members (s : State) (G : Ghost) (q e : Nat) : Option Member :=
  if (G.life e).stage.Member ∧ (s.event e).q = some q then
    some ⟨(s.event e).item, (G.life e).stage.progress, (G.life e).preds ++ (G.life e).link.rest⟩
  else none

/-- `last_event`, by who has the lock. -/
def LastOk (Q : Queue) : Hold → Prop
  | .free => Q.lastEvent = Q.lastOf Q.items.length
  | .adding _ e => Q.lastEvent = Q.lastOf (Q.items.length - 1) ∧ Q.events[Q.items.length - 1]? = some e
  | .removing _ e => Q.lastEvent = some e ∧ Q.dequeued.length = Q.items.length ∨
      Q.dequeued.length < Q.items.length ∧ Q.lastEvent = Q.lastOf Q.items.length

/-- What a thread waits for is the last of the first items, or all of them were dequeued. -/
def Awaits (s : State) (G : Ghost) (q : Nat) (task : Option Nat) (before : Nat) : Prop :=
  before ≤ (s.queue q).dequeued.length ∨ ∃ e m, task = some e ∧ members s G q e = some m ∧ m.item + 1 = before

/-- The queues are in order. -/
structure Lines (s : State) (G : Ghost) : Prop where
  line : ∀ q, Line (members s G q) (s.queue q)
  last : ∀ q, LastOk (s.queue q) (G.lock q)
  waits : ∀ a q task before, s.pc a = .waiting q task before → Awaits s G q task before

section Lines
variable {s s' : State} {G G' : Ghost} {a e p q k n : Nat} {ps : List Nat} {m : Member}

lemma members_of (mem : (G.life e).stage.Member) (home : (s.event e).q = some q) :
    members s G q e = some ⟨(s.event e).item, (G.life e).stage.progress,
      (G.life e).preds ++ (G.life e).link.rest⟩ := if_pos ⟨mem, home⟩

lemma of_members (h : members s G q e = some m) : (G.life e).stage.Member ∧ (s.event e).q = some q ∧
    m = ⟨(s.event e).item, (G.life e).stage.progress, (G.life e).preds ++ (G.life e).link.rest⟩ := by
  unfold members at h
  split at h
  · rename_i ok
    cases h
    exact ⟨ok.1, ok.2, rfl⟩
  · cases h

lemma members_none (h : ¬(G.life e).stage.Member) : members s G q e = none := if_neg fun ok => h ok.1

/-- The core of a queue: all but its requests, its lock and what is given to the scheduler. -/
def Queue.Same (Q Q' : Queue) : Prop :=
  Q'.items = Q.items ∧ Q'.dequeued = Q.dequeued ∧ Q'.eventCount = Q.eventCount ∧ Q'.trace = Q.trace ∧
    Q'.lastEvent = Q.lastEvent

lemma LastOk.congr {Q Q' : Queue} {l : Hold} (h : LastOk Q l) (items : Q'.items = Q.items)
    (dequeued : Q'.dequeued = Q.dequeued) (last : Q'.lastEvent = Q.lastEvent) : LastOk Q' l := by
  have events : Q'.events = Q.events := by rw [Queue.events, items]; rfl
  cases l <;> simpa [LastOk, Queue.lastOf, items, dequeued, last, events] using h

lemma Lines.shift (L : Lines s G) (queue : ∀ q, (s.queue q).Same (s'.queue q)) (lock : ∀ q, G'.lock q = G.lock q)
    (stage : ∀ e, ((G'.life e).stage.Member ↔ (G.life e).stage.Member) ∧
      (G'.life e).stage.progress = (G.life e).stage.progress)
    (static : ∀ e, (G.life e).stage.Member → (s'.event e).q = (s.event e).q ∧
      (s'.event e).item = (s.event e).item)
    (sources : ∀ e p, (G.life e).stage.Member → (G.life p).stage.Member →
      p ∈ (G.life e).preds ++ (G.life e).link.rest → p ∈ (G'.life e).preds ++ (G'.life e).link.rest)
    (waits : ∀ a q task before, s'.pc a = .waiting q task before →
      s.pc a = .waiting q task before ∨ Awaits s G q task before) : Lines s' G' := by
  have new : ∀ q e m, members s G q e = some m → ∃ m', members s' G' q e = some m' ∧ m'.item = m.item := by
    intro q e m h
    obtain ⟨mem, home, rfl⟩ := of_members h
    obtain ⟨home', item⟩ := static e mem
    exact ⟨_, members_of ((stage e).1.2 mem) (home'.trans home), item⟩
  constructor
  · intro q
    obtain ⟨items, dequeued, count, trace, -⟩ := queue q
    refine ((L.line q).shift (fun e m' h => ?_) (new q)).congr items dequeued count trace
    obtain ⟨mem', home', rfl⟩ := of_members h
    have mem := (stage e).1.1 mem'
    obtain ⟨home, item⟩ := static e mem
    refine ⟨_, members_of mem (home ▸ home'), item.symm, (stage e).2.symm, fun p n h' hn => ?_⟩
    exact sources e p mem (of_members hn).1 h'
  · intro q
    rw [lock]
    obtain ⟨items, dequeued, -, -, last⟩ := queue q
    exact (L.last q).congr items dequeued last
  · intro a q task before h
    have old : Awaits s G q task before := by
      rcases waits a q task before h with old | new
      · exact L.waits a q task before old
      · exact new
    rcases old with le | ⟨e, m, at', hm, item⟩
    · exact .inl (by rw [(queue q).2.1]; exact le)
    · obtain ⟨m', hm', same⟩ := new q e m hm
      exact .inr ⟨e, m', at', hm', by rw [same, item]⟩

lemma Lines.one (L : Lines s G) (others : ∀ q', q' ≠ q → s'.queue q' = s.queue q' ∧ G'.lock q' = G.lock q' ∧
      members s' G' q' = members s G q')
    (line : Line (members s' G' q) (s'.queue q)) (last : LastOk (s'.queue q) (G'.lock q))
    (mono : (s.queue q).dequeued.length ≤ (s'.queue q).dequeued.length)
    (keep : ∀ e m, members s G q e = some m →
      (∃ m', members s' G' q e = some m' ∧ m'.item = m.item) ∨ m.item + 1 ≤ (s'.queue q).dequeued.length)
    (waits : ∀ a q task before, s'.pc a = .waiting q task before → s.pc a = .waiting q task before) :
    Lines s' G' := by
  constructor
  · intro q'
    by_cases eq : q' = q
    · exact eq ▸ line
    · obtain ⟨queue, -, same⟩ := others q' eq
      rw [queue, same]
      exact L.line q'
  · intro q'
    by_cases eq : q' = q
    · exact eq ▸ last
    · obtain ⟨queue, lock, -⟩ := others q' eq
      rw [queue, lock]
      exact L.last q'
  · intro a q' task before h
    by_cases eq : q' = q
    · subst eq
      rcases L.waits a q' task before (waits a q' task before h) with le | ⟨e, m, at', hm, item⟩
      · exact .inl (le.trans mono)
      · rcases keep e m hm with ⟨m', hm', same⟩ | gone
        · exact .inr ⟨e, m', at', hm', by rw [same, item]⟩
        · exact .inl (item ▸ gone)
    · obtain ⟨queue, -, same⟩ := others q' eq
      unfold Awaits
      rw [queue, same]
      exact L.waits a q' task before (waits a q' task before h)

lemma Queue.Same.refl {Q : Queue} : Q.Same Q := ⟨rfl, rfl, rfl, rfl, rfl⟩

lemma Queue.Same.update {Q : Queue} (h : (s.queue q).Same Q) (q' : Nat) :
    (s.queue q').Same (update s.queue q Q q') := by
  by_cases eq : q' = q
  · subst eq
    rwa [update_self]
  · rw [update_of_ne eq]
    exact .refl

lemma Lines.still (L : Lines s G) (queue : ∀ q, (s.queue q).Same (s'.queue q))
    (static : ∀ e, (G.life e).stage.Member →
      (s'.event e).q = (s.event e).q ∧ (s'.event e).item = (s.event e).item)
    (waits : ∀ a q task before, s'.pc a = .waiting q task before →
      s.pc a = .waiting q task before ∨ Awaits s G q task before) : Lines s' G :=
  L.shift queue (fun _ => rfl) (fun _ => ⟨Iff.rfl, rfl⟩) static (fun _ _ _ _ => id) waits

lemma not_waiting {pc : Pc} (hpc : s'.pc = update s.pc a pc)
    (new : ∀ q task before, pc ≠ .waiting q task before) (b q : Nat) (task : Option Nat) (before : Nat)
    (h : s'.pc b = .waiting q task before) : s.pc b = .waiting q task before := by
  rw [hpc] at h
  by_cases eq : b = a
  · subst eq
    rw [update_self] at h
    exact absurd h (new q task before)
  · rwa [update_of_ne eq] at h

lemma members_update (home : (s'.event e).q = some q) (events : ∀ t, t ≠ e → s'.event t = s.event t)
    (lives : ∀ t, t ≠ e → G'.life t = G.life t) :
      members s' G' q = update (members s G q) e (members s' G' q e) := by
  funext t
  by_cases eq : t = e
  · subst eq
    rw [update_self]
  · rw [update_of_ne eq]
    unfold members
    rw [events t eq, lives t eq]

lemma members_other {q' : Nat} (ne : q' ≠ q) (home : (s.event e).q = some q) (home' : (s'.event e).q = some q)
    (events : ∀ t, t ≠ e → s'.event t = s.event t) (lives : ∀ t, t ≠ e → G'.life t = G.life t) :
    members s' G' q' = members s G q' := by
  funext t
  by_cases eq : t = e
  · subst eq
    unfold members
    rw [home, home', if_neg, if_neg]
    · exact fun h => ne (Option.some.inj h.2).symm
    · exact fun h => ne (Option.some.inj h.2).symm
  · unfold members
    rw [events t eq, lives t eq]

lemma Lines.first (L : Lines s G) (E : Edges s G) (mem : (G.life e).stage.Member) (on : (G.life e).stage ≠ .pending)
    (home : (s.event e).q = some q) : (s.event e).item = (s.queue q).dequeued.length := by
  obtain ⟨preds, rest⟩ := E.still e on
  exact (L.line q).first (members_of mem home) (by rw [preds, rest]; rfl)

lemma members_enter (P : Places s G) (E : Edges s G) (hpc : s.pc a = .armed e q) (q' : Nat) :
    members (s.enter a e q) (G.enter s a e q) q' =
      if q' = q then
        update (members s G q) e (some ⟨(s.queue q).items.length, 0, s.sources e q⟩)
      else members s G q' := by
  obtain ⟨author, out, -, home⟩ := P.here hpc
  have preds := (E.still e (by rw [out]; nofun)).1
  have home' : ((s.enter a e q).event e).q = some q := by
    simpa [State.enter, State.enqueue, Event.submit] using home
  have events : ∀ t, t ≠ e → (s.enter a e q).event t = s.event t := by
    intro t ne
    simp [State.enter, State.enqueue, ne]
  have lives : ∀ t, t ≠ e → (G.enter s a e q).life t = G.life t :=
    fun t ne => update_of_ne ne ..
  have new : members (s.enter a e q) (G.enter s a e q) q e =
        some ⟨(s.queue q).items.length, 0, s.sources e q⟩ := by
    rw [members_of (by simp [Ghost.set, Ghost.setLock, Stage.Member]) home']
    simp [Ghost.set, Ghost.setLock, Stage.progress, preds, State.enter, State.enqueue, Event.submit]
  by_cases eq : q' = q
  · subst eq
    rw [if_pos rfl, members_update home' events lives, new]
  · rw [if_neg eq]
    exact members_other eq home home' events lives

lemma events_enter : ((s.enter a e q).queue q).events = (s.queue q).events ++ [e] := by
  simp [State.enter, State.enqueue, Queue.events]

section
variable (L : Lines s G)
include L

lemma Lines.enter (P : Places s G) (E : Edges s G) (hpc : s.pc a = .armed e q) (unlocked : (s.queue q).locked = false) :
    Lines (s.enter a e q)
      (G.enter s a e q) := by
  have out : (G.life e).stage = .out := by
    have here := P.here hpc
    exact here.2.1
  have last : LastOk (s.queue q) .free := (P.locked q).1 unlocked ▸ L.last q
  have none : members s G q e = none := members_none (by rw [out]; exact id)
  have new := members_enter P E hpc
  refine L.one (q := q) ?_ ?_ ?_ ?_ ?_ (not_waiting rfl nofun)
  · intro q' ne
    refine ⟨by simp [State.enter, State.enqueue, ne], update_of_ne ne .., ?_⟩
    rw [new, if_neg ne]
  · rw [new, if_pos rfl]
    refine (L.line q).enqueue (w := s.awaits e) none ?_ ?_ ?_ ?_ ?_
    · intro p h
      rw [← last] at h
      exact List.mem_append_left _ (Option.mem_toList.2 h)
    all_goals simp [State.enter, State.enqueue]
  · simp only [Ghost.setLock, update_self]
    have length : ((s.enter a e q).queue q).items.length - 1 = (s.queue q).items.length := by
      simp [State.enter, State.enqueue]
    unfold LastOk
    rw [length, events_enter]
    refine ⟨?_, by rw [← Queue.length_events]; simp⟩
    have same : ((s.enter a e q).queue q).lastEvent = (s.queue q).lastEvent ∧
        ((s.enter a e q).queue q).dequeued = (s.queue q).dequeued := by
      simp [State.enter, State.enqueue]
    rw [same.1, show (s.queue q).lastEvent = _ from last]
    unfold Queue.lastOf
    rw [same.2, events_enter]
    split
    · exact (List.getElem?_append_left (by rw [Queue.length_events]; omega)).symm
    · rfl
  · simp [State.enter, State.enqueue]
  · intro t m h
    have ne : t ≠ e := by
      rintro rfl
      rw [none] at h
      cases h
    rw [new, if_pos rfl, update_of_ne ne]
    exact .inl ⟨m, h, rfl⟩

lemma Lines.leave (P : Places s G) (hpc : s.pc a = .leaving e q) :
    Lines ((s.leave e q).setPc a .idle) ((G.set e { G.life e with author := none }).setLock q .free) := by
  obtain ⟨n, here⟩ := P.here hpc
  have hm := members_of here.member here.home
  obtain ⟨-, at'⟩ : LastOk (s.queue q) (.adding a e) := here.lock ▸ L.last q
  have ge := ((L.line q).member e _ hm).1
  have lt := (L.line q).lt hm
  -- the event is the last of the items
  have item : (s.event e).item + 1 = (s.queue q).items.length := by
    obtain ⟨x, m, hx, eq, same⟩ := (L.line q).at (by omega : _ ≤ (s.queue q).items.length - 1) (by omega)
    rw [at'] at same
    cases same
    rw [hm] at hx
    cases hx
    simp at eq
    omega
  have same : ∀ q', members ((s.leave e q).setPc a .idle)
      ((G.set e { G.life e with author := none }).setLock q .free) q' = members s G q' := by
    intro q'
    funext t
    by_cases eq : t = e
    · subst eq
      simp [members, Ghost.set, Ghost.setLock, State.leave]
    · simp [members, Ghost.set, Ghost.setLock, State.leave, eq]
  refine L.one (q := q) ?_ ?_ ?_ ?_ ?_ (not_waiting rfl (by rintro _ _ _ ⟨⟩))
  · intro q' ne
    exact ⟨by simp [State.leave, ne], update_of_ne ne .., same q'⟩
  · rw [same]
    apply (L.line q).congr <;> simp [State.leave]
  · have last := (L.line q).lastOf_eq hm item
    simpa [Ghost.setLock, LastOk, State.leave, Queue.lastOf, Queue.events] using last.symm
  · simp [State.leave]
  · intro t m h
    exact .inl ⟨m, by rw [same]; exact h, rfl⟩

lemma Lines.restage {st : Stage} (hG : G' = G.setStage e st) (old : (G.life e).stage.Member)
    (new : st.Member) (home : (s.event e).q = some q)
    (home' : (s'.event e).q = some q) (events : ∀ t, t ≠ e → s'.event t = s.event t)
    (item : (s'.event e).item = (s.event e).item)
    (queue : ∀ q', q' ≠ q → s'.queue q' = s.queue q')
    (line : Line (update (members s G q) e (some ⟨(s.event e).item, st.progress,
      (G.life e).preds ++ (G.life e).link.rest⟩)) (s'.queue q))
    (last : LastOk (s.queue q) (G.lock q) → LastOk (s'.queue q) (G.lock q))
    (mono : (s'.queue q).dequeued = (s.queue q).dequeued)
    (waits : ∀ a q task before, s'.pc a = .waiting q task before → s.pc a = .waiting q task before) :
    Lines s' G' := by
  subst hG
  have lives : ∀ t, t ≠ e → (G.setStage e st).life t = G.life t := fun t ne => update_of_ne ne ..
  have mine : members s' (G.setStage e st) q e =
      some ⟨(s.event e).item, st.progress, (G.life e).preds ++ (G.life e).link.rest⟩ := by
    rw [members_of (by simpa using new) home', item]
    simp
  refine L.one (q := q) ?_ ?_ (last (L.last q)) (mono ▸ le_rfl) ?_ waits
  · exact fun q' ne => ⟨queue q' ne, rfl, members_other ne home home' events lives⟩
  · rw [members_update home' events lives, mine]
    exact line
  · intro t m h
    by_cases eq : t = e
    · subst eq
      obtain ⟨-, -, rfl⟩ := of_members h
      exact .inl ⟨_, mine, rfl⟩
    · rw [members_update home' events lives, update_of_ne eq]
      exact .inl ⟨m, h, rfl⟩

omit L in
lemma mark_start (k : Nat) : mark (2 * k) = .start k := by
  unfold mark
  rw [if_pos (by omega)]
  congr
  omega

omit L in
lemma mark_stop (k : Nat) : mark (2 * k + 1) = .stop k := by
  unfold mark
  rw [if_neg (by omega)]
  congr
  omega

lemma Lines.run (P : Places s G) (E : Edges s G) (home : (s.event e).q = some q) (mem : e ∈ s.ready) :
    Lines (({ s with ready := s.ready.erase e }.note q (.start (s.event e).item)).setPc a
      (.item e q (s.event e).item)) (G.setStage e (.item a)) := by
  have stage := (P.ready e).1 mem
  have old : (G.life e).stage.Member := by
    rw [stage]
    trivial
  have first := L.first E old (by rw [stage]; nofun) home
  refine L.restage rfl old trivial home home (fun _ _ => rfl) rfl ?_ ?_ ?_ ?_ (not_waiting rfl nofun)
  · intro q' ne
    simp [State.note, ne]
  · refine (L.line q).advance (members_of old home) first rfl (by rw [stage]; rfl) ?_ ?_ ?_ ?_ <;>
      simp [State.note]
    rw [stage, first]
    exact (mark_start _).symm
  · intro last
    apply last.congr <;> simp [State.note]
  · simp [State.note]

lemma Lines.stop (P : Places s G) (E : Edges s G) (hpc : s.pc a = .item e q k) :
    Lines ((s.stop e q k).setPc a (.flagged e k)) (G.setStage e (.flagged a)) := by
  obtain ⟨stage, home, item⟩ := P.here hpc
  have old : (G.life e).stage.Member := by
    rw [stage]
    trivial
  have first := L.first E old (by rw [stage]; nofun) home
  refine L.restage rfl old trivial home ?_ ?_ ?_ ?_ ?_ ?_ ?_ (not_waiting rfl nofun)
  · simpa [State.stop] using home
  · intro t ne
    simp [State.stop, ne]
  · simp [State.stop]
  · intro q' ne
    simp [State.stop, ne]
  · refine (L.line q).advance (members_of old home) first rfl (by rw [stage]; rfl) ?_ ?_ ?_ ?_ <;>
      simp [State.stop]
    rw [stage, ← item, first]
    exact (mark_stop _).symm
  · intro last
    apply last.congr <;> simp [State.stop]
  · simp [State.stop]

lemma Lines.dequeue (P : Places s G) (E : Edges s G) (hpc : s.pc a = .flagged e k)
    (home : (s.event e).q = some q) (unlocked : (s.queue q).locked = false) :
    Lines ((s.dequeue e q k).setPc a (.dequeuing e q))
      ((G.setStage e (.dequeuing a)).setLock q (.removing a e)) := by
  obtain ⟨stage, item⟩ := P.here hpc
  have old : (G.life e).stage.Member := by
    rw [stage]
    trivial
  have first := L.first E old (by rw [stage]; rintro ⟨⟩) home
  have hm := members_of old home
  have lt := (L.line q).lt hm
  have last : LastOk (s.queue q) .free := (P.locked q).1 unlocked ▸ L.last q
  have home' : (((s.dequeue e q k).setPc a (.dequeuing e q)).event e).q = some q := by
    simpa [State.dequeue] using home
  have events : ∀ t, t ≠ e → ((s.dequeue e q k).setPc a (.dequeuing e q)).event t = s.event t := by
    intro t ne
    simp [State.dequeue, ne]
  have lives : ∀ t, t ≠ e → ((G.setStage e (.dequeuing a)).setLock q (.removing a e)).life t = G.life t :=
    fun t ne => update_of_ne ne ..
  have gone : members ((s.dequeue e q k).setPc a (.dequeuing e q))
      ((G.setStage e (.dequeuing a)).setLock q (.removing a e)) q e = none :=
    members_none (by simp [Ghost.setLock, Stage.Member])
  have queue : ((s.dequeue e q k).setPc a (.dequeuing e q)).queue q = { s.queue q with
      eventCount := (s.queue q).eventCount - 1, locked := true, dequeued := (s.queue q).dequeued ++ [k] } := by
    simp [State.dequeue]
  refine L.one (q := q) ?_ ?_ ?_ ?_ ?_ (not_waiting rfl (by rintro _ _ _ ⟨⟩))
  · intro q' ne
    exact ⟨by simp [State.dequeue, ne], update_of_ne ne .., members_other ne home home' events lives⟩
  · rw [members_update home' events lives, gone, queue]
    exact (L.line q).dequeue hm first (by rw [stage]; rfl) rfl (by rw [item]) rfl rfl
  · rw [queue]
    simp only [Ghost.setLock, update_self, LastOk, List.length_append, List.length_singleton]
    by_cases all : (s.event e).item + 1 = (s.queue q).items.length
    · refine .inl ⟨last.trans ((L.line q).lastOf_eq hm all), by omega⟩
    · refine .inr ⟨by simp at lt; omega, last.trans ?_⟩
      simp only [Queue.lastOf, Queue.events, List.length_append, List.length_singleton]
      rw [if_pos (by simp at lt; omega), if_pos (by simp at lt; omega)]
  · rw [queue]
    simp
  · intro t m h
    by_cases eq : t = e
    · subst eq
      rw [hm] at h
      cases h
      right
      rw [queue]
      simp [first]
    · rw [members_update home' events lives, update_of_ne eq]
      exact .inl ⟨m, h, rfl⟩

lemma Lines.clear (P : Places s G) (hpc : s.pc a = .clearing e q) :
    Lines ((s.clear e q).setPc a (.dequeued e)) ((G.setStage e (.finishing a)).setLock q .free) := by
  obtain ⟨stage, home, lock⟩ := P.here hpc
  have last : LastOk (s.queue q) (.removing a e) := lock ▸ L.last q
  have off : ¬(G.life e).stage.Member := by
    rw [stage]
    exact id
  have same : ∀ q', members ((s.clear e q).setPc a (.dequeued e))
      ((G.setStage e (.finishing a)).setLock q .free) q' = members s G q' := by
    intro q'
    funext t
    by_cases eq : t = e
    · subst eq
      rw [members_none off, members_none (by simp [Ghost.setLock, Stage.Member])]
    · simp [members, Ghost.setLock, State.clear, eq]
  have queue : ((s.clear e q).setPc a (.dequeued e)).queue q = { s.queue q with
      lastEvent := if (s.queue q).lastEvent = some e then none else (s.queue q).lastEvent
      locked := false } := by
    simp [State.clear]
  refine L.one (q := q) ?_ ?_ ?_ ?_ ?_ (not_waiting rfl (by rintro _ _ _ ⟨⟩))
  · intro q' ne
    exact ⟨by simp [State.clear, ne], update_of_ne ne .., same q'⟩
  · rw [same, queue]
    exact (L.line q).congr rfl rfl rfl rfl
  · rw [queue]
    simp only [Ghost.setLock, update_self, LastOk, Queue.lastOf, Queue.events]
    rcases last with ⟨is, all⟩ | ⟨lt, is⟩
    · rw [if_pos is, if_neg (by omega)]
    · rw [if_neg, is]
      · rfl
      · intro h
        obtain ⟨m, hm, -⟩ := (L.line q).of_lastOf le_rfl (is ▸ h)
        exact off (of_members hm).1
  · rw [queue]
  · intro t m h
    rw [same]
    exact .inl ⟨m, h, rfl⟩

lemma Lines.link {M : Life} (hG : G' = G.set e M) (stage : M.stage.Member ↔ (G.life e).stage.Member)
    (progress : M.stage.progress = (G.life e).stage.progress)
    (sources : ∀ p, (G.life p).stage.Member → p ∈ (G.life e).preds ++ (G.life e).link.rest →
      p ∈ M.preds ++ M.link.rest)
    (queue : ∀ q, (s.queue q).Same (s'.queue q))
    (static : ∀ t, (s'.event t).q = (s.event t).q ∧ (s'.event t).item = (s.event t).item)
    (waits : ∀ a q task before, s'.pc a = .waiting q task before → s.pc a = .waiting q task before) :
      Lines s' G' := by
  subst hG
  refine L.shift queue (fun _ => rfl) (fun t => ?_) (fun t _ => static t) (fun t p _ hp h => ?_)
    fun a q task before h => .inl (waits a q task before h)
  · by_cases eq : t = e
    · subst eq
      simpa [Ghost.set] using ⟨stage, progress⟩
    · simp [Ghost.set, eq]
  · by_cases eq : t = e
    · subst eq
      simpa [Ghost.set] using sources p hp h
    · simpa [Ghost.set, eq] using h

lemma Lines.release (P : Places s G) (E : Edges s G) (hpc : s.pc a = .finishing e) :
    Lines (s.finished a e)
      (G.release a e) := by
  have stage : (G.life e).stage = .finishing a := P.here hpc
  refine L.shift (fun _ => .refl) (fun _ => rfl) (fun t => ?_)
    (fun t _ => ⟨update_field Event.q rfl, update_field Event.item rfl⟩) (fun t p ht hp h => ?_)
    fun b q task before h => .inl (not_waiting rfl (by nofun) b q task before h)
  · by_cases eq : t = e
    · subst eq
      simp [stage, Stage.Member, Stage.progress]
    · obtain same | ⟨old, new | new⟩ := E.release_stage (a := a) eq
      · rw [same]
        exact ⟨Iff.rfl, rfl⟩
      · simp [old, new, Stage.Member, Stage.progress]
      · simp [old, new, Stage.Member, Stage.progress]
  · have ne : p ≠ e := by
      rintro rfl
      rw [stage] at hp
      exact hp
    simpa [ne] using h

end

/-- No move breaks the order. -/
theorem Lines.move (L : Lines s G) (P : Places s G) (E : Edges s G) (m : Move s G s' G') : Lines s' G' := by
  have static : ∀ {e : Nat} {F : Event}, F.q = (s.event e).q → F.item = (s.event e).item →
      ∀ t, (update s.event e F t).q = (s.event t).q ∧ (update s.event e F t).item = (s.event t).item :=
    fun q i t => ⟨update_field Event.q q, update_field Event.item i⟩
  cases m with
  | queue q requests inPlace =>
    exact L.still (fun q' => Queue.Same.update (by exact .refl) q') (fun _ _ => ⟨rfl, rfl⟩)
      fun _ _ _ _ => .inl
  | users => exact L.still (fun _ => .refl) (fun t _ => static (by rfl) (by rfl) t) fun _ _ _ _ => .inl
  | create =>
    have blank := (P.fresh s.created le_rfl).2
    exact L.still (fun _ => .refl) (fun t _ => static (by rw [blank]; rfl) (by rw [blank]; rfl) t)
      fun _ _ _ _ => .inl
  | destroy e =>
    have same := Event.deref_static { s.event e with owner := .none }
    exact L.still (fun _ => .refl) (fun t _ => static same.1.1 same.1.2.1 t) fun _ _ _ _ => .inl
  | turn calm calm' uses =>
    refine L.still (fun _ => .refl) (fun _ _ => ⟨rfl, rfl⟩) fun b q task before h =>
      .inl (not_waiting rfl (fun _ _ _ eq => ?_) b q task before h)
    rw [eq] at calm'
    exact calm'
  | @arm a e q kind wait calm rest =>
    obtain ⟨author, out⟩ := (P.live e).1 rest
    refine L.shift (fun _ => .refl) (fun _ => rfl) (fun t => ?_) (fun t ht => ?_) (fun t p ht _ h => ?_)
      fun b q task before h => .inl (not_waiting rfl (by rintro _ _ _ ⟨⟩) b q task before h)
    · by_cases eq : t = e
      · subst eq
        simp [Ghost.set]
      · simp [Ghost.set, eq]
    all_goals
      have ne : t ≠ e := by
        rintro rfl
        rw [out] at ht
        exact ht
    · simp [State.eventInit, ne]
    · simpa [Ghost.set, ne] using h
  | enter hpc unlocked => exact L.enter P E hpc unlocked
  | @skip a e q p n ps hpc fin =>
    have here := P.here hpc
    refine L.link rfl Iff.rfl rfl (fun x hx h => ?_) (fun _ => .refl) (static rfl rfl)
      (not_waiting rfl (by simp))
    rw [here.link] at h
    have ne : x ≠ p := by
      rintro rfl
      rcases (P.done x fin).2 with out | ⟨b, at'⟩
      · rw [out] at hx
        exact hx
      · rw [at'] at hx
        exact hx
    simpa [ne] using h
  | @insert a e q p n ps hpc unfinished =>
    have here := P.here hpc
    refine L.link rfl Iff.rfl rfl (fun x hx h => ?_) (fun _ => .refl) (fun _ => ⟨rfl, rfl⟩)
      (not_waiting rfl (by simp))
    rw [here.link] at h
    simp only [List.mem_append, List.mem_cons] at h ⊢
    tauto
  | @count a e q p n ps hpc =>
    have here := P.here hpc
    refine L.link rfl Iff.rfl rfl (fun x hx h => ?_) (fun _ => .refl) (static rfl rfl)
      (not_waiting rfl (by simp))
    rwa [here.link] at h
  | @schedule a e q hpc =>
    have here := P.here hpc
    have pending := (E.begun e (by rw [here.link])).2.2 (by rw [here.link])
    rw [State.schedAddTb_eq here.home]
    refine L.link rfl (by rw [pending]; exact Iff.rfl) (by rw [pending]; rfl) (fun x hx h => ?_)
      (fun q' => Queue.Same.update (by exact .refl) q') (fun _ => ⟨rfl, rfl⟩) (not_waiting rfl (by simp))
    rwa [here.link] at h
  | @submitted a e q n hpc =>
    have here := P.here hpc
    refine L.link rfl Iff.rfl rfl (fun x hx h => ?_) (fun _ => .refl) (fun _ => ⟨rfl, rfl⟩)
      (not_waiting rfl (by simp))
    rwa [here.link] at h
  | leave hpc => exact L.leave P hpc
  | @wait a q e hpc unlocked some last =>
    refine L.still (fun _ => .refl) (fun t _ => static (by rfl) (by rfl) t) fun b q' task before h => ?_
    by_cases eq : b = a
    · subst eq
      simp only [State.setPc, update_self] at h
      cases h
      have ok : LastOk (s.queue q) .free := (P.locked q).1 unlocked ▸ L.last q
      obtain ⟨m, hm, item⟩ := (L.line q).of_lastOf le_rfl (ok.symm.trans last)
      exact .inr (.inr ⟨e, m, rfl, hm, item⟩)
    · simp only [State.setPc, update_of_ne eq] at h
      exact .inl h
  | @pass a q hpc unlocked none =>
    refine L.still (fun _ => .refl) (fun _ _ => ⟨rfl, rfl⟩) fun b q' task before h => ?_
    by_cases eq : b = a
    · subst eq
      simp only [State.setPc, update_self] at h
      cases h
      refine .inr (.inl ?_)
      rcases none with zero | none
      · have count := (L.line q).count
        omega
      · have ok : LastOk (s.queue q) .free := (P.locked q).1 unlocked ▸ L.last q
        exact (L.line q).of_lastOf_none le_rfl (ok.symm.trans none)
    · simp only [State.setPc, update_of_ne eq] at h
      exact .inl h
  | waited | finish | finished =>
    exact L.still (fun _ => .refl) (fun t _ => static (by rfl) (by rfl) t)
      fun b q task before h => .inl (not_waiting rfl (by rintro _ _ _ ⟨⟩) b q task before h)
  | passed =>
    exact L.still (fun _ => .refl) (fun _ _ => ⟨rfl, rfl⟩)
      fun b q task before h => .inl (not_waiting rfl (by rintro _ _ _ ⟨⟩) b q task before h)
  | run hpc home mem => exact L.run P E home mem
  | stop hpc => exact L.stop P E hpc
  | dequeue hpc home free => exact L.dequeue P E hpc home free
  | @deref a e q hpc =>
    have here := P.here hpc
    have same := Event.deref_static (s.event e)
    exact L.link rfl (by rw [here.1]; exact Iff.rfl) (by rw [here.1]; rfl) (fun _ _ => id) (fun _ => .refl)
      (static same.1.1 same.1.2.1) (not_waiting rfl (by simp))
  | clear hpc => exact L.clear P hpc
  | release hpc ok => exact L.release P E hpc
  | @add a e t ts hpc =>
    obtain ⟨q, stage, -, sched⟩ := P.scheduled hpc
    rw [sched]
    exact L.link rfl (by rw [stage]; exact Iff.rfl) (by rw [stage]; rfl) (fun _ _ => id)
      (fun q' => Queue.Same.update (by exact .refl) q') (fun _ => ⟨rfl, rfl⟩) (not_waiting rfl (by simp))

end Lines
end Kupl.Events
