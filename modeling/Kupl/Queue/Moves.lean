import Kupl.Queue.Places

/-!
# Every move keeps the places

One lemma for each move, or for several that differ in the places they lead to: an agent that goes on with an
enqueue (`Places.adds`), an executor that goes on with a task (`Places.exec`), and the moves that set an
event up, take the lock of its queue and release the successors of its task.
-/

namespace Kupl.Events
open Dag
open Function (update update_of_ne update_self)

lemma Ghost.setLock_self {G : Ghost} {e q : Nat} {L : Life} : (G.set e L).setLock q (G.lock q) = G.set e L := by
  simp [Ghost.setLock, Ghost.set]

section Moves
variable {s s' : State} {G G' : Ghost} {a b e q : Nat} {pc : Pc} {L : Life} {l : Hold} {st : Stage}
  {link : Link}

lemma Places.adds (P : Places s G) (add : Adds s G a e q link) (hpc : s'.pc = update s.pc a pc) (hG : G' = G.set e L)
    (author : L.author = some a) (stage : L.stage = (G.life e).stage ∨ (G.life e).stage = .pending ∧
      L.stage = .ready)
    (locks : pc.Locks q (.adding a e)) (auth : pc.Authors e) (here : Adds s' G' a e q L.link → At s' G' a pc)
    (uses : Uses s a (s.pc a) → Uses s a pc) (like : ∀ t, (s'.event t).Like (s.event t))
    (same : ∀ t, (s'.event t).owner = (s.event t).owner ∧ (s'.event t).users = (s.event t).users)
    (locked : ∀ q', (s'.queue q').locked = (s.queue q').locked)
    (ready : s'.ready = if L.stage = (G.life e).stage then s.ready else e :: s.ready) (fresh : s'.created = s.created)
    (old : ∀ t, t ≠ e → s'.event t = s.event t) : Places s' G' := by
  have sort : (s.pc a).Authors e := P.author e a add.author
  have bound : ∀ t, s.created ≤ t → t ≠ e := by
    rintro t le rfl
    have blank := congrArg Life.author (P.fresh t le).1
    rw [add.author] at blank
    cases blank
  have member : L.stage.Member := by
    rcases stage with same | ⟨-, new⟩
    · rw [same]
      exact add.member
    · rw [new]
      trivial
  have notOut : (G.life e).stage ≠ .out := by
    intro out
    have mem := add.member
    rw [out] at mem
    exact mem
  refine P.one (l := .adding a e) (q := q) hpc (by rw [hG, ← add.lock, Ghost.setLock_self]) ?_ ?_ ?_ ?_ ?_ ?_ ?_
    ?_ ?_ ?_ ?_ ?_ ?_ ?_ ?_ ?_ ?_ ?_ ?_ ?_ ?_ ?_ ?_ ?_
  · intro b h
    rw [add.author] at h
    exact .inl (Option.some.inj h).symm
  · intro b h
    rcases stage with same | ⟨pending, -⟩
    · exact .inr same
    · rw [pending] at h
      cases h
  · exact fun b _ => .inr add.lock.symm
  · intro b h
    rw [author] at h
    exact .inl ⟨(Option.some.inj h).symm, auth⟩
  · intro b h
    rcases stage with same | ⟨-, new⟩
    · rw [same] at h
      refine ⟨?_, h⟩
      rintro rfl
      obtain ⟨e', ts, at', -⟩ := P.handed e b h
      rw [at'] at sort
      exact sort
    · rw [new] at h
      cases h
  · intro b h
    exact .inl ⟨(Option.some.inj h).symm, locks⟩
  · intro t ne h
    have other := P.author t a h
    generalize s.pc a = old at sort other
    cases old <;> first | exact ne (other.symm.trans sort) | exact sort
  · intro t _ h
    obtain ⟨e', ts, at', -⟩ := P.handed t a h
    rw [at'] at sort
    exact sort.elim
  · intro q' ne h
    have mine := P.locks q a (by rw [add.lock]; rfl)
    rw [add.lock] at mine
    have other := P.locks q' a h
    generalize s.pc a = old at mine other
    generalize G.lock q' = l at other
    cases l <;> cases old <;>
      first | exact other | exact mine | exact ne (other.2.symm.trans mine.2)
  · apply here
    refine ⟨?_, ?_, ?_, ?_, ?_⟩
    · simp [hG, Ghost.set, author]
    · simp [hG, Ghost.set]
    · simpa [hG, Ghost.set] using member
    · rw [(like e).q]
      exact add.home
    · rw [hG]
      exact add.lock
  · apply P.usesTurn hpc same (fun t => (like t).kind)
    exact (uses (P.uses a)).kept (fun t _ => same t) fun t _ => (like t).kind
  · exact fun t _ => like t
  · exact fun _ => (like e).q
  · exact fun _ => (like e).item
  · intro _
    rw [(like e).q]
    exact ⟨q, add.home⟩
  · rw [(like e).live, P.live e, author, add.author]
    simp
  · intro h
    rw [(like e).finished] at h
    have none := (P.done e h).1
    rw [add.author] at none
    cases none
  · rw [(like e).kind, (like e).wait]
    exact P.waits e
  · exact fun q' _ => locked q'
  · rw [locked, P.locked q, add.lock]
  · intro t ne
    rw [ready]
    split
    · rfl
    · simp [ne]
  · rw [ready]
    rcases stage with same | ⟨pending, new⟩
    · rw [if_pos same, same]
      exact P.ready e
    · rw [if_neg (by rw [pending, new]; rintro ⟨⟩)]
      simp [new]
  · rw [ready]
    rcases stage with same | ⟨pending, new⟩
    · rw [if_pos same]
      exact P.nodup
    · rw [if_neg (by rw [pending, new]; rintro ⟨⟩)]
      refine List.nodup_cons.2 ⟨fun mem => ?_, P.nodup⟩
      rw [P.ready e, pending] at mem
      cases mem
  · intro t le
    rw [fresh] at le
    exact ⟨le, bound t le, old t (bound t le)⟩

/-- The executor has the task of the event, or takes it. -/
def Stage.Had (g : Stage) (a : Nat) : Prop :=
  match g with
  | .ready => True
  | .handed b | .item b | .flagged b | .dequeuing b | .clearing b => b = a
  | _ => False

lemma Places.exec (P : Places s G) (had : (G.life e).stage.Had a) (hpc : s'.pc = update s.pc a pc)
    (hG : G' = (G.setStage e st).setLock q l) (sort : ∀ t, ¬(s.pc a).Authors t)
    (member : st.Member ∨ (G.life e).author = none) (notOut : st ≠ .out) (notHanded : ∀ b, st ≠ .handed b)
    (lock : ∀ b, (G.lock q).agent = some b → b = a ∨ l = G.lock q)
    (newLock : ∀ b, l.agent = some b → b = a ∧ pc.Locks q l ∨ b ≠ a ∧ l = G.lock q)
    (noHanded : ∀ t, t ≠ e → (G.life t).stage = .handed a → ∃ e ts, pc = .scheduling e ts ∧ t ∈ ts)
    (noLock : ∀ q', q' ≠ q → (G.lock q').agent ≠ some a) (here : At s' G' a pc) (uses : Uses s' a pc)
    (like : ∀ t, (s'.event t).Like (s.event t))
    (same : ∀ t, (s'.event t).owner = (s.event t).owner ∧ (s'.event t).users = (s.event t).users)
    (locked : ∀ q', q' ≠ q → (s'.queue q').locked = (s.queue q').locked)
    (held : (s'.queue q).locked = false ↔ l = .free) (ready : ∀ t, t ≠ e → (t ∈ s'.ready ↔ t ∈ s.ready))
    (taken : e ∈ s'.ready ↔ st = .ready) (nodup : s'.ready.Nodup) (fresh : s'.created = s.created)
    (old : ∀ t, t ≠ e → s'.event t = s.event t) : Places s' G' := by
  have out : (G.life e).stage ≠ .out := by
    intro h
    rw [h] at had
    exact had
  have bound : ∀ t, s.created ≤ t → t ≠ e := by
    rintro t le rfl
    exact out (congrArg Life.stage (P.fresh t le).1)
  refine P.one (l := l) (q := q) (L := { G.life e with stage := st }) hpc hG ?_ ?_ lock ?_ ?_ newLock ?_ noHanded
    noLock here ?_ ?_ ?_ ?_ ?_ ?_ ?_ ?_ locked held ready taken nodup ?_
  · intro b h
    refine .inr ⟨h, rfl, fun h => absurd h out, fun _ => ?_⟩
    rcases member with mem | none
    · exact mem
    · rw [none] at h
      cases h
  · intro b h
    generalize (G.life e).stage = g at had h
    cases g <;> cases h <;> first | exact .inl had | exact had.elim
  · intro b h
    refine .inr ⟨?_, h⟩
    rintro rfl
    exact sort e (P.author e b h)
  · exact fun b h => absurd h (notHanded b)
  · exact fun t _ h => sort t (P.author t a h)
  · exact P.usesTurn hpc same (fun t => (like t).kind) uses
  · exact fun t _ => like t
  · exact fun _ => (like e).q
  · exact fun _ => (like e).item
  · intro _
    rw [(like e).q]
    exact P.home e out
  · rw [(like e).live, P.live e]
    simp [out, notOut]
  · intro h
    rw [(like e).finished] at h
    rcases (P.done e h).2 with h | ⟨b, fin⟩
    · exact absurd h out
    · rw [fin] at had
      exact had.elim
  · rw [(like e).kind, (like e).wait]
    exact P.waits e
  · intro t le
    rw [fresh] at le
    exact ⟨le, bound t le, old t (bound t le)⟩

end Moves

section Each
variable {s : State} {G : Ghost} {a e p q k n : Nat} {ps ts : List Nat}

lemma Ghost.setStage_setLock {st : Stage} : G.setStage e st = (G.setStage e st).setLock q (G.lock q) :=
  Ghost.setLock_self.symm

variable {E : Event}

lemma update_field {β : Type*} {t : Nat} (f : Event → β) (h : f E = f (s.event e)) :
    f (update s.event e E t) = f (s.event t) := by
  by_cases eq : t = e
  · subst eq
    rw [update_self, h]
  · rw [update_of_ne eq]

lemma update_like (h : E.Like (s.event e)) (t : Nat) : (update s.event e E t).Like (s.event t) :=
  ⟨update_field Event.q h.q, update_field Event.item h.item, update_field Event.live h.live,
    update_field Event.finished h.finished, update_field Event.kind h.kind, update_field Event.wait h.wait⟩

lemma update_users (h : E.owner = (s.event e).owner ∧ E.users = (s.event e).users) (t : Nat) :
    (update s.event e E t).owner = (s.event t).owner ∧ (update s.event e E t).users = (s.event t).users :=
  ⟨update_field Event.owner h.1, update_field Event.users h.2⟩

section
variable (P : Places s G)
include P

lemma Places.run (hpc : s.pc a = .idle) (home : (s.event e).q = some q) (mem : e ∈ s.ready) :
    Places (({ s with ready := s.ready.erase e }.note q (.start (s.event e).item)).setPc a
      (.item e q (s.event e).item)) (G.setStage e (.item a)) := by
  have stage := (P.ready e).1 mem
  have bare : (s.pc a).Bare := by rw [hpc]; trivial
  refine P.exec (q := q) (by rw [stage]; trivial) rfl Ghost.setStage_setLock (by rw [hpc]; exact fun _ => id)
    (.inl trivial) nofun nofun (fun _ _ => .inr rfl)
    (fun b h => .inr ⟨P.bare_lock bare h, rfl⟩) (fun t _ h => absurd rfl (P.bare_handed bare h))
    (fun q' _ h => P.bare_lock bare h rfl) ⟨by simp [Ghost.setStage, Ghost.set], home, rfl⟩ trivial
    (fun _ => .refl) (fun _ => ⟨rfl, rfl⟩) ?_ ?_ ?_ ?_ (P.nodup.erase e) rfl
    fun t _ => rfl
  · intro q' ne
    simp [State.note, ne]
  · simpa [State.note] using P.locked q
  · intro t ne
    exact List.mem_erase_of_ne ne
  · simp [State.note, P.nodup.not_mem_erase]

lemma Places.stop (hpc : s.pc a = .item e q k) :
    Places ((s.stop e q k).setPc a (.flagged e k)) (G.setStage e (.flagged a)) := by
  have bare : (s.pc a).Bare := by rw [hpc]; trivial
  obtain ⟨stage, home, item⟩ := P.here hpc
  refine P.exec (q := q) (by rw [stage]; exact rfl) rfl Ghost.setStage_setLock (by rw [hpc]; exact fun _ => id)
    (.inl trivial) nofun nofun (fun _ _ => .inr rfl)
    (fun b h => .inr ⟨P.bare_lock bare h, rfl⟩) (fun t _ h => absurd rfl (P.bare_handed bare h))
    (fun q' _ h => P.bare_lock bare h rfl) ⟨by simp [Ghost.setStage, Ghost.set], by simpa [State.stop] using item⟩
    trivial (update_like ⟨rfl, rfl, rfl, rfl, rfl, rfl⟩) (update_users ⟨rfl, rfl⟩) ?_ ?_ (fun t _ => Iff.rfl) ?_
      P.nodup rfl ?_
  · intro q' ne
    simp [State.stop, ne]
  · simpa [State.stop] using P.locked q
  · simp [State.stop, P.ready e, stage]
  · intro t ne
    simp [State.stop, ne]

lemma Places.dequeue (hpc : s.pc a = .flagged e k) (home : (s.event e).q = some q) (free : (s.queue q).locked = false) :
    Places ((s.dequeue e q k).setPc a (.dequeuing e q))
      ((G.setStage e (.dequeuing a)).setLock q (.removing a e)) := by
  have bare : (s.pc a).Bare := by rw [hpc]; trivial
  obtain ⟨stage, item⟩ := P.here hpc
  have unlocked := (P.locked q).1 free
  have author := P.author_free (by rw [stage]; trivial) home unlocked
  refine P.exec (by rw [stage]; exact rfl) rfl rfl (by rw [hpc]; exact fun _ => id)
    (.inr author) nofun nofun ?_ ?_ (fun t _ h => absurd rfl (P.bare_handed bare h))
    (fun q' _ h => P.bare_lock bare h rfl) ⟨by simp [Ghost.setStage, Ghost.set, Ghost.setLock], ?_, ?_⟩
    trivial (update_like ⟨rfl, rfl, rfl, rfl, rfl, rfl⟩) (update_users ⟨rfl, rfl⟩) ?_ ?_ (fun t _ => Iff.rfl) ?_
      P.nodup rfl ?_
  · intro b h
    rw [unlocked] at h
    cases h
  · intro b h
    exact .inl ⟨(Option.some.inj h).symm, rfl, rfl⟩
  · simpa [State.dequeue] using home
  · simp [Ghost.setLock]
  · intro q' ne
    simp [State.dequeue, ne]
  · simp [State.dequeue]
  · simp [State.dequeue, P.ready e, stage]
  · intro t ne
    simp [State.dequeue, ne]

omit P in
lemma Event.deref_static (E : Event) : (E.deref.q = E.q ∧ E.deref.item = E.item ∧ E.deref.live = E.live ∧
    E.deref.finished = E.finished) ∧ E.deref.kind = E.kind ∧ E.deref.wait = E.wait ∧
    E.deref.owner = E.owner ∧ E.deref.users = E.users := by
  unfold Event.deref
  split <;> exact ⟨⟨rfl, rfl, rfl, rfl⟩, rfl, rfl, rfl, rfl⟩

omit P in
lemma Event.deref_like (E : Event) : E.deref.Like E := by
  obtain ⟨⟨q, item, live, finished⟩, kind, wait, -⟩ := E.deref_static
  exact ⟨q, item, live, finished, kind, wait⟩

lemma Places.onlyLock (lock : G.lock q = .removing a e) {q' : Nat} (ne : q' ≠ q) : (G.lock q').agent ≠ some a := by
  intro h
  have mine := P.locks q a (by rw [lock]; rfl)
  rw [lock] at mine
  have other := P.locks q' a h
  generalize s.pc a = old at mine other
  generalize G.lock q' = l at other
  cases l <;> cases old <;>
    first | exact other | exact mine | exact ne (other.2.symm.trans mine.2)

lemma Places.deref (hpc : s.pc a = .dequeuing e q) :
    Places ((s.setEvent e (s.event e).deref).setPc a (.clearing e q)) (G.setStage e (.clearing a)) := by
  obtain ⟨stage, home, lock⟩ := P.here hpc
  have static := Event.deref_static (s.event e)
  refine P.exec (q := q) (l := .removing a e) (by rw [stage]; exact rfl) rfl
    (by rw [← lock]; exact Ghost.setStage_setLock) (by rw [hpc]; exact fun _ => id)
    (.inr (P.author_none (by rw [stage]; nofun) (by rw [stage]; exact id))) (by nofun) (by nofun)
    (fun _ _ => .inr lock.symm) ?_ ?_ (fun q' ne => P.onlyLock lock ne)
    ⟨by simp [Ghost.setStage, Ghost.set], ?_, ?_⟩ trivial
    (update_like (s.event e).deref_like) (update_users static.2.2.2)
    (fun _ _ => rfl) ?_ (fun t _ => Iff.rfl) ?_ P.nodup rfl ?_
  · intro b h
    exact .inl ⟨(Option.some.inj h).symm, rfl, rfl⟩
  · intro t _ h
    obtain ⟨e', ts, at', -⟩ := P.handed t a h
    rw [hpc] at at'
    cases at'
  · simpa [static.1.1] using home
  · exact lock
  · rw [← lock]
    exact P.locked q
  · simp [P.ready e, stage]
  · intro t ne
    simp [ne]

lemma Places.clear (hpc : s.pc a = .clearing e q) :
    Places ((s.clear e q).setPc a (.dequeued e)) ((G.setStage e (.finishing a)).setLock q .free) := by
  obtain ⟨stage, home, lock⟩ := P.here hpc
  refine P.exec (by rw [stage]; exact rfl) rfl rfl (by rw [hpc]; exact fun _ => id)
    (.inr (P.author_none (by rw [stage]; nofun) (by rw [stage]; exact id))) nofun nofun
    ?_ nofun ?_ (fun q' ne => P.onlyLock lock ne) ?_ trivial
    (fun _ => .refl) (fun _ => ⟨rfl, rfl⟩) ?_ ?_ (fun t _ => Iff.rfl) ?_ P.nodup rfl
    fun _ _ => rfl
  · intro b h
    rw [lock] at h
    exact .inl (Option.some.inj h).symm
  · intro t _ h
    obtain ⟨e', ts, at', -⟩ := P.handed t a h
    rw [hpc] at at'
    cases at'
  · simp [At, Ghost.setStage, Ghost.set, Ghost.setLock]
  · intro q' ne
    simp [State.clear, ne]
  · simp [State.clear]
  · simp [State.clear, P.ready e, stage]

omit P in
lemma State.schedAddTb_eq (home : (s.event e).q = some q) : s.schedAddTb e = { s with ready := e :: s.ready }.setQueue q
      { s.queue q with added := (s.queue q).added ++ [(s.event e).item] } := by
  simp [State.schedAddTb, home]

/-- An event that an executor hands over. -/
lemma Places.scheduled {t : Nat} (hpc : s.pc a = .scheduling e (t :: ts)) :
    ∃ q, (G.life t).stage = .handed a ∧ (s.event t).q = some q ∧
      s.schedAddTb t = { s with ready := t :: s.ready }.setQueue q
      { s.queue q with added := (s.queue q).added ++ [(s.event t).item] } := by
  have stage := (P.here hpc).2 t (by simp)
  obtain ⟨q, home⟩ := P.home t (by rw [stage]; nofun)
  exact ⟨q, stage, home, State.schedAddTb_eq home⟩

lemma Places.add {t : Nat} (hpc : s.pc a = .scheduling e (t :: ts)) :
    Places ((s.schedAddTb t).setPc a (.scheduling e ts)) (G.setStage t .ready) := by
  obtain ⟨nodup, handed⟩ := P.here hpc
  have stage := handed t (by simp)
  obtain ⟨out, nodup⟩ := List.nodup_cons.1 nodup
  obtain ⟨q, home⟩ := P.home t (by rw [stage]; nofun)
  have noLock : ∀ q', (G.lock q').agent ≠ some a := by
    intro q' h
    have locks := P.locks q' a h
    rw [hpc] at locks
    generalize G.lock q' = l at locks
    cases l <;> exact locks
  rw [State.schedAddTb_eq home]
  refine P.exec (q := q) (by rw [stage]; exact rfl) rfl Ghost.setStage_setLock (by rw [hpc]; exact fun _ => id)
    (.inl trivial) nofun nofun (fun _ _ => .inr rfl) ?_ ?_ (fun q' _ => noLock q') ⟨nodup, ?_⟩ trivial
    (fun _ => .refl) (fun _ => ⟨rfl, rfl⟩) ?_ ?_ ?_ ?_ ?_ rfl fun _ _ => rfl
  · intro b h
    refine .inr ⟨?_, rfl⟩
    rintro rfl
    exact noLock q h
  · intro u ne h
    obtain ⟨e', ts', at', mem⟩ := P.handed u a h
    rw [hpc] at at'
    cases at'
    exact ⟨e, ts, rfl, (List.mem_cons.1 mem).resolve_left ne⟩
  · intro u mem
    have ne : u ≠ t := by
      rintro rfl
      exact out mem
    simpa [Ghost.setStage, Ghost.set, ne] using handed u (by simp [mem])
  · intro q' ne
    simp [ne]
  · simpa using P.locked q
  · intro u ne
    simp [ne]
  · simp
  · refine List.nodup_cons.2 ⟨fun mem => ?_, P.nodup⟩
    rw [P.ready t, stage] at mem
    cases mem

lemma Places.skip (hpc : s.pc a = .submitting e q (p :: ps) n) :
    Places ((s.setLinking e ps).setPc a (.submitting e q ps n)) (G.setLink e ⟨ps, 0, n, true⟩) := by
  have here := P.here hpc
  refine P.adds here rfl rfl here.author (.inl rfl) ⟨rfl, rfl⟩ rfl id (by rw [hpc]; exact id)
    (update_like ⟨rfl, rfl, rfl, rfl, rfl, rfl⟩) (update_users ⟨rfl, rfl⟩) (fun _ => rfl)
    (by simp [State.setLinking]) rfl ?_
  intro t ne
  simp [State.setLinking, ne]

lemma Places.insert (hpc : s.pc a = .submitting e q (p :: ps) n) :
    Places ({ s with gnode := gnodeInsert s.gnode p e }.setPc a (.counting e q p ps n))
      (G.set e { G.life e with preds := p :: (G.life e).preds, link := ⟨ps, 1, n + 1, true⟩ }) := by
  have here := P.here hpc
  exact P.adds here rfl rfl here.author (.inl rfl) ⟨rfl, rfl⟩ rfl id (by rw [hpc]; exact id)
    (fun _ => .refl) (fun _ => ⟨rfl, rfl⟩) (fun _ => rfl) (by simp) rfl fun _ _ => rfl

lemma Places.count (hpc : s.pc a = .counting e q p ps n) :
    Places (({ s with gnode := gnodeCount s.gnode e }.setLinking e ps).setPc a (.submitting e q ps (n + 1)))
      (G.setLink e ⟨ps, 0, n + 1, true⟩) := by
  have here := P.here hpc
  refine P.adds here rfl rfl here.author (.inl rfl) ⟨rfl, rfl⟩ rfl id (by rw [hpc]; exact id)
    (update_like ⟨rfl, rfl, rfl, rfl, rfl, rfl⟩) (update_users ⟨rfl, rfl⟩) (fun _ => rfl)
    (by simp [State.setLinking]) rfl ?_
  intro t ne
  simp [State.setLinking, ne]

lemma Places.schedule (E : Edges s G) (hpc : s.pc a = .submitting e q [] 0) :
    Places ((s.schedAddTb e).setPc a (.leaving e q))
      (G.set e { G.life e with stage := .ready, link := ⟨[], 0, 0, false⟩ }) := by
  have here := P.here hpc
  have pending := (E.begun e (by rw [here.link])).2.2 (by rw [here.link])
  rw [State.schedAddTb_eq here.home]
  refine P.adds here rfl rfl here.author (.inr ⟨pending, rfl⟩) ⟨rfl, rfl⟩ rfl (fun h => ⟨0, h⟩)
    (by rw [hpc]; exact id) (fun _ => .refl) (fun _ => ⟨rfl, rfl⟩) ?_ ?_ rfl
    fun _ _ => rfl
  · intro q'
    by_cases eq : q' = q
    · subst eq
      simp
    · simp [eq]
  · simp [pending]

lemma Places.submitted (hpc : s.pc a = .submitting e q [] (n + 1)) :
    Places (s.setPc a (.leaving e q)) (G.setLink e ⟨[], 0, n + 1, false⟩) := by
  have here := P.here hpc
  exact P.adds here rfl rfl here.author (.inl rfl) ⟨rfl, rfl⟩ rfl (fun h => ⟨n + 1, h⟩)
    (by rw [hpc]; exact id) (fun _ => .refl) (fun _ => ⟨rfl, rfl⟩) (fun _ => rfl)
    (by simp) rfl fun _ _ => rfl

lemma Places.arm {kind : Kind} {wait : Option Nat} (calm : (s.pc a).Calm) (rest : (s.event e).live = false)
    (owner : (s.event e).owner = .call a ∨ (s.event e).owner = .user ∧ a ∈ (s.event e).users)
    (own : kind ≠ .record → (s.event e).owner = .call a) (waits : kind = .wait → ∃ w, wait = some w)
    (lt : e < s.created) :
    Places ((s.eventInit e kind wait q).setPc a (.armed e q))
      (G.arm a e) := by
  obtain ⟨author, out⟩ := (P.live e).1 rest
  have bare := calm.bare
  refine P.one (e := e) (q := q) (l := G.lock q) rfl Ghost.setLock_self.symm ?_ ?_ (fun _ _ => .inr rfl) ?_ ?_ ?_ ?_
    ?_ (fun q' _ h => P.bare_lock bare h rfl) ?_ ?_ ?_ ?_ ?_ ?_ ?_ ?_ ?_ (fun _ _ => rfl) ?_ (fun _ _ => Iff.rfl)
    ?_ P.nodup ?_
  · intro b h
    rw [author] at h
    cases h
  · intro b h
    rw [out] at h
    cases h
  · intro b h
    exact .inl ⟨(Option.some.inj h).symm, rfl⟩
  · intro b h
    rw [show (G.life e).stage = .handed b from h] at out
    cases out
  · exact fun b h => .inr ⟨P.bare_lock bare h, rfl⟩
  · exact fun t _ h => P.bare_author bare h rfl
  · exact fun t _ h => absurd rfl (P.bare_handed bare h)
  · simp [At, Ghost.set, out, State.eventInit, Event.init]
  · intro b
    by_cases eq : b = a
    · subst eq
      simpa [Uses, State.eventInit, Event.init] using ⟨owner, own⟩
    · simp only [State.setPc, update_of_ne eq]
      apply (P.uses b).kept
      · exact fun t _ => ⟨update_field Event.owner rfl, update_field Event.users rfl⟩
      · intro t auth
        have ne : t ≠ e := by
          rintro rfl
          have place := P.place b
          generalize s.pc b = pc at auth place
          have off : (G.life t).author ≠ some b := by
            rw [author]
            rintro ⟨⟩
          cases pc with
          | armed e' q => exact off (by cases auth; exact place.1)
          | submitting e' q rest n | counting e' q p rest n => exact off (by cases auth; exact place.author)
          | leaving e' q =>
            obtain ⟨n, place⟩ := place
            exact off (by cases auth; exact place.author)
          | _ => exact auth
        simp [State.eventInit, ne]
  · intro t ne
    simp [State.eventInit, ne, Event.Like.refl]
  · intro h
    rcases h with h | h
    · exact absurd out h
    · exact absurd author h
  · intro h
    exact absurd out h
  · intro h
    exact absurd out h
  · simp [State.eventInit, Event.init]
  · simp [State.eventInit, Event.init]
  · simpa [State.eventInit, Event.init] using waits
  · exact P.locked q
  · exact P.ready e
  · intro t le
    have ne : t ≠ e := by
      rintro rfl
      exact absurd lt (not_lt.2 le)
    exact ⟨le, ne, by simp [State.eventInit, ne]⟩

lemma Places.enter (hpc : s.pc a = .armed e q) (unlocked : (s.queue q).locked = false) : Places (s.enter a e q)
      (G.enter s a e q) := by
  have here := P.place a
  have uses := P.uses a
  rw [hpc] at here uses
  obtain ⟨author, out, -, home⟩ := here
  have free := (P.locked q).1 unlocked
  have bound : ∀ t, s.created ≤ t → t ≠ e := by
    rintro t le rfl
    have blank := congrArg Life.author (P.fresh t le).1
    rw [author] at blank
    cases blank
  refine P.one (e := e) rfl rfl ?_ ?_ ?_ ?_ nofun ?_ ?_ ?_ ?_ ?_ ?_ ?_ ?_ ?_ ?_ ?_ ?_ ?_ ?_ ?_
    (fun _ _ => Iff.rfl) ?_ P.nodup ?_
  · intro b h
    rw [author] at h
    exact .inl (Option.some.inj h).symm
  · intro b h
    rw [out] at h
    cases h
  · intro b h
    rw [free] at h
    cases h
  · intro b h
    rw [show (G.life e).author = some b from h] at author
    exact .inl ⟨Option.some.inj author, rfl⟩
  · intro b h
    exact .inl ⟨(Option.some.inj h).symm, rfl, rfl⟩
  · intro t ne h
    have auth := P.author t a h
    rw [hpc] at auth
    exact ne auth.symm
  · intro t _ h
    obtain ⟨e', ts, at', -⟩ := P.handed t a h
    rw [hpc] at at'
    cases at'
  · intro q' _ h
    have locks := P.locks q' a h
    rw [hpc] at locks
    generalize G.lock q' = l at locks
    cases l <;> exact locks
  · refine ⟨?_, ?_, ?_, ?_, ?_⟩
    · simpa [Ghost.set, Ghost.setLock] using author
    · simp [Ghost.set, Ghost.setLock]
    · simp [Ghost.set, Ghost.setLock, Stage.Member]
    · simpa [State.enter, State.enqueue, Event.submit] using home
    · simp [Ghost.setLock]
  · intro b
    by_cases eq : b = a
    · subst eq
      simp only [State.enter, State.enqueue, State.setPc, State.setEvent, State.setQueue,
        update_self, Uses, Event.submit]
      intro wait
      rw [wait, if_neg (by simp)]
      exact uses.2 (by rw [wait]; rintro ⟨⟩)
    · simp only [State.enter, State.setPc, update_of_ne eq]
      apply (P.uses b).kept
      · intro t has
        by_cases te : t = e
        · subst te
          simp only [State.enqueue, State.setEvent, State.setQueue, update_self, Event.submit]
          refine ⟨if_neg fun given => ?_, trivial⟩
          have call := uses.2 (by rcases given with k | k <;> rw [k] <;> rintro ⟨⟩)
          rw [call] at has
          rcases has with h | h
          · cases h
          · exact eq (Owner.call.inj h).symm
        · simp [State.enqueue, te]
      · intro t _
        by_cases te : t = e
        · subst te
          simp [State.enqueue, Event.submit]
        · simp [State.enqueue, te]
  · intro t ne
    simp [State.enter, State.enqueue, ne, Event.Like.refl]
  · intro _
    simp [State.enter, State.enqueue, Event.submit]
  · intro h
    exact absurd out h
  · intro _
    exact ⟨q, by simpa [State.enter, State.enqueue, Event.submit] using home⟩
  · have old := P.live e
    simp only [author, State.enter, State.enqueue, State.setPc, State.setEvent, State.setQueue,
      update_self, Event.submit] at old ⊢
    simpa using old
  · intro h
    simp only [State.enter, State.enqueue, State.setPc, State.setEvent, State.setQueue, update_self, Event.submit] at h
    have none := (P.done e h).1
    rw [author] at none
    cases none
  · simpa [State.enter, State.enqueue, Event.submit] using P.waits e
  · intro q' ne
    simp [State.enter, State.enqueue, ne]
  · simp [State.enter, State.enqueue]
  · simp [State.enter, State.enqueue, P.ready e, out]
  · intro t le
    exact ⟨le, bound t le, by simp [State.enter, State.enqueue, bound t le]⟩

lemma Places.leave (hpc : s.pc a = .leaving e q) : Places ((s.leave e q).setPc a .idle)
      ((G.set e { G.life e with author := none }).setLock q .free) := by
  obtain ⟨n, here⟩ := P.here hpc
  have notOut : (G.life e).stage ≠ .out := by
    intro out
    have mem := here.member
    rw [out] at mem
    exact mem
  have bound : ∀ t, s.created ≤ t → t ≠ e := by
    rintro t le rfl
    exact notOut (congrArg Life.stage (P.fresh t le).1)
  refine P.one (e := e) rfl rfl ?_ (fun _ _ => .inr rfl) ?_ nofun ?_ nofun ?_ ?_ ?_ trivial ?_
    (fun _ _ => .refl) (fun _ => rfl) (fun _ => rfl) (fun h => P.home e h) ?_ ?_ (P.waits e) ?_ ?_
    (fun _ _ => Iff.rfl) (P.ready e) P.nodup fun t le => ⟨le, bound t le, rfl⟩
  · intro b h
    rw [here.author] at h
    exact .inl (Option.some.inj h).symm
  · intro b h
    rw [here.lock] at h
    exact .inl (Option.some.inj h).symm
  · intro b h
    refine ⟨?_, h⟩
    rintro rfl
    obtain ⟨e', ts, at', -⟩ := P.handed e b h
    rw [hpc] at at'
    cases at'
  · intro t ne h
    have auth := P.author t a h
    rw [hpc] at auth
    exact ne auth.symm
  · intro t _ h
    obtain ⟨e', ts, at', -⟩ := P.handed t a h
    rw [hpc] at at'
    cases at'
  · intro q' ne h
    have locks := P.locks q' a h
    rw [hpc] at locks
    generalize G.lock q' = l at locks
    cases l with
    | free | removing b t => exact locks
    | adding b t => exact ne locks.2.symm
  · exact P.usesTurn rfl (fun _ => ⟨rfl, rfl⟩) (fun _ => rfl) trivial
  · have old := P.live e
    rw [here.author] at old
    simpa [notOut, State.leave] using old
  · intro h
    have none := (P.done e h).1
    rw [here.author] at none
    cases none
  · intro q' ne
    simp [State.leave, ne]
  · simp [State.leave]

end

lemma count_add_filter (l : List Nat) : l.count e + (l.filter (· ≠ e)).length = l.length := by
  rw [← List.countP_eq_length_filter, List.length_eq_countP_add_countP (· == e), List.count]
  simp

lemma Edges.mem_ready (E : Edges s G) (live : (s.event e).live = true)
    (ok : ∀ t ∈ succs s.gnode e, (s.event t).kind = .wait → (s.event t).linking = false) {t : Nat} :
    t ∈ (gnodeReleaseReady s.gnode e).2 ↔
      (e ∈ (G.life t).preds ∧ (G.life t).preds.filter (· ≠ e) = []) ∧ (G.life t).link.debt = 0 := by
  have count := E.count e t
  rw [if_pos live] at count
  have number := E.number t
  have all := count_add_filter (e := e) (G.life t).preds
  unfold gnodeReleaseReady
  rw [mem_releaseWalk_ready, number, show ((s.gnode e).successors.count t) = _ from count.symm,
    ← List.count_pos_iff, ← List.length_eq_zero_iff]
  constructor
  · rintro ⟨ge, le⟩
    have pos : 0 < (G.life t).preds.count e := by omega
    have paid : (G.life t).link.debt = 0 := by
      by_cases wait : (s.event t).kind = .wait
      · have mem : t ∈ succs s.gnode e := List.count_pos_iff.1 (count ▸ pos)
        exact ((E.linking t).1 (ok t mem wait)).2
      · have single := E.single t wait
        omega
    omega
  · omega

lemma Edges.pending (E : Edges s G) {t : Nat} (mem : e ∈ (G.life t).preds) : (G.life t).stage = .pending := by
  by_contra h
  rw [(E.still t h).1] at mem
  cases mem

section Release
variable {t : Nat}

@[simp] lemma Ghost.release_author : ((G.release a e).life t).author = (G.life t).author := by
  by_cases eq : t = e <;> simp [Ghost.release, Life.released, eq]

@[simp] lemma Ghost.release_link : ((G.release a e).life t).link = (G.life t).link := by
  by_cases eq : t = e <;> simp [Ghost.release, Life.released, eq]

@[simp] lemma Ghost.release_preds : ((G.release a e).life t).preds = (G.life t).preds.filter (· ≠ e) := by
  by_cases eq : t = e <;> simp [Ghost.release, Life.released, eq]

@[simp] lemma Ghost.release_self : ((G.release a e).life e).stage = .out := by simp [Ghost.release]

lemma Ghost.release_cases (ne : t ≠ e) : (e ∈ (G.life t).preds ∧ (G.life t).preds.filter (· ≠ e) = []) ∧
      ((G.life t).link.debt = 0 ∧ ((G.release a e).life t).stage = .handed a ∨
        (G.life t).link.debt ≠ 0 ∧ ((G.release a e).life t).stage = .lost) ∨
    ¬(e ∈ (G.life t).preds ∧ (G.life t).preds.filter (· ≠ e) = []) ∧
      ((G.release a e).life t).stage = (G.life t).stage := by
  simp only [Ghost.release, if_neg ne, Life.released]
  by_cases h : e ∈ (G.life t).preds ∧ (G.life t).preds.filter (· ≠ e) = []
  · rw [if_pos h]
    refine .inl ⟨h, ?_⟩
    by_cases debt : (G.life t).link.debt = 0
    · exact .inl ⟨debt, if_pos debt⟩
    · exact .inr ⟨debt, if_neg debt⟩
  · exact .inr ⟨h, if_neg h⟩

lemma Edges.release_stage (E : Edges s G) (ne : t ≠ e) :
    ((G.release a e).life t).stage = (G.life t).stage ∨ (G.life t).stage = .pending ∧
      (((G.release a e).life t).stage = .handed a ∨ ((G.release a e).life t).stage = .lost) := by
  obtain ⟨h, new⟩ | ⟨-, same⟩ := Ghost.release_cases (G := G) (a := a) ne
  · exact .inr ⟨E.pending h.1, new.imp And.right And.right⟩
  · exact .inl same

end Release

section
variable (P : Places s G)
include P

lemma Places.release (E : Edges s G) (hpc : s.pc a = .finishing e)
    (ok : ∀ t ∈ succs s.gnode e, (s.event t).kind = .wait → (s.event t).linking = false) :
    Places (s.finished a e)
      (G.release a e) := by
  have stage : (G.life e).stage = .finishing a := P.here hpc
  have bare : (s.pc a).Bare := by rw [hpc]; trivial
  have author := P.author_none (by rw [stage]; nofun) (by rw [stage]; exact id)
  have live : (s.event e).live = true := by
    by_contra h
    have out := ((P.live e).1 (by simpa using h)).2
    rw [stage] at out
    cases out
  have life_e : ((G.release a e).life e).stage = .out := Ghost.release_self
  have other : ∀ t, t ≠ e → ((G.release a e).life t).stage = (G.life t).stage ∨
      (G.life t).stage = .pending ∧ (((G.release a e).life t).stage = .handed a ∧
        t ∈ (gnodeReleaseReady s.gnode e).2 ∨ ((G.release a e).life t).stage = .lost) := by
    intro t ne
    obtain ⟨h, ⟨paid, new⟩ | ⟨-, new⟩⟩ | ⟨-, same⟩ := Ghost.release_cases (G := G) (a := a) ne
    · exact .inr ⟨E.pending h.1, .inl ⟨new, (E.mem_ready live ok).2 ⟨h, paid⟩⟩⟩
    · exact .inr ⟨E.pending h.1, .inr new⟩
    · exact .inl same
  have members : ∀ t, (G.life t).stage.Member → ((G.release a e).life t).stage.Member := by
    intro t mem
    by_cases eq : t = e
    · subst eq
      rw [stage] at mem
      exact mem.elim
    · rcases other t eq with same | ⟨-, ⟨new, -⟩ | new⟩
      · rwa [same]
      · rw [new]
        trivial
      · rw [new]
        trivial
  have outs : ∀ t, t ≠ e → (((G.release a e).life t).stage = .out ↔ (G.life t).stage = .out) := by
    intro t ne
    rcases other t ne with same | ⟨old, ⟨new, -⟩ | new⟩
    · rw [same]
    · simp [old, new]
    · simp [old, new]
  have turn : (({ s with gnode := (gnodeReleaseReady s.gnode e).1 }.setEvent e { s.event e with live := false }).setPc a
      (.scheduling e (gnodeReleaseReady s.gnode e).2)).pc =
      update s.pc a (.scheduling e (gnodeReleaseReady s.gnode e).2) := rfl
  apply P.turn turn
  · intro b ne
    constructor
    · intro t h
      have te : t ≠ e := by
        rintro rfl
        rw [author] at h
        cases h
      refine ⟨Ghost.release_author.trans h, Ghost.release_link, (outs t te).2, members t, update_field Event.q rfl⟩
    · intro t h
      have te : t ≠ e := by
        rintro rfl
        rw [stage] at h
        exact ne (Option.some.inj h).symm
      refine ⟨?_, update_field Event.q rfl, update_field Event.item rfl⟩
      rcases other t te with same | ⟨old, -⟩
      · exact same
      · rw [old] at h
        cases h
    · exact fun q h => rfl
  · refine ⟨releaseWalk_nodup, fun t mem => ?_⟩
    obtain ⟨h, paid⟩ := (E.mem_ready live ok).1 mem
    have ne : t ≠ e := by
      rintro rfl
      have pending := E.pending h.1
      rw [stage] at pending
      cases pending
    simp only [Ghost.release, if_neg ne, Life.released]
    rw [if_pos h, if_pos paid]
  · exact P.usesTurn rfl (update_users ⟨rfl, rfl⟩)
      (fun t => update_field Event.kind rfl) trivial
  · intro t b h
    rw [Ghost.release_author] at h
    exact .inr ⟨P.bare_author bare h, h⟩
  · intro t b h
    have ne : t ≠ e := by
      rintro rfl
      rw [life_e] at h
      cases h
    rcases other t ne with same | ⟨-, ⟨new, mem⟩ | new⟩
    · rw [same] at h
      exact .inr ⟨P.bare_handed bare h, h⟩
    · rw [new] at h
      cases h
      exact .inl ⟨rfl, e, _, rfl, mem⟩
    · rw [new] at h
      cases h
  · exact fun q b h => .inr ⟨P.bare_lock bare h, rfl⟩
  · exact P.locked
  · intro t
    by_cases eq : t = e
    · subst eq
      rw [life_e]
      simp [P.ready t, stage]
    · show t ∈ s.ready ↔ _
      rw [P.ready t]
      rcases other t eq with same | ⟨old, ⟨new, -⟩ | new⟩
      · rw [same]
      · simp [old, new]
      · simp [old, new]
  · exact P.nodup
  · intro t
    by_cases eq : t = e
    · subst eq
      simp [author]
    · rw [Ghost.release_author, outs t eq, ← P.live t]
      simp [eq]
  · intro t h
    by_cases eq : t = e
    · subst eq
      exact absurd life_e h
    · obtain ⟨q, home⟩ := P.home t fun out => h ((outs t eq).2 out)
      exact ⟨q, by simpa [eq] using home⟩
  · intro t h
    rw [Ghost.release_author]
    by_cases eq : t = e
    · subst eq
      exact ⟨author, .inl life_e⟩
    · obtain ⟨none, old⟩ := P.done t (by simpa [eq] using h)
      refine ⟨none, ?_⟩
      rcases other t eq with same | ⟨pending, -⟩
      · rwa [same]
      · rw [pending] at old
        rcases old with h | ⟨b, h⟩ <;> cases h
  · intro t
    by_cases eq : t = e
    · subst eq
      simpa using P.waits t
    · simpa [eq] using P.waits t
  · intro t le
    have ne : t ≠ e := by
      rintro rfl
      have out := congrArg Life.stage (P.fresh t le).1
      rw [stage] at out
      cases out
    obtain ⟨blank, same⟩ := P.fresh t le
    have preds := congrArg Life.preds blank
    refine ⟨?_, by simpa [ne] using same⟩
    simp [Ghost.release, ne, Life.released, blank, Life.blank]

lemma Places.finish (hpc : s.pc a = .dequeued e) :
    Places ((s.setEvent e { s.event e with finished := true }).setPc a (.finishing e)) G := by
  have here := P.here hpc
  have stage : (G.life e).stage = .finishing a := here
  refine P.turnBare (by rw [hpc]; trivial) rfl here ?_ ?_ (fun _ => rfl) rfl ?_ ?_
  · exact P.usesTurn rfl (update_users ⟨rfl, rfl⟩)
      (fun t => update_field Event.kind rfl) trivial
  · exact fun t => ⟨update_field Event.q rfl, update_field Event.item rfl, update_field Event.live rfl,
      update_field Event.kind rfl, update_field Event.wait rfl⟩
  · intro t h
    by_cases eq : t = e
    · subst eq
      exact .inr ⟨P.author_none (by rw [stage]; nofun) (by rw [stage]; exact id), a, stage⟩
    · exact .inl (by simpa [eq] using h)
  · intro t le
    have ne : t ≠ e := by
      rintro rfl
      have out := congrArg Life.stage (P.fresh t le).1
      rw [stage] at out
      cases out
    exact ⟨le, by simp [ne]⟩

lemma Places.calm {pc : Pc} (bare : (s.pc a).Bare) (here : At s G a pc) (uses : Uses s a pc) :
    Places (s.setPc a pc) G :=
  P.turnBare bare rfl
    (here.kept ⟨fun _ h => ⟨h, rfl, id, id, rfl⟩, fun _ _ => ⟨rfl, rfl, rfl⟩, fun _ _ => rfl⟩)
    (P.usesTurn rfl (fun _ => ⟨rfl, rfl⟩) (fun _ => rfl) (uses.kept (fun _ _ => ⟨rfl, rfl⟩) fun _ _ => rfl))
    (fun _ => ⟨rfl, rfl, rfl, rfl, rfl⟩) (fun _ => rfl) rfl (fun _ h => .inl h) fun _ le => ⟨le, rfl⟩

lemma Places.taskRefs (ref taskRef : Int) (freed taskFreed : Nat)
    (hE : E = { s.event e with ref := ref, taskRef := taskRef, freed := freed, taskFreed := taskFreed })
    (lt : e < s.created) : Places (s.setEvent e E) G := by
  subst hE
  refine P.still rfl (fun b => ?_) (update_like ⟨rfl, rfl, rfl, rfl, rfl, rfl⟩) (fun _ => rfl) rfl ?_
  · exact (P.uses b).kept (fun t _ => ⟨update_field Event.owner rfl, update_field Event.users rfl⟩)
      fun t _ => update_field Event.kind rfl
  · intro t le
    have ne : t ≠ e := by
      rintro rfl
      exact absurd lt (not_lt.2 le)
    exact ⟨le, by simp [ne]⟩

lemma Places.lt (h : G.life e ≠ .blank ∨ s.event e ≠ eventBlank) : e < s.created := by
  apply lt_of_not_ge
  intro le
  obtain ⟨blank, same⟩ := P.fresh e le
  rcases h with h | h
  · exact h blank
  · exact h same

lemma Places.ltOf (h : (s.event e).status ≠ .created) : e < s.created :=
  P.lt (.inr fun eq => h (by rw [eq]; rfl))

lemma Places.users {us : List Nat} (lt : e < s.created)
    (uses : ∀ b, Uses (s.setEvent e { s.event e with users := us }) b (s.pc b)) :
    Places (s.setEvent e { s.event e with users := us }) G := by
  refine P.still rfl uses (update_like ⟨rfl, rfl, rfl, rfl, rfl, rfl⟩) (fun _ => rfl) rfl ?_
  · intro t le
    have ne : t ≠ e := by
      rintro rfl
      exact absurd lt (not_lt.2 le)
    exact ⟨le, by simp [ne]⟩

lemma Places.create {o : Owner} : Places (s.create o) G := by
  have blank := (P.fresh s.created le_rfl).2
  refine P.still rfl (fun b => ?_) (update_like ?_) (fun _ => rfl) rfl ?_
  · apply (P.uses b).kept
    · intro t has
      have ne : t ≠ s.created := by
        rintro rfl
        rw [blank] at has
        rcases has with h | h <;> cases h
      simp [State.create, ne]
    · intro t _
      by_cases eq : t = s.created
      · subst eq
        simp [State.create, eventCreate, blank]
      · simp [State.create, eq]
  · rw [blank]
    exact ⟨rfl, rfl, rfl, rfl, rfl, rfl⟩
  · intro t le
    have ne : t ≠ s.created := by
      rintro rfl
      simp [State.create] at le
    exact ⟨Nat.le_of_succ_le le, by simp [State.create, ne]⟩

lemma Places.destroy (owner : (s.event e).owner ≠ .none)
    (uses : ∀ b, Uses (s.destroy e) b (s.pc b)) : Places (s.destroy e) G := by
  have lt : e < s.created := P.lt (.inr fun eq => owner (by rw [eq]; rfl))
  have like := Event.deref_like { s.event e with owner := .none }
  refine P.still rfl uses (update_like ⟨like.q, like.item, like.live, like.finished, like.kind, like.wait⟩)
    (fun _ => rfl) rfl ?_
  · intro t le
    have ne : t ≠ e := by
      rintro rfl
      exact absurd lt (not_lt.2 le)
    exact ⟨le, by simp [State.destroy, ne]⟩

lemma Places.turnRef {pc : Pc} (ref taskRef : Int) (freed taskFreed : Nat)
    (hE : E = { s.event e with ref := ref, taskRef := taskRef, freed := freed, taskFreed := taskFreed })
    (lt : e < s.created) (bare : (s.pc a).Bare) (here : ∀ s, At s G a pc) (uses : ∀ s, Uses s a pc) :
    Places ((s.setEvent e E).setPc a pc) G :=
  (P.taskRefs ref taskRef freed taskFreed hE lt).calm bare (here _) (uses _)

end

/-- No move takes an agent elsewhere. -/
theorem Places.move {s' : State} {G' : Ghost} (P : Places s G) (E : Edges s G) (K : Known s G)
    (m : Move s G s' G') : Places s' G' := by
  cases m with
  | queue q requests inPlace =>
    refine P.still rfl P.uses (fun _ => .refl) ?_ rfl fun _ le => ⟨le, rfl⟩
    intro q'
    by_cases eq : q' = q
    · subst eq
      simp
    · simp [eq]
  | users e us lt uses => exact P.users lt uses
  | create o => exact P.create
  | destroy e owner uses => exact P.destroy owner uses
  | turn calm calm' uses => exact P.calm calm.bare (by cases ‹Pc› <;> trivial) uses
  | arm calm rest owner own lt waits =>
    exact P.arm calm rest owner own (fun wait => (waits wait).imp fun _ h => h.1) lt
  | enter hpc unlocked => exact P.enter hpc unlocked
  | skip hpc => exact P.skip hpc
  | insert hpc => exact P.insert hpc
  | count hpc => exact P.count hpc
  | schedule hpc => exact P.schedule E hpc
  | submitted hpc => exact P.submitted hpc
  | leave hpc => exact P.leave hpc
  | wait hpc unlocked some last =>
    exact P.turnRef _ _ _ _ rfl (P.ltOf (K.last _ _ last)) (by rw [hpc]; trivial) (fun _ => trivial) fun _ => trivial
  | pass hpc | passed hpc => exact P.calm (by rw [hpc]; trivial) trivial trivial
  | @waited a q e b hpc fin | @finished a e hpc =>
    exact P.turnRef _ _ _ _ rfl (P.ltOf (K.pins a e (by rw [hpc]; exact rfl))) (by rw [hpc]; trivial)
      (fun _ => trivial) fun _ => trivial
  | run hpc home mem => exact P.run hpc home mem
  | stop hpc => exact P.stop hpc
  | dequeue hpc home free => exact P.dequeue hpc home free
  | deref hpc => exact P.deref hpc
  | clear hpc => exact P.clear hpc
  | finish hpc => exact P.finish hpc
  | release hpc ok => exact P.release E hpc ok
  | add hpc => exact P.add hpc

end Each
end Kupl.Events
