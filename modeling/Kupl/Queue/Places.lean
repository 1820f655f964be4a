import Kupl.Queue.Life

/-!
# The agents are where the history says

No move takes an agent elsewhere than its history says. A move is about one agent, one event and at most one
queue; what the history says of another agent stays (`Kept`), since no two agents enqueue an event, have
its task or have the lock of a queue.
-/

namespace Kupl.Events
open Dag
open Function (update update_of_ne update_self)

/-- The two are the same event, at the same point of its life. -/
structure Event.Like (E F : Event) : Prop where
  q : E.q = F.q
  item : E.item = F.item
  live : E.live = F.live
  finished : E.finished = F.finished
  kind : E.kind = F.kind
  wait : E.wait = F.wait

lemma Event.Like.refl {E : Event} : E.Like E := ⟨rfl, rfl, rfl, rfl, rfl, rfl⟩

/-- What the history says of an agent stays. -/
structure Kept (s : State) (G : Ghost) (s' : State) (G' : Ghost) (b : Nat) : Prop where
  author : ∀ e, (G.life e).author = some b → (G'.life e).author = some b ∧ (G'.life e).link = (G.life e).link ∧
      ((G.life e).stage = .out → (G'.life e).stage = .out) ∧
      ((G.life e).stage.Member → (G'.life e).stage.Member) ∧ (s'.event e).q = (s.event e).q
  stage : ∀ e, (G.life e).stage.agent = some b → (G'.life e).stage = (G.life e).stage ∧
    (s'.event e).q = (s.event e).q ∧
      (s'.event e).item = (s.event e).item
  lock : ∀ q, (G.lock q).agent = some b → G'.lock q = G.lock q

section Kept
variable {s s' : State} {G G' : Ghost} {b e q : Nat} {link : Link} {pc : Pc}

lemma Adds.kept (h : Adds s G b e q link) (k : Kept s G s' G' b) : Adds s' G' b e q link := by
  obtain ⟨author, same, -, member, home⟩ := k.author e h.author
  refine ⟨author, same.trans h.link, member h.member, home.trans h.home, ?_⟩
  rw [k.lock q (by rw [h.lock]; rfl), h.lock]

lemma At.kept (h : At s G b pc) (k : Kept s G s' G' b) : At s' G' b pc := by
  cases pc with
  | armed e q =>
    obtain ⟨author, out, blank, home⟩ := h
    obtain ⟨author', same, out', -, home'⟩ := k.author e author
    exact ⟨author', out' out, same.trans blank, home'.trans home⟩
  | submitting e q rest n | counting e q p rest n => exact Adds.kept h k
  | leaving e q =>
    obtain ⟨n, h⟩ := h
    exact ⟨n, h.kept k⟩
  | item e q i =>
    obtain ⟨stage, home, item⟩ := h
    obtain ⟨stage', home', item'⟩ := k.stage e (by rw [stage]; rfl)
    exact ⟨stage'.trans stage, home'.trans home, item'.trans item⟩
  | flagged e i =>
    obtain ⟨stage, item⟩ := h
    obtain ⟨stage', -, item'⟩ := k.stage e (by rw [stage]; rfl)
    exact ⟨stage'.trans stage, item'.trans item⟩
  | dequeuing e q | clearing e q =>
    obtain ⟨stage, home, lock⟩ := h
    obtain ⟨stage', home', -⟩ := k.stage e (by rw [stage]; rfl)
    exact ⟨stage'.trans stage, home'.trans home, (k.lock q (by rw [lock]; rfl)).trans lock⟩
  | dequeued e | finishing e => exact (k.stage e (by rw [show (G.life e).stage = _ from h]; rfl)).1.trans h
  | scheduling e ts =>
    obtain ⟨nodup, handed⟩ := h
    refine ⟨nodup, fun t mem => ?_⟩
    have stage := handed t mem
    exact (k.stage t (by rw [stage]; rfl)).1.trans stage
  | _ => trivial

lemma Uses.imp (h : Uses s b pc) (call : ∀ e, (s.event e).owner = .call b → (s'.event e).owner = .call b)
    (user : ∀ e, (s.event e).owner = .user ∧ b ∈ (s.event e).users →
      (s'.event e).owner = .user ∧ b ∈ (s'.event e).users)
    (kind : ∀ e, pc.Authors e → (s'.event e).kind = (s.event e).kind) : Uses s' b pc := by
  cases pc with
  | checked e q | awaiting e => exact user e h
  | armed e q => exact ⟨h.1.imp (call e) (user e), fun other => call e (h.2 (kind e rfl ▸ other))⟩
  | submitting e q rest n | counting e q p rest n | leaving e q => exact fun wait => call e (h (kind e rfl ▸ wait))
  | awaitOwn e => exact call e h
  | _ => trivial

lemma Uses.kept (h : Uses s b pc) (owner : ∀ e, (s.event e).owner = .user ∨ (s.event e).owner = .call b →
      (s'.event e).owner = (s.event e).owner ∧ (s'.event e).users = (s.event e).users)
    (kind : ∀ e, pc.Authors e → (s'.event e).kind = (s.event e).kind) : Uses s' b pc := by
  refine h.imp (fun e has => (owner e (.inr has)).1.trans has) ?_ kind
  rintro e ⟨has, mem⟩
  obtain ⟨owner, users⟩ := owner e (.inl has)
  exact ⟨owner.trans has, users ▸ mem⟩

end Kept

section Facts
variable {s s' : State} {G G' : Ghost} {a b e q : Nat} {pc : Pc}

section
variable (P : Places s G)
include P

lemma Places.here (hpc : s.pc a = pc) : At s G a pc := hpc ▸ P.place a

lemma Places.authored (h : (G.life e).author = some a) : (G.life e).stage = .out ∨ (G.life e).stage.Member := by
  have auth := P.author e a h
  have place := P.place a
  generalize s.pc a = pc at auth place
  cases pc with
  | armed e' q =>
    cases auth
    exact .inl place.2.1
  | submitting e' q rest n | counting e' q p rest n =>
    cases auth
    exact .inr place.member
  | leaving e' q =>
    cases auth
    obtain ⟨n, place⟩ := place
    exact .inr place.member
  | _ => exact auth.elim

lemma Places.author_none (out : (G.life e).stage ≠ .out)
    (off : ¬(G.life e).stage.Member) : (G.life e).author = none := by
  cases h : (G.life e).author with
  | none => rfl
  | some a =>
    rcases P.authored h with eq | mem
    · exact absurd eq out
    · exact absurd mem off

lemma Places.author_free (mem : (G.life e).stage.Member) (home : (s.event e).q = some q)
    (free : G.lock q = .free) : (G.life e).author = none := by
  cases h : (G.life e).author with
  | none => rfl
  | some a =>
    have auth := P.author e a h
    have place := P.place a
    have busy : ∀ q' link, Adds s G a e q' link → False := by
      intro q' link add
      have eq := add.home
      rw [home] at eq
      cases eq
      have lock := add.lock
      rw [free] at lock
      cases lock
    generalize s.pc a = pc at auth place
    cases pc with
    | armed e' q =>
      cases auth
      rw [place.2.1] at mem
      exact mem.elim
    | submitting e' q' rest n | counting e' q' p rest n =>
      cases auth
      exact (busy _ _ place).elim
    | leaving e' q' =>
      cases auth
      obtain ⟨n, place⟩ := place
      exact (busy _ _ place).elim
    | _ => exact auth.elim

lemma Places.usesTurn (hpc : s'.pc = update s.pc a pc)
    (owner : ∀ e, (s'.event e).owner = (s.event e).owner ∧ (s'.event e).users = (s.event e).users)
    (kind : ∀ e, (s'.event e).kind = (s.event e).kind) (new : Uses s' a pc) : ∀ b, Uses s' b (s'.pc b) := by
  intro b
  rw [hpc]
  by_cases eq : b = a
  · subst eq
    rwa [update_self]
  · rw [update_of_ne eq]
    exact (P.uses b).kept (fun e _ => owner e) fun e _ => kind e

lemma Places.turn (hpc : s'.pc = update s.pc a pc)
    (kept : ∀ b, b ≠ a → Kept s G s' G' b) (here : At s' G' a pc) (uses : ∀ b, Uses s' b (s'.pc b))
    (author : ∀ e b, (G'.life e).author = some b → b = a ∧ pc.Authors e ∨ b ≠ a ∧
      (G.life e).author = some b)
    (handed : ∀ t b, (G'.life t).stage = .handed b →
      b = a ∧ (∃ e ts, pc = .scheduling e ts ∧ t ∈ ts) ∨ b ≠ a ∧ (G.life t).stage = .handed b)
    (locks : ∀ q b, (G'.lock q).agent = some b → b = a ∧ pc.Locks q (G'.lock q) ∨ b ≠ a ∧
      G'.lock q = G.lock q)
    (locked : ∀ q, (s'.queue q).locked = false ↔ G'.lock q = .free)
    (ready : ∀ e, e ∈ s'.ready ↔ (G'.life e).stage = .ready) (nodup : s'.ready.Nodup)
    (live : ∀ e, (s'.event e).live = false ↔ (G'.life e).author = none ∧ (G'.life e).stage = .out)
    (home : ∀ e, (G'.life e).stage ≠ .out → ∃ q, (s'.event e).q = some q)
    (done : ∀ e, (s'.event e).finished = true → (G'.life e).author = none ∧
      ((G'.life e).stage = .out ∨ ∃ a, (G'.life e).stage = .finishing a))
    (waits : ∀ e, (s'.event e).kind = .wait → ∃ w, (s'.event e).wait = some w)
    (fresh : ∀ e, s'.created ≤ e → G'.life e = .blank ∧ s'.event e = eventBlank) : Places s' G' := by
  refine ⟨?_, uses, ?_, ?_, ?_, locked, ready, nodup, live, home, done, waits, fresh⟩
  · intro b
    rw [hpc]
    by_cases h : b = a
    · subst h
      rwa [update_self]
    · rw [update_of_ne h]
      exact (P.place b).kept (kept b h)
  · intro e b hb
    rw [hpc]
    rcases author e b hb with ⟨rfl, h⟩ | ⟨ne, h⟩
    · rwa [update_self]
    · rw [update_of_ne ne]
      exact P.author e b h
  · intro t b hb
    rw [hpc]
    rcases handed t b hb with ⟨rfl, h⟩ | ⟨ne, h⟩
    · rwa [update_self]
    · rw [update_of_ne ne]
      exact P.handed t b h
  · intro q b hb
    rw [hpc]
    rcases locks q b hb with ⟨rfl, h⟩ | ⟨ne, h⟩
    · rwa [update_self]
    · rw [update_of_ne ne, h]
      exact P.locks q b (h ▸ hb)

end

/-- The agent enqueues no event, has no lock and no ready tasks. -/
def Pc.Bare : Pc → Prop
  | .armed .. | .submitting .. | .counting .. | .leaving .. | .dequeuing .. | .clearing ..
  | .scheduling _ (_ :: _) => False
  | _ => True

lemma Pc.Calm.bare (h : pc.Calm) : pc.Bare := by
  cases pc <;> trivial

section
variable (P : Places s G)
include P

lemma Places.bare_author (bare : (s.pc a).Bare) (h : (G.life e).author = some b) : b ≠ a := by
  rintro rfl
  have auth := P.author e b h
  generalize s.pc b = pc at bare auth
  cases pc <;> first | exact bare.elim | exact auth.elim

lemma Places.bare_handed (bare : (s.pc a).Bare) (h : (G.life e).stage = .handed b) : b ≠ a := by
  rintro rfl
  obtain ⟨e', ts, at', mem⟩ := P.handed e b h
  rw [at'] at bare
  cases ts with
  | nil => cases mem
  | cons t ts => exact bare.elim

lemma Places.bare_lock (bare : (s.pc a).Bare) (h : (G.lock q).agent = some b) : b ≠ a := by
  rintro rfl
  have locks := P.locks q b h
  generalize s.pc b = pc at bare locks
  generalize G.lock q = l at locks
  cases l <;> cases pc <;> first | exact bare.elim | exact locks.elim

lemma Places.turnBare (bare : (s.pc a).Bare) (hpc : s'.pc = update s.pc a pc)
    (here : At s' G a pc) (uses : ∀ b, Uses s' b (s'.pc b))
    (static : ∀ e, (s'.event e).q = (s.event e).q ∧ (s'.event e).item = (s.event e).item ∧
      (s'.event e).live = (s.event e).live ∧ (s'.event e).kind = (s.event e).kind ∧
      (s'.event e).wait = (s.event e).wait)
    (locked : ∀ q, (s'.queue q).locked = (s.queue q).locked) (ready : s'.ready = s.ready)
    (done : ∀ e, (s'.event e).finished = true → (s.event e).finished = true ∨
      (G.life e).author = none ∧ ∃ a, (G.life e).stage = .finishing a)
    (fresh : ∀ e, s'.created ≤ e → s.created ≤ e ∧ s'.event e = s.event e) : Places s' G := by
  apply P.turn hpc
  · intro b _
    refine ⟨fun e h => ⟨h, rfl, id, id, (static e).1⟩, fun e h =>
      ⟨rfl, (static e).1, (static e).2.1⟩, fun q h => rfl⟩
  · exact here
  · exact uses
  · exact fun e b h => .inr ⟨P.bare_author bare h, h⟩
  · exact fun t b h => .inr ⟨P.bare_handed bare h, h⟩
  · exact fun q b h => .inr ⟨P.bare_lock bare h, rfl⟩
  · intro q
    rw [locked]
    exact P.locked q
  · rw [ready]
    exact P.ready
  · rw [ready]
    exact P.nodup
  · intro e
    rw [(static e).2.2.1]
    exact P.live e
  · intro e h
    rw [(static e).1]
    exact P.home e h
  · intro e h
    rcases done e h with old | fin
    · exact P.done e old
    · exact ⟨fin.1, .inr fin.2⟩
  · intro e h
    rw [(static e).2.2.2.1] at h
    rw [(static e).2.2.2.2]
    exact P.waits e h
  · intro e h
    obtain ⟨old, eq⟩ := fresh e h
    rw [eq]
    exact P.fresh e old

lemma Places.still (hpc : s'.pc = s.pc) (uses : ∀ b, Uses s' b (s.pc b)) (like : ∀ e, (s'.event e).Like (s.event e))
    (locked : ∀ q, (s'.queue q).locked = (s.queue q).locked) (ready : s'.ready = s.ready)
    (fresh : ∀ e, s'.created ≤ e → s.created ≤ e ∧ s'.event e = s.event e) : Places s' G := by
  refine ⟨fun b => ?_, fun b => hpc ▸ uses b, fun e b => hpc ▸ P.author e b,
    fun t b => hpc ▸ P.handed t b, fun q b => hpc ▸ P.locks q b, fun q => locked q ▸ P.locked q,
    fun e => ready ▸ P.ready e, ready ▸ P.nodup, fun e => (like e).live ▸ P.live e,
    fun e h => (like e).q ▸ P.home e h, fun e h => P.done e ((like e).finished ▸ h),
    fun e h => (like e).wait ▸ P.waits e ((like e).kind ▸ h), ?_⟩
  · rw [hpc]
    exact (P.place b).kept ⟨fun e h => ⟨h, rfl, id, id, (like e).q⟩,
      fun e h => ⟨rfl, (like e).q, (like e).item⟩, fun q h => rfl⟩
  · intro e h
    obtain ⟨old, eq⟩ := fresh e h
    rw [eq]
    exact P.fresh e old

lemma Places.one {L : Life} {l : Hold} (hpc : s'.pc = update s.pc a pc) (hG : G' = (G.set e L).setLock q l)
    (auth : ∀ b, (G.life e).author = some b → b = a ∨ L.author = some b ∧ L.link = (G.life e).link ∧
      ((G.life e).stage = .out → L.stage = .out) ∧ ((G.life e).stage.Member → L.stage.Member))
    (stage : ∀ b, (G.life e).stage.agent = some b → b = a ∨ L.stage = (G.life e).stage)
    (lock : ∀ b, (G.lock q).agent = some b → b = a ∨ l = G.lock q)
    (newAuth : ∀ b, L.author = some b → b = a ∧ pc.Authors e ∨ b ≠ a ∧ (G.life e).author = some b)
    (newHanded : ∀ b, L.stage = .handed b → b ≠ a ∧ (G.life e).stage = .handed b)
    (newLock : ∀ b, l.agent = some b → b = a ∧ pc.Locks q l ∨ b ≠ a ∧ l = G.lock q)
    (noAuth : ∀ t, t ≠ e → (G.life t).author ≠ some a)
    (noHanded : ∀ t, t ≠ e → (G.life t).stage = .handed a → ∃ e ts, pc = .scheduling e ts ∧ t ∈ ts)
    (noLock : ∀ q', q' ≠ q → (G.lock q').agent ≠ some a)
    (here : At s' G' a pc) (uses : ∀ b, Uses s' b (s'.pc b))
    (like : ∀ t, t ≠ e → (s'.event t).Like (s.event t))
    (home : (G.life e).stage ≠ .out ∨ (G.life e).author ≠ none → (s'.event e).q = (s.event e).q)
    (item : (G.life e).stage ≠ .out → (s'.event e).item = (s.event e).item)
    (still : L.stage ≠ .out → ∃ q, (s'.event e).q = some q)
    (live : (s'.event e).live = false ↔ L.author = none ∧ L.stage = .out)
    (done : (s'.event e).finished = true → L.author = none ∧ (L.stage = .out ∨ ∃ a, L.stage = .finishing a))
    (waits : (s'.event e).kind = .wait → ∃ w, (s'.event e).wait = some w)
    (locked : ∀ q', q' ≠ q → (s'.queue q').locked = (s.queue q').locked)
    (held : (s'.queue q).locked = false ↔ l = .free)
    (ready : ∀ t, t ≠ e → (t ∈ s'.ready ↔ t ∈ s.ready)) (taken : e ∈ s'.ready ↔ L.stage = .ready)
    (nodup : s'.ready.Nodup)
    (fresh : ∀ t, s'.created ≤ t → s.created ≤ t ∧ t ≠ e ∧ s'.event t = s.event t) : Places s' G' := by
  subst hG
  have life_e : ((G.set e L).setLock q l).life e = L := update_self ..
  have life_ne : ∀ t, t ≠ e → ((G.set e L).setLock q l).life t = G.life t :=
    fun t ne => update_of_ne ne ..
  have lock_q : ((G.set e L).setLock q l).lock q = l := update_self ..
  have lock_ne : ∀ q', q' ≠ q → ((G.set e L).setLock q l).lock q' = G.lock q' :=
    fun q' ne => update_of_ne ne ..
  apply P.turn hpc
  · intro b ne
    constructor
    · intro t h
      by_cases eq : t = e
      · subst eq
        obtain rfl | ⟨author, link, out, member⟩ := auth b h
        · exact absurd rfl ne
        · rw [life_e]
          exact ⟨author, link, out, member, home (.inr (by rw [h]; nofun))⟩
      · rw [life_ne t eq]
        exact ⟨h, rfl, id, id, (like t eq).q⟩
    · intro t h
      by_cases eq : t = e
      · subst eq
        obtain rfl | same := stage b h
        · exact absurd rfl ne
        · rw [life_e]
          have off : (G.life t).stage ≠ .out := by
            intro out
            rw [out] at h
            cases h
          exact ⟨same, home (.inl off), item off⟩
      · rw [life_ne t eq]
        exact ⟨rfl, (like t eq).q, (like t eq).item⟩
    · intro q' h
      by_cases eq : q' = q
      · subst eq
        obtain rfl | same := lock b h
        · exact absurd rfl ne
        · rw [lock_q, same]
      · exact lock_ne q' eq
  · exact here
  · exact uses
  · intro t b h
    by_cases eq : t = e
    · subst eq
      rw [life_e] at h
      exact newAuth b h
    · rw [life_ne t eq] at h
      refine .inr ⟨?_, h⟩
      rintro rfl
      exact noAuth t eq h
  · intro t b h
    by_cases eq : t = e
    · subst eq
      rw [life_e] at h
      exact .inr (newHanded b h)
    · rw [life_ne t eq] at h
      by_cases ba : b = a
      · subst ba
        exact .inl ⟨rfl, noHanded t eq h⟩
      · exact .inr ⟨ba, h⟩
  · intro q' b h
    by_cases eq : q' = q
    · subst eq
      rw [lock_q] at h ⊢
      exact newLock b h
    · rw [lock_ne q' eq] at h ⊢
      refine .inr ⟨?_, rfl⟩
      rintro rfl
      exact noLock q' eq h
  · intro q'
    by_cases eq : q' = q
    · subst eq
      rw [lock_q]
      exact held
    · rw [lock_ne q' eq, locked q' eq]
      exact P.locked q'
  · intro t
    by_cases eq : t = e
    · subst eq
      rw [life_e]
      exact taken
    · rw [life_ne t eq, ready t eq]
      exact P.ready t
  · exact nodup
  · intro t
    by_cases eq : t = e
    · subst eq
      rw [life_e]
      exact live
    · rw [life_ne t eq, (like t eq).live]
      exact P.live t
  · intro t h
    by_cases eq : t = e
    · subst eq
      rw [life_e] at h
      exact still h
    · rw [life_ne t eq] at h
      rw [(like t eq).q]
      exact P.home t h
  · intro t h
    by_cases eq : t = e
    · subst eq
      rw [life_e]
      exact done h
    · rw [(like t eq).finished] at h
      rw [life_ne t eq]
      exact P.done t h
  · intro t h
    by_cases eq : t = e
    · subst eq
      exact waits h
    · rw [(like t eq).kind] at h
      rw [(like t eq).wait]
      exact P.waits t h
  · intro t h
    obtain ⟨old, ne, same⟩ := fresh t h
    rw [life_ne t ne, same]
    exact P.fresh t old

end

end Facts
end Kupl.Events
