import Kupl.Queue.Moves

/-!
# The events that are known

What queues, agents and other events know of an event: it was enqueued before, so its task is at work or has
finished. No move forgets that an event was enqueued (`Known.move`).
-/

namespace Kupl.Events
open Dag
open Function (update update_of_ne update_self)

section Known
variable {s s' : State} {G G' : Ghost} {a e q : Nat} {pc : Pc}

lemma update_queue {β : Type*} {q' : Nat} {Q : Queue} (f : Queue → β) (h : f Q = f (s.queue q)) :
    f (update s.queue q Q q') = f (s.queue q') := by
  by_cases eq : q' = q
  · subst eq
    rwa [update_self]
  · rw [update_of_ne eq]

lemma Known.turn (K : Known s G) (hpc : s'.pc = update s.pc a pc)
    (status : ∀ e, (s'.event e).status = .created → (s.event e).status = .created)
    (stage : ∀ e, (G'.life e).stage ≠ .out → (G.life e).stage = .out → (s'.event e).status ≠ .created)
    (last : ∀ q, (s'.queue q).lastEvent = (s.queue q).lastEvent ∨
      ∀ e, (s'.queue q).lastEvent = some e → (s.event e).status ≠ .created)
    (pins : ∀ e, pc.Pins e → (s.event e).status ≠ .created)
    (rest : ∀ t p, p ∈ (G'.life t).link.rest → p ∈ (G.life t).link.rest ∨ (s.event p).status ≠ .created)
    (wait : ∀ t w, (s'.event t).kind = .wait → (s'.event t).wait = some w →
      (s.event t).kind = .wait ∧ (s.event t).wait = some w ∨ (s.event w).status ≠ .created)
    (fin : ∀ e, pc = .finishing e → (s'.event e).finished = true)
    (finished : ∀ b e, s.pc b = .finishing e → (s'.event e).finished = true)
    (work : ∀ e, (s'.event e).status ≠ .created →
      (s'.event e).live = true ∨ (s'.event e).finished = true) : Known s' G' := by
  have on : ∀ e, (s.event e).status ≠ .created → (s'.event e).status ≠ .created :=
    fun e h h' => h (status e h')
  constructor
  · intro e h
    by_cases out : (G.life e).stage = .out
    · exact stage e h out
    · exact on e (K.stage e out)
  · intro q e h
    apply on
    rcases last q with same | new
    · exact K.last q e (same ▸ h)
    · exact new e h
  · intro b e h
    apply on
    rw [hpc] at h
    by_cases eq : b = a
    · subst eq
      rw [update_self] at h
      exact pins e h
    · rw [update_of_ne eq] at h
      exact K.pins b e h
  · intro t p h
    apply on
    rcases rest t p h with old | new
    · exact K.rest t p old
    · exact new
  · intro t w k h
    apply on
    rcases wait t w k h with ⟨k, h⟩ | new
    · exact K.wait t w k h
    · exact new
  · intro b e h
    rw [hpc] at h
    by_cases eq : b = a
    · subst eq
      rw [update_self] at h
      exact fin e h
    · rw [update_of_ne eq] at h
      exact finished b e h
  · exact work

def Event.fixed (E : Event) : Kind × Option Nat × Bool := (E.kind, E.wait, E.live)

/-- All fields that `Known` reads. -/
def Event.known (E : Event) : (Kind × Option Nat × Bool) × Status × Bool := (E.fixed, E.status, E.finished)

lemma Known.plain (K : Known s G) (hpc : s'.pc = update s.pc a pc)
    (static : ∀ e, (s'.event e).fixed = (s.event e).fixed)
    (status : ∀ e, (s'.event e).status = .created ↔ (s.event e).status = .created)
    (done : ∀ e, (s.event e).finished = true → (s'.event e).finished = true)
    (stage : ∀ e, (G.life e).stage = .out → (G'.life e).stage = .out)
    (last : ∀ q, (s'.queue q).lastEvent = (s.queue q).lastEvent ∨
      ∀ e, (s'.queue q).lastEvent = some e → (s.event e).status ≠ .created)
    (pins : ∀ e, pc.Pins e → (s.event e).status ≠ .created)
    (rest : ∀ t p, p ∈ (G'.life t).link.rest → p ∈ (G.life t).link.rest)
    (fin : ∀ e, pc = .finishing e → (s'.event e).finished = true) : Known s' G' := by
  simp only [Event.fixed, Prod.mk.injEq] at static
  refine K.turn hpc (fun e => (status e).1) ?_ last pins (fun t p h => .inl (rest t p h)) ?_ fin ?_ ?_
  · exact fun e h out => absurd (stage e out) h
  · intro t w k h
    rw [(static t).1] at k
    rw [(static t).2.1] at h
    exact .inl ⟨k, h⟩
  · exact fun b e h => done e (K.fin b e h)
  · intro e h
    rw [(static e).2.2]
    exact (K.work e fun h' => h ((status e).2 h')).imp_right (done e)

lemma Known.ref (K : Known s G) (hpc : s'.pc = update s.pc a pc) (same : ∀ e, (s'.event e).known = (s.event e).known)
    (stage : ∀ e, (G.life e).stage = .out → (G'.life e).stage = .out)
    (last : ∀ q, (s'.queue q).lastEvent = (s.queue q).lastEvent)
    (pins : ∀ e, pc.Pins e → (s.event e).status ≠ .created)
    (rest : ∀ t p, p ∈ (G'.life t).link.rest → p ∈ (G.life t).link.rest)
    (fin : ∀ e, pc = .finishing e → (s.event e).finished = true) : Known s' G' := by
  simp only [Event.known, Prod.mk.injEq] at same
  refine K.plain hpc (fun e => (same e).1) ?_ ?_ stage (fun q => .inl (last q)) pins rest ?_
  · intro e
    rw [(same e).2.1]
  · intro e h
    rwa [(same e).2.2]
  · intro e h
    rw [(same e).2.2]
    exact fin e h

lemma Known.still (K : Known s G) (hpc : s'.pc = s.pc) (same : ∀ e, (s'.event e).known = (s.event e).known)
    (last : ∀ q, (s'.queue q).lastEvent = (s.queue q).lastEvent) : Known s' G := by
  have turn : s'.pc = update s.pc 0 (s.pc 0) := by rw [hpc, Function.update_eq_self]
  exact K.ref turn same (fun _ => id) last (K.pins 0) (fun _ _ => id) (K.fin 0)

variable {L : Life} {t : Nat}

lemma Ghost.set_out (h : (G.life e).stage = .out → L.stage = .out) (out : (G.life t).stage = .out) :
    ((G.set e L).life t).stage = .out := by
  by_cases eq : t = e
  · subst eq
    simpa [Ghost.set] using h out
  · simpa [Ghost.set, eq] using out

lemma Ghost.set_rest {p : Nat} (h : ∀ p, p ∈ L.link.rest → p ∈ (G.life e).link.rest)
    (mem : p ∈ ((G.set e L).life t).link.rest) : p ∈ (G.life t).link.rest := by
  by_cases eq : t = e
  · subst eq
    exact h p (by simpa [Ghost.set] using mem)
  · simpa [Ghost.set, eq] using mem

lemma Event.deref_known (E : Event) : E.deref.known = E.known := by
  unfold Event.deref
  split <;> rfl

lemma Known.arm (K : Known s G) (P : Places s G) {kind : Kind} {wait : Option Nat} (out : (G.life e).stage = .out)
    (waits : kind = .wait → ∃ w, wait = some w ∧ (s.event w).status ≠ .created) :
    Known ((s.eventInit e kind wait q).setPc a (.armed e q))
      (G.arm a e) := by
  refine K.turn rfl (fun t h => ?_) (fun t h old => (h (Ghost.set_out id old)).elim) (fun _ => .inl rfl)
    (fun _ => False.elim) (fun t p h => .inl (Ghost.set_rest (by nofun) h)) ?_ nofun ?_ ?_
  · exact Eq.trans (update_field Event.status (by rfl)).symm h
  · intro t w k h
    by_cases eq : t = e
    · subst eq
      simp only [State.eventInit, State.setEvent, State.setPc, update_self, Event.init] at k h
      obtain ⟨w', some, known⟩ := waits k
      rw [h] at some
      cases some
      exact .inr known
    · simp only [State.eventInit, State.setEvent, State.setPc, update_of_ne eq] at k h
      exact .inl ⟨k, h⟩
  · intro b t h
    have ne : t ≠ e := by
      rintro rfl
      have here := P.here h
      rw [show (G.life t).stage = .finishing b from here] at out
      cases out
    simpa [State.eventInit, ne] using K.fin b t h
  · intro t h
    by_cases eq : t = e
    · subst eq
      simp [State.eventInit, Event.init]
    · simpa [State.eventInit, eq] using K.work t (by simpa [State.eventInit, eq] using h)

lemma Known.enter (K : Known s G) (P : Places s G) (hpc : s.pc a = .armed e q) : Known (s.enter a e q)
      (G.enter s a e q) := by
  have here := P.here hpc
  have live : (s.event e).live = true := by
    by_contra h
    have none := ((P.live e).1 (by simpa using h)).1
    rw [here.1] at none
    cases none
  refine K.turn rfl ?_ ?_ (fun _ => .inl (update_queue Queue.lastEvent rfl)) (fun _ => False.elim) ?_ ?_
    nofun ?_ ?_
  · intro t h
    by_cases eq : t = e
    · subst eq
      simp [State.enter, State.enqueue, Event.submit] at h
    · simpa [State.enter, State.enqueue, eq] using h
  · intro t h out
    by_cases eq : t = e
    · subst eq
      simp [State.enter, State.enqueue, Event.submit]
    · simp [Ghost.set, Ghost.setLock, eq, out] at h
  · intro t p h
    by_cases eq : t = e
    · subst eq
      refine .inr ?_
      simp only [Ghost.set, Ghost.setLock, update_self, State.sources, List.mem_append, Option.mem_toList] at h
      rcases h with last | wait
      · exact K.last q p last
      · split at wait
        · rename_i kind
          exact K.wait t p kind (Option.mem_toList.1 wait)
        · cases wait
    · exact .inl (by simpa [Ghost.set, Ghost.setLock, eq] using h)
  · intro t w k h
    by_cases eq : t = e
    · subst eq
      simp only [State.enter, State.enqueue, State.setEvent, State.setPc, State.setQueue,
        update_self, Event.submit] at k h
      exact .inl ⟨k, h⟩
    · simp only [State.enter, State.enqueue, State.setEvent, State.setPc, State.setQueue, update_of_ne eq] at k h
      exact .inl ⟨k, h⟩
  · intro b t h
    by_cases eq : t = e
    · subst eq
      simpa [State.enter, State.enqueue, Event.submit] using K.fin b t h
    · simpa [State.enter, State.enqueue, eq] using K.fin b t h
  · intro t h
    by_cases eq : t = e
    · subst eq
      simp [State.enter, State.enqueue, Event.submit, live]
    · simpa [State.enter, State.enqueue, eq] using K.work t (by simpa [State.enter, State.enqueue, eq] using h)

/-- No move forgets that an event was enqueued. -/
theorem Known.move (K : Known s G) (P : Places s G) (E : Edges s G) (m : Move s G s' G') : Known s' G' := by
  have same {e : Nat} {E : Event} (k : E.known = (s.event e).known) (t : Nat) :
      (update s.event e E t).known = (s.event t).known := update_field Event.known k
  cases m with
  | queue q requests inPlace =>
    exact K.still rfl (fun _ => rfl) fun _ => update_queue Queue.lastEvent rfl
  | users e us lt uses => exact K.still rfl (same rfl) fun _ => rfl
  | create o =>
    have blank := (P.fresh s.created le_rfl).2
    exact K.still rfl (same (by rw [blank]; rfl)) fun _ => rfl
  | destroy e owner uses =>
    exact K.still rfl (same (Event.deref_known { s.event e with owner := .none })) fun _ => rfl
  | turn calm calm' uses =>
    refine K.ref rfl (fun _ => rfl) (fun _ => id) (fun _ => rfl) ?_
      (fun _ _ => id) ?_
    · intro t h
      cases ‹Pc› <;> first | exact h.elim | exact calm'.elim
    · rintro t rfl
      exact calm'.elim
  | arm calm rest owner own lt waits => exact K.arm P ((P.live _).1 rest).2 waits
  | enter hpc unlocked => exact K.enter P hpc
  | @skip a e q p n ps hpc fin =>
    have here := P.here hpc
    refine K.ref rfl (same rfl) (fun t h => Ghost.set_out id h) (fun _ => rfl)
      (fun _ => False.elim) (fun t p' h => Ghost.set_rest (fun x mem => ?_) h) (by simp)
    rw [here.link]
    exact List.mem_cons_of_mem p mem
  | @insert a e q p n ps hpc fin =>
    have here := P.here hpc
    refine K.ref rfl (fun _ => rfl) (fun t h => Ghost.set_out id h) (fun _ => rfl)
      (fun _ => False.elim) (fun t p' h => Ghost.set_rest (fun x mem => ?_) h) (by simp)
    rw [here.link]
    exact List.mem_cons_of_mem p mem
  | @count a e q p n ps hpc =>
    have here := P.here hpc
    refine K.ref rfl (same rfl) (fun t h => Ghost.set_out id h) (fun _ => rfl)
      (fun _ => False.elim) (fun t p' h => Ghost.set_rest (fun x mem => ?_) h) (by simp)
    rw [here.link]
    exact mem
  | @schedule a e q hpc =>
    have here := P.here hpc
    rw [State.schedAddTb_eq here.home]
    refine K.ref rfl (fun _ => rfl) (fun t h => Ghost.set_out (fun out => ?_) h)
      (fun _ => update_queue Queue.lastEvent rfl) (fun _ => False.elim)
      (fun t p' h => Ghost.set_rest (by rintro _ ⟨⟩) h) (by simp)
    have mem := here.member
    rw [out] at mem
    exact mem.elim
  | submitted hpc =>
    exact K.ref rfl (fun _ => rfl) (fun t h => Ghost.set_out id h) (fun _ => rfl)
      (fun _ => False.elim) (fun t p' h => Ghost.set_rest (by rintro _ ⟨⟩) h) (by simp)
  | @leave a e q hpc =>
    obtain ⟨n, here⟩ := P.here hpc
    refine K.plain rfl (fun _ => rfl) (fun _ => Iff.rfl) (fun _ => id) (fun t h => Ghost.set_out id h) ?_
      (fun _ => False.elim) ?_ (by simp)
    · intro q'
      by_cases eq : q' = q
      · subst eq
        refine .inr fun t h => ?_
        simp only [State.leave, State.setQueue, State.setPc, update_self] at h
        cases h
        refine K.stage e fun out => ?_
        have mem := here.member
        rw [out] at mem
        exact mem
      · exact .inl (by simp [State.leave, eq])
    · exact fun t p h => Ghost.set_rest (e := e) (L := { G.life e with author := none }) (fun _ => id) h
  | wait hpc unlocked some last =>
    refine K.ref rfl (same rfl) (fun _ => id) (fun _ => rfl) ?_ (fun _ _ => id) (by simp)
    rintro t rfl
    exact K.last _ _ last
  | pass | passed =>
    exact K.ref rfl (fun _ => rfl) (fun _ => id) (fun _ => rfl)
      (fun _ => False.elim) (fun _ _ => id) (by simp)
  | waited | finished =>
    exact K.ref rfl (same rfl) (fun _ => id) (fun _ => rfl) (fun _ => False.elim)
      (fun _ _ => id) (by simp)
  | @run a e q hpc home mem =>
    have stage := (P.ready e).1 mem
    exact K.ref rfl (fun _ => rfl)
      (fun t h => Ghost.set_out (by simp [stage]) h)
      (fun _ => update_queue Queue.lastEvent rfl) (fun _ => False.elim) (fun t p' h => by simpa using h)
      (by simp)
  | @stop a e q k hpc =>
    have here := P.here hpc
    have known := K.stage e (by rw [here.1]; rintro ⟨⟩)
    refine K.plain rfl (fun _ => update_field Event.fixed rfl) (fun t => ?_) (fun t h => ?_)
      (fun t h => Ghost.set_out (by simp [here.1]) h)
      (fun _ => .inl (update_queue Queue.lastEvent rfl)) (fun _ => False.elim)
      (fun t p' h => by simpa using h) (by simp)
    · by_cases eq : t = e
      · subst eq
        simp [State.stop, known]
      · simp [State.stop, eq]
    · exact Eq.trans (update_field Event.finished (by rfl)) h
  | @dequeue a e q k hpc home free =>
    have here := P.here hpc
    have known := K.stage e (by rw [here.1]; rintro ⟨⟩)
    refine K.plain rfl (fun _ => update_field Event.fixed rfl) (fun t => ?_) (fun t h => ?_)
      (fun t h => Ghost.set_out (L := { G.life e with stage := _ }) (by simp [here.1]) h)
      (fun _ => .inl (update_queue Queue.lastEvent rfl)) (fun _ => False.elim)
      (fun t p' h => by simpa [Ghost.setLock] using h) (by simp)
    · by_cases eq : t = e
      · subst eq
        simp [State.dequeue, known]
      · simp [State.dequeue, eq]
    · exact Eq.trans (update_field Event.finished (by rfl)) h
  | @deref a e q hpc =>
    have here := P.here hpc
    exact K.ref rfl (same (Event.deref_known (s.event e)))
      (fun t h => Ghost.set_out (by simp [here.1]) h) (fun _ => rfl)
      (fun _ => False.elim) (fun t p' h => by simpa using h) (by simp)
  | @clear a e q hpc =>
    have here := P.here hpc
    refine K.plain rfl (fun _ => rfl) (fun _ => Iff.rfl) (fun _ => id)
      (fun t h => Ghost.set_out (L := { G.life e with stage := _ }) (by simp [here.1]) h)
      ?_ (fun _ => False.elim) (fun t p' h => by simpa [Ghost.setLock] using h) (by simp)
    intro q'
    by_cases eq : q' = q
    · subst eq
      simp only [State.clear, State.setQueue, State.setPc, update_self]
      split
      · exact .inr (by simp)
      · exact .inl rfl
    · exact .inl (by simp [State.clear, eq])
  | @finish a e hpc =>
    refine K.plain rfl (fun _ => update_field Event.fixed rfl) (fun t => ?_) (fun t h => ?_) (fun _ => id)
      (fun _ => .inl rfl)
      (fun _ => False.elim) (fun _ _ => id) ?_
    · exact iff_of_eq (congrArg (· = _) (update_field Event.status (by rfl)))
    · by_cases eq : t = e
      · subst eq
        simp
      · simpa [eq] using h
    · intro t h
      cases h
      simp
  | @release a e hpc ok =>
    have here := P.here hpc
    have known := K.stage e (by rw [show (G.life e).stage = _ from here]; rintro ⟨⟩)
    refine K.turn rfl (fun t => ?_) (fun t h out => ?_) (fun _ => .inl rfl) ?_ ?_ ?_ (by simp) ?_ ?_
    · exact fun h => Eq.trans (update_field Event.status (by rfl)).symm h
    · refine (h ?_).elim
      by_cases eq : t = e
      · simp [Ghost.release, eq]
      · simp only [Ghost.release, if_neg eq, Life.released]
        rw [if_neg fun mem => ?_, out]
        have pending := E.pending mem.1
        rw [out] at pending
        cases pending
    · rintro t rfl
      exact known
    · intro t p h
      left
      by_cases eq : t = e
      · simpa [Ghost.release, Life.released, eq] using h
      · simpa [Ghost.release, Life.released, eq] using h
    · intro t w k h
      exact .inl ⟨Eq.trans (update_field Event.kind (by rfl)).symm k,
        Eq.trans (update_field Event.wait (by rfl)).symm h⟩
    · intro b t h
      exact Eq.trans (update_field Event.finished (by rfl)) (K.fin b t h)
    · intro t h
      by_cases eq : t = e
      · subst eq
        exact .inr (by simpa using K.fin a t hpc)
      · simpa [eq] using K.work t (by simpa [eq] using h)
  | @add a e t ts hpc =>
    obtain ⟨q, stage, -, sched⟩ := P.scheduled hpc
    rw [sched]
    refine K.ref rfl (fun _ => rfl)
      (fun u h => Ghost.set_out (by simp [stage]) h)
      (fun _ => update_queue Queue.lastEvent rfl) (fun u h => ?_) (fun u p' h => by simpa using h) (by simp)
    exact K.pins a u (by rw [hpc]; exact h)

end Known
end Kupl.Events
