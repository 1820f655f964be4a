import Kupl.Queue.Refs
import Kupl.Queue.Serial

/-!
# When the memory of an event is released

The memory of an event is released with the last reference: not while an agent, a queue or its `last_event`
refers to the event, not twice, and as soon as nobody refers to it, as long as nobody meets an event half-way
and no request is submitted (`event_released`). `kupl_queue_submit_request` takes a reference of the event it
has just created and drops neither that one nor the other but for the one that `kupl_dequeue_event` drops, so
the memory of an event of a request is never released (`event_released_not`).

C++ → Lean naming: `kupl_memory_free` → `freed`, and `taskFreed` for the task.
-/

namespace Kupl.Events
open Dag

/-- The agent reads or writes the event. -/
def Pc.Refers (pc : Pc) (event : Nat) : Prop :=
  match pc with
  | .checked e _ | .armed e _ | .submitting e .. | .counting e .. | .leaving e _ | .awaitOwn e | .awaiting e
  | .item e .. | .flagged e _ | .dequeuing e _ => e = event
  | _ => False

/-- The agent executes the task of the event, or waits for it with a reference. -/
def Pc.Runs (pc : Pc) (event : Nat) : Prop :=
  match pc with
  | .item e .. | .flagged e _ | .dequeuing e _ | .clearing e _ | .dequeued e | .finishing e | .scheduling e _
  | .waiting _ (some e) _ => e = event
  | _ => False

/-- The event was enqueued and not dequeued. -/
def State.InQueue (s : State) (event : Nat) : Prop :=
  ∃ q, ∃ k ∈ (s.queue q).held, (s.queue q).events[k]? = some event

/-- The memory of an event and of its task is released with the last reference. -/
structure Released (s : State) (e : Nat) : Prop where
  once : (s.event e).freed ≤ 1
  refers : (s.event e).freed = 1 → ∀ a, ¬(s.pc a).Refers e
  queue : (s.event e).freed = 1 → ¬s.InQueue e
  last : (s.event e).freed = 1 → ∀ q, (s.queue q).lastEvent = some e → ∃ a, s.pc a = .clearing e q
  dropped : (s.event e).owner = .none → ¬s.InQueue e → (∀ a q, s.pc a ≠ .dequeuing e q) →
    (s.event e).freed = 1
  taskOnce : (s.event e).taskFreed ≤ 1
  runs : (s.event e).taskFreed = 1 → (s.event e).freed = 1 ∧ (s.event e).live = false ∧ ∀ a, ¬(s.pc a).Runs e
  through : (s.event e).freed = 1 → (s.event e).live = false → (∀ a, ¬(s.pc a).Runs e) →
    (s.event e).taskFreed = 1

def Requestless (sync : Nat → Bool) (s : State) : Label → Prop
  | .submit _ q => sync q = true ∨ ¬((s.queue q).eventCount = 0 ∧ (s.queue q).requests = true)
  | _ => True

instance (sync : Nat → Bool) (s : State) (l : Label) : Decidable (Requestless sync s l) :=
  match l with
  | .submit _ _ => inferInstanceAs (Decidable (_ = _ ∨ ¬ (_ = _ ∧ _ = _)))
  | .transfer _ | .create | .query _ | .record _ _ _ | .waitEvent _ _ _ | .wait _ _ | .eventWait _ _ | .destroy _ _
  | .run _ _ | .next _ => .isTrue trivial

/-- The step meets no event half-way and submits no request. -/
def Plain (sync : Nat → Bool) (s : State) (l : Label) : Prop := Orderly s l ∧ Requestless sync s l

instance (sync : Nat → Bool) (s : State) (l : Label) : Decidable (Plain sync s l) :=
  inferInstanceAs (Decidable (_ ∧ _))

section Released
variable {s s' : State} {G : Ghost} {pins : Nat → Finset Nat} {a e q k : Nat} {sync : Nat → Bool}

lemma Inv.inQueue (I : Inv s G) : s.InQueue e ↔ (G.life e).stage.Member := by
  constructor
  · rintro ⟨q, k, held, at'⟩
    have L := I.lines.line q
    rw [L.held_eq, List.mem_range'_1] at held
    obtain ⟨x, m, hm, item, same⟩ := L.at held.1 (by omega)
    rw [at'] at same
    cases same
    exact (of_members hm).1
  · intro mem
    obtain ⟨q, home⟩ := I.places.home e fun out => by rw [out] at mem; exact mem
    have L := I.lines.line q
    have hm := members_of mem home
    obtain ⟨ge, at'⟩ := L.member e _ hm
    refine ⟨q, (s.event e).item, ?_, at'⟩
    rw [L.held_eq, List.mem_range'_1]
    have lt := L.lt hm
    dsimp only at ge lt
    omega

lemma Refs.alive (R : Refs s G pins) (lt : e < s.created) (h : (s.event e).owner ≠ .none ∨ (G.life e).stage.Held) :
    (s.event e).freed = 0 := by
  have C := R.counted e lt
  rw [C.freed, if_neg (C.has (h.imp_right fun held => decide_eq_true held))]

lemma Inv.refers (I : Inv s G) (h : (s.pc a).Refers e) : (s.event e).owner ≠ .none ∨ (G.life e).stage.Held := by
  have place := I.places.place a
  have uses := I.places.uses a
  cases hpc : s.pc a with
  | checked x q | awaiting x =>
    rw [hpc] at h uses
    cases h
    exact .inl (by rw [uses.1]; nofun)
  | armed x q =>
    rw [hpc] at h uses
    cases h
    rcases uses.1 with own | ⟨own, -⟩ <;> exact .inl (by rw [own]; nofun)
  | submitting x q rest n | counting x q p rest n =>
    rw [hpc] at h place
    cases h
    exact .inr place.member.held
  | leaving x q =>
    rw [hpc] at h place
    cases h
    obtain ⟨n, place⟩ := place
    exact .inr place.member.held
  | awaitOwn x =>
    rw [hpc] at h uses
    cases h
    exact .inl (by rw [show (s.event e).owner = _ from uses]; nofun)
  | item x q k | flagged x k | dequeuing x q =>
    rw [hpc] at h place
    cases h
    exact .inr (by rw [place.1]; trivial)
  | _ =>
    rw [hpc] at h
    exact h.elim

lemma Inv.runs (I : Inv s G) (h : (s.pc a).Runs e) : (s.event e).live = true ∨ (s.pc a).Pins e := by
  have place := I.places.place a
  have live : ∀ g : Stage, (G.life e).stage = g → g ≠ .out → (s.event e).live = true := by
    intro g stage ne
    rw [← Bool.not_eq_false, I.places.live, stage]
    exact fun out => ne out.2
  cases hpc : s.pc a with
  | item x q k | flagged x k | dequeuing x q | clearing x q =>
    rw [hpc] at h place
    cases h
    exact .inl (live _ place.1 nofun)
  | dequeued x | finishing x =>
    rw [hpc] at h place
    cases h
    exact .inl (live _ place nofun)
  | scheduling x ts =>
    rw [hpc] at h
    exact .inr h
  | waiting q task b =>
    rw [hpc] at h
    cases task with
    | none => exact h.elim
    | some x => exact .inr h
  | _ =>
    rw [hpc] at h
    exact h.elim

lemma Inv.last (I : Inv s G) (R : Refs s G pins) (freed : (s.event e).freed = 1)
    (last : (s.queue q).lastEvent = some e) : ∃ a, s.pc a = .clearing e q := by
  have lt : e < s.created := I.places.ltOf (I.known.last q e last)
  have L := I.lines.line q
  have gone : ¬(G.life e).stage.Held := by
    intro held
    have zero := R.alive lt (.inr held)
    omega
  have notLast : ∀ n ≤ (s.queue q).items.length, (s.queue q).lastEvent ≠ (s.queue q).lastOf n := by
    intro n le eq
    obtain ⟨m, hm, -⟩ := L.of_lastOf le (eq.symm.trans last)
    exact gone (of_members hm).1.held
  have ok := I.lines.last q
  cases lock : G.lock q with
  | free =>
    rw [lock] at ok
    exact absurd ok (notLast _ le_rfl)
  | adding a x =>
    rw [lock] at ok
    exact absurd ok.1 (notLast _ (Nat.sub_le ..))
  | removing a x =>
    rw [lock] at ok
    rcases ok with ⟨here, -⟩ | ⟨-, here⟩
    · cases here.symm.trans last
      have locks := I.places.locks q a (by rw [lock]; rfl)
      rw [lock] at locks
      have place := I.places.place a
      refine ⟨a, ?_⟩
      cases hpc : s.pc a with
      | dequeuing x q' =>
        rw [hpc] at locks place
        cases locks.1
        exact absurd (show (G.life e).stage.Held by rw [place.1]; trivial) gone
      | clearing x q' =>
        rw [hpc] at locks
        cases locks.1
        cases locks.2
        rfl
      | _ =>
        rw [hpc] at locks
        exact locks.elim
    · exact absurd here (notLast _ le_rfl)

lemma Inv.released (I : Inv s G) (R : Refs s G pins) (D : Dequeues s G) (lt : e < s.created)
    (kind : (s.event e).kind ≠ .request) : Released s e := by
  have C := R.counted e lt
  have freed := C.freed
  have taskFreed := C.taskFreed
  have taskRef := C.taskRef
  have ref := C.ref
  have noPins : (∀ a, ¬(s.pc a).Pins e) ↔ (pins e).card = 0 := by
    rw [Finset.card_eq_zero, Finset.eq_empty_iff_forall_notMem]
    simp only [R.pinned _ e]
  have through : (s.event e).taskRef = 0 ↔ (s.event e).ref = 0 ∧ (s.event e).live = false ∧
    (pins e).card = 0 := by
    rw [taskRef]
    unfold Event.taskRefs
    cases live : (s.event e).live <;> by_cases zero : (s.event e).ref = 0 <;> simp [zero] <;> omega
  constructor
  case once =>
    rw [freed]
    split <;> decide
  case refers =>
    intro one a refers
    have zero := R.alive lt (I.refers refers)
    omega
  case queue =>
    intro one mem
    have zero := R.alive lt (.inr (I.inQueue.1 mem).held)
    omega
  case last => exact fun one q last => I.last R one last
  case dropped =>
    intro owner out idle
    have gone : ¬(G.life e).stage.Held := by
      intro held
      cases stage : (G.life e).stage with
      | dequeuing a =>
        obtain ⟨q, at'⟩ := D e a stage
        exact idle a q at'
      | _ =>
        rw [stage] at held
        first | exact held.elim | exact out (I.inQueue.2 (by rw [stage]; trivial))
    have zero : (s.event e).ref = 0 := by
      rw [ref]
      simp [Event.refs, owner, gone, kind]
    rw [freed, if_pos zero]
  case taskOnce =>
    rw [taskFreed]
    split <;> decide
  case runs =>
    intro one
    have zero : (s.event e).taskRef = 0 := by
      by_contra more
      rw [taskFreed, if_neg more] at one
      cases one
    obtain ⟨ref, live, card⟩ := through.1 zero
    refine ⟨by rw [freed, if_pos ref], live, fun a runs => ?_⟩
    rcases I.runs runs with on | pin
    · rw [live] at on
      cases on
    · exact noPins.2 card a pin
  case through =>
    intro one live idle
    have ref : (s.event e).ref = 0 := by
      by_contra more
      rw [freed, if_neg more] at one
      cases one
    have unpinned : ∀ a, ¬(s.pc a).Pins e := by
      intro a pin
      apply idle a
      generalize s.pc a = pc at pin
      cases pc with
      | waiting q task b =>
        cases task with
        | none => exact pin.elim
        | some x => exact pin
      | scheduling x ts => exact pin
      | _ => exact pin.elim
    rw [taskFreed, if_pos (through.2 ⟨ref, live, noPins.1 unpinned⟩)]

lemma queueMachine_kinds {l : Label} (plain : Requestless sync s l) (h : (queueMachine sync).step s l = some s') :
    Kinds s s' := by
  obtain ⟨-, ⟨a, q, rfl, off, request⟩ | kinds⟩ := queueMachine_turned h
  · exact absurd request (plain.resolve_left off)
  · exact kinds

lemma kinds_plain (h : (queueMachine sync).Reach (Plain sync) s) : (s.event e).kind ≠ .request := by
  apply h.inv (I := fun s => (s.event e).kind ≠ .request)
  · rintro s init
    cases init
    nofun
  · intro s l s' off plain h kind
    exact off (queueMachine_kinds plain.2 h e kind)

lemma Refs.init (s : State) (h : (queueMachine sync).init s) :
    (∃ pins, Refs s Ghost.init pins) ∧ Dequeues s Ghost.init := by
  cases h
  refine ⟨⟨fun _ => ∅, ?_, fun e lt => absurd lt (Nat.not_lt_zero e)⟩, nofun⟩
  intro a e
  exact ⟨fun mem => absurd mem (Finset.notMem_empty a), False.elim⟩

/-- The memory of an event is released with the last reference, as long as nobody meets an event half-way and no
request is submitted. -/
theorem event_released (h : (queueMachine sync).Reach (Plain sync) s) (lt : e < s.created) : Released s e := by
  obtain ⟨G, I, ⟨pins, R⟩, D⟩ := reach_inv (J := fun s G => (∃ pins, Refs s G pins) ∧
    Dequeues s G) Refs.init
    (fun _ _ _ _ I J m => ⟨J.1.elim fun pins R => R.move I.places I.edges I.known I.lines m,
      J.2.move I.places m⟩) (h.mono fun _ _ plain => plain.1)
  exact I.released R D lt (kinds_plain h)

/-- An event is recorded, destroyed and taken out of its queue. -/
theorem event_released_one : ∃ s, (queueMachine (· == 7)).Reach (Plain (· == 7)) s ∧
    (s.event 0).freed = 1 ∧ (s.queue 0).lastEvent = some 0 ∧ Released s 0 := by
  refine Machine.shown (P := fun s => 0 < s.created ∧ (s.event 0).freed = 1 ∧ (s.queue 0).lastEvent = some 0)
    [.create, .record 0 0 0, .next 0, .next 0, .next 0, .next 0, .run 1 0, .destroy 0 0, .next 1, .next 1, .next 1] rfl
    (by decide) fun s h is => ?_
  obtain ⟨lt, freed, last⟩ := is
  exact ⟨freed, last, event_released h lt⟩

/-- The event of a request is taken out of its queue and its task is through, but its memory is not released. -/
theorem event_released_not : ∃ s, (queueMachine (· == 7)).Reachable s ∧ 0 < s.created ∧
    (s.event 0).kind = .request ∧ (s.event 0).owner = .none ∧ (s.queue 0).dequeued = [0] ∧
    (s.event 0).ref = 1 ∧ (s.event 0).freed = 0 ∧ ¬Released s 0 := by
  obtain ⟨s, h, created, kind, owner, dequeued, ref, freed, live⟩ := Machine.exists_reach
    (M := queueMachine (· == 7)) (g := Orderly)
    (P := fun s => 0 < s.created ∧ (s.event 0).kind = .request ∧ (s.event 0).owner = .none ∧
      (s.queue 0).dequeued = [0] ∧ (s.event 0).ref = 1 ∧ (s.event 0).freed = 0 ∧ (s.event 0).live = false)
    [.transfer 0, .submit 0 0, .next 0, .next 0, .run 1 0, .next 1, .next 1, .next 1, .next 1, .next 1, .next 1,
      .next 1] rfl (by decide)
  refine ⟨s, h.reachable, created, kind, owner, dequeued, ref, freed, fun released => ?_⟩
  obtain ⟨G, I, -⟩ := reach_inv (J := fun _ _ => True) (fun _ _ => trivial) (fun _ _ _ _ _ _ _ => trivial) h
  have out := ((I.places.live 0).1 live).2
  have one : (s.event 0).freed = 1 := by
    apply released.dropped owner
    · rw [I.inQueue, out]
      exact id
    · intro a q at'
      have place := I.places.place a
      rw [at'] at place
      cases out.symm.trans place.1
  rw [freed] at one
  cases one

end Released
end Kupl.Events
