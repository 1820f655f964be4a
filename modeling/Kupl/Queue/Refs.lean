import Kupl.Queue.Steps
import Mathlib.Tactic.Linarith

/-!
# The references of an event

How many references an event and its task have, and when their memory is released. An event has a reference
for who created it and one for the queue it is in; its task has one for the event, one from `kupl_event_init`
until `kupl_task_finish` is through and one for each thread in `kupl_queue_wait`. An event of
`kupl_queue_submit_request` has a reference more that nobody drops. No move breaks the count (`Refs.move`).

C++ → Lean naming: `kupl_event_ref`, `kupl_event_deref` → `Event.refs`; `kupl_task_ref`, `kupl_task_deref` →
`Event.taskRefs`.
-/

namespace Kupl.Events
open Dag
open Function (update update_eq_self update_of_ne update_self)

/-- The queue has a reference of the event. -/
def Stage.Held : Stage → Prop
  | .pending | .lost | .ready | .handed _ | .item _ | .flagged _ | .dequeuing _ => True
  | _ => False

instance : (g : Stage) → Decidable g.Held
  | .pending | .lost | .ready | .handed _ | .item _ | .flagged _ | .dequeuing _ => .isTrue trivial
  | .out | .clearing _ | .finishing _ => .isFalse not_false

lemma Stage.Member.held {g : Stage} (h : g.Member) : g.Held := by
  cases g <;> first | exact h.elim | trivial

namespace Event
variable (E : Event)

/-- The references of an event. -/
def refs (held : Bool) : Int :=
  (if E.owner = .none then 0 else 1) + (if held then 1 else 0) +
    if E.kind = .request ∧ E.owner = .none ∧ E.status ≠ .created then 1 else 0

/-- The references of its task, with those of the agents. -/
def taskRefs (pins : Nat) : Int :=
  (if E.ref = 0 then 0 else 1) + (if E.live then 1 else 0) + pins

end Event

/-- The references are counted, and the memory is released with the last of them. -/
structure Counted (E : Event) (held : Bool) (pins : Nat) : Prop where
  ref : E.ref = E.refs held
  freed : E.freed = if E.ref = 0 then 1 else 0
  taskRef : E.taskRef = E.taskRefs pins
  taskFreed : E.taskFreed = if E.taskRef = 0 then 1 else 0
  request : E.kind = .request → E.owner ≠ .none → E.status = .created

section Counted
variable {E F : Event} {held held' : Bool} {pins : Nat}

lemma drop_freed {n : Int} {freed : Nat} (ge : 1 ≤ n) (h : freed = if n = 0 then 1 else 0) :
    (if n = 1 then freed + 1 else freed) = if n - 1 = 0 then 1 else 0 := by
  rw [if_neg (by omega)] at h
  subst h
  by_cases last : n = 1
  · rw [if_pos last, if_pos (by omega)]
  · rw [if_neg last, if_neg (by omega)]

lemma Event.refs_nonneg : 0 ≤ E.refs held := by
  unfold refs
  split <;> split <;> split <;> decide

lemma Event.refs_drop : E.refs false = E.refs true - 1 := by
  unfold refs
  rw [if_pos rfl, if_neg Bool.false_ne_true]
  linarith

lemma Event.taskRefs_up (ref : F.ref = E.ref) (off : E.live = false) (on : F.live = true) :
    F.taskRefs pins = E.taskRefs pins + 1 := by
  unfold taskRefs
  rw [ref, off, on, if_pos rfl, if_neg Bool.false_ne_true]
  linarith

lemma Event.taskRefs_pin (ref : F.ref = E.ref) (on : E.live = true) (off : F.live = false) :
    F.taskRefs (pins + 1) = E.taskRefs pins := by
  unfold taskRefs
  rw [ref, off, on, if_pos rfl, if_neg Bool.false_ne_true]
  push_cast
  linarith

lemma Counted.congr (C : Counted E held pins) {pins' : Nat} (refs : F.refs held' = E.refs held)
    (same : F.ref = E.ref ∧ F.freed = E.freed ∧ F.taskRef = E.taskRef ∧ F.taskFreed = E.taskFreed)
    (tasks : F.taskRefs pins' = E.taskRefs pins)
    (request : F.kind = .request → F.owner ≠ .none → F.status = .created) : Counted F held' pins' := by
  obtain ⟨ref, freed, taskRef, taskFreed⟩ := same
  refine ⟨?_, ?_, ?_, ?_, request⟩
  · rw [ref, refs, C.ref]
  · rw [freed, ref, C.freed]
  · rw [taskRef, tasks, C.taskRef]
  · rw [taskFreed, taskRef, C.taskFreed]

lemma Counted.has (C : Counted E held pins) (h : E.owner ≠ .none ∨ held = true) : E.ref ≠ 0 := by
  rw [C.ref]
  unfold Event.refs
  rcases h with h | h
  · rw [if_neg h]
    split <;> split <;> decide
  · rw [if_pos h]
    split <;> split <;> decide

lemma Counted.deref (C : Counted E held pins) (refs : F.refs held' = E.refs held - 1)
    (same : F.ref = E.ref ∧ F.freed = E.freed ∧ F.taskRef = E.taskRef ∧ F.taskFreed = E.taskFreed ∧
      F.live = E.live)
    (request : F.kind = .request → F.owner ≠ .none → F.status = .created) : Counted F.deref held' pins := by
  obtain ⟨ref, freed, taskRef, taskFreed, live⟩ := same
  have pos : 1 ≤ E.ref := by
    have nonneg : 0 ≤ F.refs held' := F.refs_nonneg
    rw [C.ref]
    omega
  have count := C.ref
  have tasks := C.taskRef
  have old := C.freed
  have oldTask := C.taskFreed
  unfold Event.taskRefs at tasks
  unfold Event.deref
  rw [ref]
  split
  · rw [if_neg (by omega)] at tasks old
    refine ⟨?_, ?_, ?_, ?_, request⟩
    · exact (show (0 : Int) = F.refs held' by omega)
    · simp only [Event.taskDeref, if_true]
      rw [freed, old]
    · simp only [Event.taskDeref, Event.taskRefs, if_true, live, taskRef]
      linarith
    · simp only [Event.taskDeref, taskRef, taskFreed]
      have ge : 1 ≤ E.taskRef := by
        rw [tasks]
        split <;> omega
      exact drop_freed ge oldTask
  · rw [if_neg (by omega)] at tasks old
    refine ⟨?_, ?_, ?_, ?_, request⟩
    · exact (show E.ref - 1 = F.refs held' by omega)
    · simp only [freed]
      rw [old, if_neg (by omega)]
    · simp only [Event.taskRefs, live, taskRef]
      rw [if_neg (by omega), tasks]
    · simp only [taskFreed, taskRef]
      exact oldTask

lemma Counted.taskDeref (C : Counted E held (pins + 1)) : Counted E.taskDeref held pins := by
  have tasks := C.taskRef
  unfold Event.taskRefs at tasks
  refine ⟨C.ref, C.freed, ?_, ?_, C.request⟩
  · show E.taskRef - 1 = E.taskRefs pins
    unfold Event.taskRefs
    push_cast at tasks
    linarith
  · have ge : 1 ≤ E.taskRef := by
      rw [tasks]
      split <;> split <;> omega
    exact drop_freed ge C.taskFreed

lemma Counted.take (C : Counted E held pins) (has : E.ref ≠ 0) {pins' : Nat}
    (same : F.ref = E.ref ∧ F.freed = E.freed ∧ F.taskRef = E.taskRef + 1 ∧ F.taskFreed = E.taskFreed)
    (refs : F.refs held' = E.refs held) (tasks : F.taskRefs pins' = E.taskRefs pins + 1)
    (request : F.kind = .request → F.owner ≠ .none → F.status = .created) : Counted F held' pins' := by
  obtain ⟨ref, freed, taskRef, taskFreed⟩ := same
  have old := C.taskFreed
  have ge : 1 ≤ E.taskRef := by
    rw [C.taskRef, Event.taskRefs, if_neg has]
    split <;> omega
  refine ⟨?_, ?_, ?_, ?_, request⟩
  · rw [ref, refs, C.ref]
  · rw [freed, ref, C.freed]
  · rw [taskRef, tasks, C.taskRef]
  · rw [taskFreed, taskRef, old, if_neg (by omega), if_neg (by omega)]

lemma Counted.submit (C : Counted E false pins) (owner : E.owner ≠ .none) (item : Nat) (linking : Bool) :
    Counted (E.submit item linking) true pins := by
  have has := C.has (.inl owner)
  have ref := C.ref
  have old := C.freed
  have tasks := C.taskRef
  rw [if_neg has] at old
  unfold Event.refs at ref
  rw [if_neg owner, if_neg (by simp), if_neg (by simp [owner])] at ref
  have more : (E.submit item linking).ref = (E.submit item linking).refs true ∧
      (E.submit item linking).ref ≠ 0 := by
    unfold Event.submit Event.refs
    cases kind : E.kind <;> simp [ref, owner]
  refine ⟨more.1, ?_, ?_, C.taskFreed, ?_⟩
  · rw [if_neg more.2]
    exact old
  · unfold Event.taskRefs at tasks ⊢
    rw [if_neg has] at tasks
    rw [if_neg more.2]
    exact tasks
  · intro kind other
    have kind' : E.kind = .request := kind
    simp [Event.submit, kind'] at other

end Counted

/-- The agents that have a reference of the task of each event. -/
def Pinned (s : State) (pins : Nat → Finset Nat) : Prop := ∀ a e, a ∈ pins e ↔ (s.pc a).Pins e

/-- The references in a state are counted. -/
structure Refs (s : State) (G : Ghost) (pins : Nat → Finset Nat) : Prop where
  pinned : Pinned s pins
  counted : ∀ e < s.created, Counted (s.event e) (decide (G.life e).stage.Held) (pins e).card

section Refs
variable {s s' : State} {G G' : Ghost} {pins : Nat → Finset Nat} {a e p q k n : Nat} {ps : List Nat} {pc : Pc}

lemma Pinned.same (h : Pinned s pins) (hpc : s'.pc = update s.pc a pc)
    (same : ∀ t, pc.Pins t ↔ (s.pc a).Pins t) : Pinned s' pins := by
  intro b t
  rw [hpc]
  by_cases eq : b = a
  · subst eq
    rw [update_self, same]
    exact h b t
  · rw [update_of_ne eq]
    exact h b t

lemma Pinned.take (h : Pinned s pins) (hpc : s'.pc = update s.pc a pc)
    (old : ∀ t, ¬(s.pc a).Pins t) (new : ∀ t, pc.Pins t ↔ e = t) :
    Pinned s' (update pins e (insert a (pins e))) ∧ (insert a (pins e)).card = (pins e).card + 1 := by
  have out : ∀ t, a ∉ pins t := fun t mem => old t ((h a t).1 mem)
  refine ⟨fun b t => ?_, Finset.card_insert_of_notMem (out e)⟩
  rw [hpc]
  by_cases at' : t = e
  · subst at'
    rw [update_self, Finset.mem_insert]
    by_cases eq : b = a
    · subst eq
      simp [new]
    · simp [eq, h b t]
  · rw [update_of_ne at']
    by_cases eq : b = a
    · subst eq
      simp [new, out, Ne.symm at']
    · simp [eq, h b t]

lemma Pinned.drop (h : Pinned s pins) (hpc : s'.pc = update s.pc a pc)
    (old : ∀ t, (s.pc a).Pins t ↔ e = t) (new : ∀ t, ¬pc.Pins t) :
    Pinned s' (update pins e ((pins e).erase a)) ∧ (pins e).card = ((pins e).erase a).card + 1 := by
  have mem : a ∈ pins e := (h a e).2 ((old e).2 rfl)
  refine ⟨fun b t => ?_, (Finset.card_erase_add_one mem).symm⟩
  rw [hpc]
  by_cases at' : t = e
  · subst at'
    rw [update_self, Finset.mem_erase]
    by_cases eq : b = a
    · subst eq
      simp [new]
    · simp [eq, h b t]
  · rw [update_of_ne at']
    by_cases eq : b = a
    · subst eq
      simp [new, h b t, old, Ne.symm at']
    · simp [eq, h b t]

section
variable (R : Refs s G pins)
include R

lemma Refs.still (pinned : Pinned s' pins) (created : s'.created = s.created)
    (held : ∀ t, (G'.life t).stage.Held ↔ (G.life t).stage.Held)
    (refs : ∀ t, t < s.created → ∀ h, (s'.event t).refs h = (s.event t).refs h)
    (same : ∀ t, (s'.event t).ref = (s.event t).ref ∧ (s'.event t).freed = (s.event t).freed ∧
      (s'.event t).taskRef = (s.event t).taskRef ∧ (s'.event t).taskFreed = (s.event t).taskFreed ∧
      (s'.event t).live = (s.event t).live)
    (request : ∀ t, t < s.created → (s'.event t).kind = .request → (s'.event t).owner ≠ .none →
      (s'.event t).status = .created) : Refs s' G' pins := by
  refine ⟨pinned, fun t lt => ?_⟩
  rw [created] at lt
  have eq : decide (G'.life t).stage.Held = decide (G.life t).stage.Held := decide_eq_decide.2 (held t)
  rw [eq]
  obtain ⟨ref, freed, taskRef, taskFreed, live⟩ := same t
  refine (R.counted t lt).congr (refs t lt _) ⟨ref, freed, taskRef, taskFreed⟩ ?_ (request t lt)
  unfold Event.taskRefs
  rw [ref, live]

lemma Refs.one {N : Finset Nat} (pinned : Pinned s' (update pins e N))
    (created : s'.created = s.created) (held : ∀ t, t ≠ e → ((G'.life t).stage.Held ↔ (G.life t).stage.Held))
    (others : ∀ t, t ≠ e → s'.event t = s.event t)
    (here : Counted (s.event e) (decide (G.life e).stage.Held) (pins e).card →
      Counted (s'.event e) (decide (G'.life e).stage.Held) N.card) :
    Refs s' G' (update pins e N) := by
  refine ⟨pinned, fun t lt => ?_⟩
  rw [created] at lt
  by_cases eq : t = e
  · subst eq
    rw [update_self]
    exact here (R.counted t lt)
  · have same : decide (G'.life t).stage.Held = decide (G.life t).stage.Held := decide_eq_decide.2 (held t eq)
    rw [update_of_ne eq, others t eq, same]
    exact R.counted t lt

lemma Refs.enter (P : Places s G) (hpc : s.pc a = .armed e q) : Refs (s.enter a e q)
      (G.enter s a e q) pins := by
  obtain ⟨author, out, -⟩ := P.here hpc
  have uses := P.uses a
  rw [hpc] at uses
  have owner : (s.event e).owner ≠ .none := by
    rcases uses.1 with own | ⟨own, -⟩ <;> rw [own] <;> nofun
  have pinned : Pinned (s.enter a e q) pins := R.pinned.same rfl fun t => by rw [hpc]; rfl
  rw [← update_eq_self e pins] at pinned ⊢
  refine R.one pinned rfl (fun t ne => ?_) (fun t ne => ?_) fun C => ?_
  · rw [show ((G.set e _).setLock q _).life t = G.life t from update_of_ne ne ..]
  · simp [State.enter, State.enqueue, ne]
  · rw [out] at C
    have new := C.submit owner (s.queue q).items.length (!(s.sources e q).isEmpty)
    simpa [State.enter, State.enqueue, Ghost.set, Ghost.setLock, Stage.Held] using new

lemma Refs.destroy (P : Places s G) (owner : (s.event e).owner ≠ .none) : Refs (s.destroy e) G pins := by
  have lt : e < s.created := P.lt (.inr fun eq => owner (by rw [eq]; rfl))
  have pinned : Pinned (s.destroy e) pins := R.pinned
  rw [← update_eq_self e pins] at pinned ⊢
  refine R.one pinned rfl (fun t _ => Iff.rfl) (fun t ne => ?_) fun C => ?_
  · simp [State.destroy, ne]
  · have refs : ({ s.event e with owner := .none } : Event).refs (decide (G.life e).stage.Held) =
        (s.event e).refs (decide (G.life e).stage.Held) - 1 := by
      by_cases kind : (s.event e).kind = .request
      · simp [Event.refs, owner, kind, C.request kind owner]
      · simp [Event.refs, owner, kind]
    simpa [State.destroy] using C.deref refs ⟨rfl, rfl, rfl, rfl, rfl⟩ fun _ h => absurd rfl h

omit R in
lemma Pc.Calm.unpinned (h : pc.Calm) : ¬pc.Pins e := by
  cases pc <;> first | exact h.elim | exact id

lemma Refs.arm {kind : Kind} {wait : Option Nat} (hpc : (s.pc a).Calm) (live : (s.event e).live = false)
    (owner : (s.event e).owner ≠ .none) (request : kind ≠ .record → (s.event e).status = .created) :
    Refs ((s.eventInit e kind wait q).setPc a (.armed e q))
      (G.arm a e) pins := by
  have pinned : Pinned ((s.eventInit e kind wait q).setPc a (.armed e q)) pins :=
    R.pinned.same rfl fun _ => ⟨False.elim, hpc.unpinned⟩
  have held : ∀ t, ((G.arm a e).life t).stage = (G.life t).stage := by
    intro t
    by_cases eq : t = e
    · subst eq
      simp [Ghost.set]
    · simp [Ghost.set, eq]
  rw [← update_eq_self e pins] at pinned ⊢
  refine R.one pinned rfl (fun t _ => by rw [held]) (fun t ne => ?_) fun C => ?_
  · simp [State.eventInit, ne]
  · have new : Counted ((s.event e).init kind wait q) (decide (G.life e).stage.Held) (pins e).card := by
      refine C.take (C.has (.inl owner)) ⟨rfl, rfl, rfl, rfl⟩ ?_ ?_ ?_
      · simp [Event.refs, Event.init, owner]
      · exact Event.taskRefs_up rfl live rfl
      · intro eq _
        exact request (by rw [show kind = .request from eq]; rintro ⟨⟩)
    rw [held]
    simpa [State.eventInit] using new

lemma Refs.release (P : Places s G) (E : Edges s G) (hpc : s.pc a = .finishing e) :
    Refs (s.finished a e)
      (G.release a e) (update pins e (insert a (pins e))) := by
  have stage : (G.life e).stage = .finishing a := P.here hpc
  have live : (s.event e).live = true := by
    rw [← Bool.not_eq_false, P.live]
    rw [stage]
    nofun
  obtain ⟨pinned, card⟩ : Pinned (s.finished a e)
      (update pins e (insert a (pins e))) ∧ _ :=
    R.pinned.take rfl (by rw [hpc]; exact fun _ => id) fun _ => Iff.rfl
  refine R.one pinned rfl (fun t ne => ?_) (fun t ne => by simp [ne]) fun C => ?_
  · obtain same | ⟨old, new | new⟩ := E.release_stage (a := a) ne
    · rw [same]
    · rw [old, new]
      exact Iff.rfl
    · rw [old, new]
      exact Iff.rfl
  · rw [card]
    have out : decide ((G.release a e).life e).stage.Held = decide (G.life e).stage.Held := by
      apply decide_eq_decide.2
      rw [stage]
      simp [Stage.Held]
    have new : Counted { s.event e with live := false } (decide (G.life e).stage.Held) ((pins e).card + 1) :=
      C.congr rfl ⟨rfl, rfl, rfl, rfl⟩ (Event.taskRefs_pin rfl live rfl) C.request
    rw [out]
    simpa using new

lemma Refs.drop (old : ∀ t, (s.pc a).Pins t ↔ e = t) : Refs ((s.setEvent e (s.event e).taskDeref).setPc a .idle) G
      (update pins e ((pins e).erase a)) := by
  obtain ⟨pinned, card⟩ : Pinned ((s.setEvent e (s.event e).taskDeref).setPc a .idle)
      (update pins e ((pins e).erase a)) ∧ _ := R.pinned.drop rfl old fun _ => id
  refine R.one pinned rfl (fun t _ => Iff.rfl) (fun t ne => by simp [ne]) fun C => ?_
  rw [card] at C
  simpa using C.taskDeref

lemma Refs.create (P : Places s G) (K : Known s G) {o : Owner} (some : o ≠ .none) : Refs (s.create o) G pins := by
  obtain ⟨life, event⟩ := P.fresh s.created le_rfl
  have empty : pins s.created = ∅ := by
    rw [Finset.eq_empty_iff_forall_notMem]
    intro b mem
    apply K.pins b s.created ((R.pinned b _).1 mem)
    rw [event]
    rfl
  refine ⟨R.pinned, fun t lt => ?_⟩
  by_cases eq : t = s.created
  · subst eq
    have out : decide Life.blank.stage.Held = false := decide_eq_false id
    have new : Counted (eventCreate o) false 0 := by
      constructor <;> simp [eventCreate, eventBlank, Event.refs, Event.taskRefs, some]
    rw [life, empty, out]
    simpa [State.create] using new
  · have less : t < s.created := lt_of_le_of_ne (Nat.lt_succ_iff.1 lt) eq
    simpa [State.create, eq] using R.counted t less

lemma Refs.wait (P : Places s G) (L : Lines s G) (hpc : s.pc a = .idle)
    (unlocked : (s.queue q).locked = false) (last : (s.queue q).lastEvent = some e) :
    Refs ((s.setEvent e { s.event e with taskRef := (s.event e).taskRef + 1 }).setPc a
      (.waiting q (some e) n)) G (update pins e (insert a (pins e))) := by
  have free : LastOk (s.queue q) .free := (P.locked q).1 unlocked ▸ L.last q
  obtain ⟨m, hm, -⟩ := (L.line q).of_lastOf le_rfl (free.symm.trans last)
  have held := (of_members hm).1.held
  obtain ⟨pinned, card⟩ : Pinned ((s.setEvent e { s.event e with taskRef := (s.event e).taskRef + 1 }).setPc a
      (.waiting q (some e) n)) (update pins e (insert a (pins e))) ∧ _ :=
    R.pinned.take rfl (by rw [hpc]; exact fun _ => id) fun _ => Iff.rfl
  refine R.one pinned rfl (fun t _ => Iff.rfl) (fun t ne => by simp [ne]) fun C => ?_
  have new : Counted { s.event e with taskRef := (s.event e).taskRef + 1 } (decide (G.life e).stage.Held)
      ((pins e).card + 1) := by
    refine C.take (C.has (.inr (decide_eq_true held))) ⟨rfl, rfl, rfl, rfl⟩ rfl ?_ C.request
    show Event.taskRefs _ _ = _
    unfold Event.taskRefs
    push_cast
    exact (add_assoc _ _ _).symm
  rw [card]
  simpa using new

lemma Refs.deref (P : Places s G) (hpc : s.pc a = .dequeuing e q) :
    Refs ((s.setEvent e (s.event e).deref).setPc a (.clearing e q)) (G.setStage e (.clearing a)) pins := by
  have here := P.here hpc
  have pinned : Pinned ((s.setEvent e (s.event e).deref).setPc a (.clearing e q)) pins :=
    R.pinned.same rfl fun t => by rw [hpc]; exact Iff.rfl
  rw [← update_eq_self e pins] at pinned ⊢
  refine R.one pinned rfl (fun t ne => by rw [G.setStage_ne ne]) (fun t ne => by simp [ne]) fun C => ?_
  have on : decide (G.life e).stage.Held = true := by
    rw [here.1]
    exact decide_eq_true trivial
  have off : decide ((G.setStage e (.clearing a)).life e).stage.Held = false := by
    rw [G.setStage_self]
    exact decide_eq_false id
  rw [on] at C
  rw [off]
  have new : Counted (s.event e).deref false (pins e).card :=
    C.deref Event.refs_drop ⟨rfl, rfl, rfl, rfl, rfl⟩ C.request
  simpa using new

lemma Refs.turn (hpc : s'.pc = update s.pc a pc)
    (pinned : ∀ t, pc.Pins t ↔ (s.pc a).Pins t) (created : s'.created = s.created)
    (held : ∀ t, (G'.life t).stage.Held ↔ (G.life t).stage.Held)
    (static : ∀ t, (s'.event t).kind = (s.event t).kind ∧ (s'.event t).owner = (s.event t).owner ∧
      ((s'.event t).status = .created ↔ (s.event t).status = .created))
    (same : ∀ t, (s'.event t).ref = (s.event t).ref ∧ (s'.event t).freed = (s.event t).freed ∧
      (s'.event t).taskRef = (s.event t).taskRef ∧ (s'.event t).taskFreed = (s.event t).taskFreed ∧
      (s'.event t).live = (s.event t).live) : Refs s' G' pins := by
  refine R.still (R.pinned.same hpc pinned) created held (fun t _ h => ?_) same fun t lt => ?_
  · obtain ⟨kind, owner, status⟩ := static t
    simp only [Event.refs, kind, owner, ne_eq, status]
  · obtain ⟨kind, owner, status⟩ := static t
    rw [kind, owner, status]
    exact (R.counted t lt).request

end

/-- No move miscounts the references. -/
theorem Refs.move (R : Refs s G pins) (P : Places s G) (E : Edges s G) (K : Known s G) (L : Lines s G)
    (m : Move s G s' G') : ∃ pins', Refs s' G' pins' := by
  have same : ∀ t, (s.event t).ref = (s.event t).ref ∧ (s.event t).freed = (s.event t).freed ∧
      (s.event t).taskRef = (s.event t).taskRef ∧ (s.event t).taskFreed = (s.event t).taskFreed ∧
      (s.event t).live = (s.event t).live := fun _ => ⟨rfl, rfl, rfl, rfl, rfl⟩
  have static : ∀ t, (s.event t).kind = (s.event t).kind ∧ (s.event t).owner = (s.event t).owner ∧
      ((s.event t).status = .created ↔ (s.event t).status = .created) := fun _ => ⟨rfl, rfl, Iff.rfl⟩
  have keep : ∀ {e : Nat} {F : Event}, F.ref = (s.event e).ref → F.freed = (s.event e).freed →
      F.taskRef = (s.event e).taskRef → F.taskFreed = (s.event e).taskFreed → F.live = (s.event e).live →
      ∀ t, (update s.event e F t).ref = (s.event t).ref ∧ (update s.event e F t).freed = (s.event t).freed ∧
        (update s.event e F t).taskRef = (s.event t).taskRef ∧
        (update s.event e F t).taskFreed = (s.event t).taskFreed ∧
        (update s.event e F t).live = (s.event t).live :=
    fun r f tr tf l t => ⟨update_field Event.ref r, update_field Event.freed f, update_field Event.taskRef tr,
      update_field Event.taskFreed tf, update_field Event.live l⟩
  have stay : ∀ {e : Nat} {F : Event}, F.kind = (s.event e).kind → F.owner = (s.event e).owner →
      (F.status = .created ↔ (s.event e).status = .created) →
      ∀ t, (update s.event e F t).kind = (s.event t).kind ∧ (update s.event e F t).owner = (s.event t).owner ∧
        ((update s.event e F t).status = .created ↔ (s.event t).status = .created) := by
    intro e F k o st t
    refine ⟨update_field Event.kind k, update_field Event.owner o, ?_⟩
    by_cases eq : t = e
    · subst eq
      rwa [update_self]
    · rw [update_of_ne eq]
  -- a stage of one event that the queue holds as before
  have staged : ∀ {e : Nat} {M : Life}, (M.stage.Held ↔ (G.life e).stage.Held) →
      ∀ t, ((G.set e M).life t).stage.Held ↔ (G.life t).stage.Held := by
    intro e M h t
    by_cases eq : t = e
    · subst eq
      simpa [Ghost.set] using h
    · simp [Ghost.set, eq]
  cases m with
  | queue q requests inPlace => exact ⟨pins, R.still R.pinned rfl (fun _ => Iff.rfl) (fun _ _ _ => rfl) same
      fun t lt => (R.counted t lt).request⟩
  | users e us =>
    exact ⟨pins, R.turn (a := 0) (update_eq_self _ _).symm (fun _ => Iff.rfl) rfl (fun _ => Iff.rfl)
      (stay rfl rfl Iff.rfl) (keep rfl rfl rfl rfl rfl)⟩
  | create o some => exact ⟨pins, R.create P K some⟩
  | destroy e owner => exact ⟨pins, R.destroy P owner⟩
  | turn calm calm' =>
    exact ⟨pins, R.turn rfl (fun _ => ⟨fun h => absurd h calm'.unpinned, fun h => absurd h calm.unpinned⟩) rfl
      (fun _ => Iff.rfl) static same⟩
  | arm calm live own other lt waits request =>
    refine ⟨pins, R.arm calm live ?_ request⟩
    rcases own with own | ⟨own, -⟩ <;> rw [own] <;> rintro ⟨⟩
  | enter hpc unlocked => exact ⟨pins, R.enter P hpc⟩
  | @skip a e q p n ps hpc fin | @count a e q p n ps hpc =>
    exact ⟨pins, R.turn rfl (by rw [hpc]; exact fun _ => Iff.rfl) rfl (staged Iff.rfl) (stay rfl rfl Iff.rfl)
      (keep rfl rfl rfl rfl rfl)⟩
  | @insert a e q p n ps hpc unfinished | @submitted a e q n hpc | @leave a e q hpc =>
    exact ⟨pins, R.turn rfl (by rw [hpc]; exact fun _ => Iff.rfl) rfl (staged Iff.rfl) static same⟩
  | @schedule a e q hpc =>
    have here := P.here hpc
    have pending := (E.begun e (by rw [here.link])).2.2 (by rw [here.link])
    rw [State.schedAddTb_eq here.home]
    exact ⟨pins, R.turn rfl (by rw [hpc]; exact fun _ => Iff.rfl) rfl (staged (by rw [pending]; exact Iff.rfl))
      static same⟩
  | @wait a q e hpc unlocked busy last => exact ⟨_, R.wait P L hpc unlocked last⟩
  | pass hpc | passed hpc =>
    exact ⟨pins, R.turn rfl (by rw [hpc]; exact fun _ => Iff.rfl) rfl (fun _ => Iff.rfl) static same⟩
  | waited hpc | finished hpc => exact ⟨_, R.drop (by rw [hpc]; exact fun _ => Iff.rfl)⟩
  | @run a e q hpc home mem =>
    have stage := (P.ready e).1 mem
    exact ⟨pins, R.turn rfl (by rw [hpc]; exact fun _ => Iff.rfl) rfl (staged (by rw [stage]; exact Iff.rfl))
      static same⟩
  | @stop a e q k hpc | @dequeue a e q k hpc home =>
    have here := P.here hpc
    have known := K.stage e (by rw [here.1]; rintro ⟨⟩)
    exact ⟨pins, R.turn rfl (by rw [hpc]; exact fun _ => Iff.rfl) rfl (staged (by rw [here.1]; exact Iff.rfl))
      (stay rfl rfl ⟨(by rintro ⟨⟩), fun h => absurd h known⟩) (keep rfl rfl rfl rfl rfl)⟩
  | @deref a e q hpc => exact ⟨pins, R.deref P hpc⟩
  | @clear a e q hpc =>
    have here := P.here hpc
    exact ⟨pins, R.turn rfl (by rw [hpc]; exact fun _ => Iff.rfl) rfl (staged (by rw [here.1]; exact Iff.rfl))
      static same⟩
  | finish hpc =>
    exact ⟨pins, R.turn rfl (by rw [hpc]; exact fun _ => Iff.rfl) rfl (fun _ => Iff.rfl) (stay rfl rfl Iff.rfl)
      (keep rfl rfl rfl rfl rfl)⟩
  | release hpc ok => exact ⟨_, R.release P E hpc⟩
  | @add a e t ts hpc =>
    obtain ⟨q, stage, -, sched⟩ := P.scheduled hpc
    rw [sched]
    exact ⟨pins, R.turn rfl (by rw [hpc]; exact fun _ => Iff.rfl) rfl (staged (by rw [stage]; exact Iff.rfl))
      static same⟩

/-- An executor that takes an event out of its queue is in `kupl_dequeue_event`. -/
def Dequeues (s : State) (G : Ghost) : Prop :=
  ∀ e a, (G.life e).stage = .dequeuing a → ∃ q, s.pc a = .dequeuing e q

lemma Dequeues.turn (D : Dequeues s G) (hpc : s'.pc = update s.pc a pc) (old : ∀ t q, s.pc a ≠ .dequeuing t q)
    (stage : ∀ t b, (G'.life t).stage = .dequeuing b → (G.life t).stage = .dequeuing b) : Dequeues s' G' := by
  intro t b h
  obtain ⟨q, at'⟩ := D t b (stage t b h)
  have ne : b ≠ a := by
    rintro rfl
    exact old t q at'
  exact ⟨q, by rw [hpc, update_of_ne ne, at']⟩

/-- No move takes an executor out of `kupl_dequeue_event` before it has dropped the reference of the queue. -/
theorem Dequeues.move (D : Dequeues s G) (P : Places s G) (m : Move s G s' G') : Dequeues s' G' := by
  have set : ∀ {e : Nat} {M : Life}, (∀ b, M.stage = .dequeuing b → (G.life e).stage = .dequeuing b) →
      ∀ t b, ((G.set e M).life t).stage = .dequeuing b → (G.life t).stage = .dequeuing b := by
    intro e M h t b at'
    by_cases eq : t = e
    · subst eq
      rw [show ((G.set t M).life t) = M from update_self ..] at at'
      exact h b at'
    · rwa [show ((G.set e M).life t) = G.life t from update_of_ne eq ..] at at'
  cases m with
  | queue | users | create | destroy => exact D
  | turn calm => exact D.turn rfl (fun t q at' => by rw [at'] at calm; exact calm) fun _ _ => id
  | arm calm => exact D.turn rfl (fun t q at' => by rw [at'] at calm; exact calm) (set fun _ => id)
  | enter hpc | run hpc | stop hpc | clear hpc =>
    exact D.turn rfl (by rw [hpc]; rintro _ _ ⟨⟩) (set (by rintro _ ⟨⟩))
  | skip hpc | insert hpc | count hpc | submitted hpc | leave hpc =>
    exact D.turn rfl (by rw [hpc]; rintro _ _ ⟨⟩) (set fun _ => id)
  | @schedule a e q hpc =>
    have here := P.here hpc
    rw [State.schedAddTb_eq here.home]
    exact D.turn rfl (by rw [hpc]; rintro _ _ ⟨⟩) (set (by rintro _ ⟨⟩))
  | wait hpc | pass hpc | waited hpc | passed hpc | finish hpc | finished hpc =>
    exact D.turn rfl (by rw [hpc]; rintro _ _ ⟨⟩) fun _ _ => id
  | @dequeue a e q k hpc =>
    intro t b h
    by_cases eq : t = e
    · subst eq
      cases (G.setStage_self (e := t)).symm.trans h
      exact ⟨q, update_self ..⟩
    · have other : Dequeues ((s.dequeue e q k).setPc a (.dequeuing e q)) G :=
        D.turn rfl (by rw [hpc]; rintro _ _ ⟨⟩) fun _ _ => id
      exact other t b ((G.setStage_ne eq).symm.trans h)
  | @deref a e q hpc =>
    intro t b h
    have here := P.here hpc
    by_cases eq : t = e
    · subst eq
      cases (G.setStage_self (e := t)).symm.trans h
    · obtain ⟨q', at'⟩ := D t b ((G.setStage_ne eq).symm.trans h)
      have ne : b ≠ a := by
        rintro rfl
        rw [hpc] at at'
        cases at'
        exact eq rfl
      exact ⟨q', (update_of_ne ne ..).trans at'⟩
  | @release a e hpc =>
    refine D.turn rfl (by rw [hpc]; rintro _ _ ⟨⟩) fun t b h => ?_
    simp only [Ghost.release] at h
    split at h
    · cases h
    · simp only [Life.released] at h
      split at h
      · split at h <;> cases h
      · exact h
  | @add a e t ts hpc =>
    obtain ⟨q, stage, -, sched⟩ := P.scheduled hpc
    rw [sched]
    exact D.turn rfl (by rw [hpc]; rintro _ _ ⟨⟩) (set (by rintro _ ⟨⟩))

end Refs
end Kupl.Events
