import Kupl.Queue.Steps

/-!
# The items of a queue run one at a time

Whatever threads and executors do, as long as nobody meets an event half-way the functions of the items of a
queue that is not synchronous are run one at a time in the order of the items, `event_count` is the number
of the items that were not dequeued, `last_event` is the event of the last one of them when nobody has the
lock, and `kupl_queue_wait` returns behind all items that were enqueued before it (`queue_serial`). A
synchronous queue runs the function of each `kupl_queue_submit` on the thread that calls it, and there are
as many of them at once as there are callers (`queue_serial_not`).
-/

namespace Kupl.Events
open Dag List

/-- The numbers of the items that were enqueued and not dequeued. -/
def Queue.held (Q : Queue) : List Nat := (List.range Q.items.length).filter (· ∉ Q.dequeued)

/-- A queue runs its items one at a time, in their order. -/
structure Serial (s : State) (q : Nat) : Prop where
  enqueued : ∀ a, s.pc a ≠ .inPlace q
  one : ∀ a b e e' k k', s.pc a = .item e q k → s.pc b = .item e' q k' → a = b
  own : ∀ a e k, s.pc a = .item e q k → (s.queue q).events[k]? = some e
  trace : ∃ n, (s.queue q).trace = (List.range n).map mark
  count : (s.queue q).eventCount = (s.queue q).held.length
  last : (s.queue q).locked = false → (s.queue q).lastEvent = (s.queue q).held.getLast?.bind ((s.queue q).events[·]?)
  null : (s.queue q).locked = false → ((s.queue q).lastEvent = none ↔ (s.queue q).eventCount = 0)
  wait : ∀ a task before, s.pc a = .waiting q task before → step s a ≠ none →
    ∀ k < before, .stop k ∈ (s.queue q).trace

section Held
variable {M : Nat → Option Member} {Q : Queue}

lemma Line.held_eq (L : Line M Q) : Q.held = List.range' Q.dequeued.length (Q.items.length - Q.dequeued.length) := by
  have le := L.le
  have split : List.range Q.items.length = List.range Q.dequeued.length ++
      List.range' Q.dequeued.length (Q.items.length - Q.dequeued.length) := by
    have append := @List.range'_append_1 0 Q.dequeued.length (Q.items.length - Q.dequeued.length)
    rw [Nat.zero_add, Nat.add_sub_cancel' le] at append
    rw [range_eq_range', range_eq_range', append]
  have mem : ∀ k, k ∈ Q.dequeued ↔ k < Q.dequeued.length := by
    intro k
    conv_lhs => rw [L.dequeued]
    exact mem_range
  unfold Queue.held
  rw [split, filter_append, filter_eq_nil_iff.2, filter_eq_self.2, nil_append]
  · intro k hk
    have ge := (mem_range'_1.1 hk).1
    simp [mem, ge]
  · intro k hk
    simp [mem, mem_range.1 hk]

lemma Line.count_held (L : Line M Q) : Q.eventCount = Q.held.length := by
  have le := L.le
  rw [L.held_eq, length_range', L.count]
  omega

lemma Line.last_held (L : Line M Q) : Q.lastOf Q.items.length = Q.held.getLast?.bind (Q.events[·]?) := by
  rw [L.held_eq, List.getLast?_range']
  unfold Queue.lastOf
  by_cases lt : Q.dequeued.length < Q.items.length
  · rw [if_pos lt, if_neg (by omega), Option.bind_some]
    congr 1
    omega
  · rw [if_neg lt, if_pos (by omega), Option.bind_none]

lemma Line.stopped (L : Line M Q) {k : Nat} (lt : k < Q.dequeued.length) : .stop k ∈ Q.trace := by
  have le := L.le
  obtain ⟨j, trace, all, first⟩ := L.trace
  have ge : 2 * Q.dequeued.length ≤ j := by
    by_cases none : Q.dequeued.length = Q.items.length
    · exact (all none).ge
    · obtain ⟨e, m, hm, item⟩ := L.held _ le_rfl (lt_of_le_of_ne le none)
      rw [first e m hm item]
      apply Nat.le_add_right
  rw [trace, mem_map]
  exact ⟨2 * k + 1, mem_range.2 (by omega), mark_stop k⟩

end Held

section Serial
variable {s s' : State} {G : Ghost} {a e q : Nat} {sync : Nat → Bool}

lemma schedAddTb_pc : (s.schedAddTb e).pc = s.pc := by
  unfold State.schedAddTb
  cases (s.event e).q <;> rfl

/-- At most one agent turns to something else, and not to a function in place. -/
def Turned (s s' : State) : Prop :=
  s'.pc = s.pc ∨ ∃ a pc, s'.pc = Function.update s.pc a pc ∧ ∀ q, pc ≠ .inPlace q

lemma Turned.turn {pc : Pc} (h : s'.pc = Function.update s.pc a pc) (off : ∀ q, pc ≠ .inPlace q) :
    Turned s s' := .inr ⟨a, pc, h, off⟩

/-- No event becomes that of a request. -/
def Kinds (s s' : State) : Prop := ∀ t, (s'.event t).kind = .request → (s.event t).kind = .request

lemma Kinds.same (h : s'.event = s.event) : Kinds s s' := fun t kind => by rwa [h] at kind

lemma Kinds.update {E : Event} (h : s'.event = Function.update s.event e E)
    (kind : E.kind = .request → (s.event e).kind = .request) : Kinds s s' := by
  intro t
  rw [h]
  by_cases eq : t = e
  · subst eq
    rwa [Function.update_self]
  · rw [Function.update_of_ne eq]
    exact id

lemma Kinds.trans {t : State} (h : Kinds s t) (h' : Kinds t s') : Kinds s s' := fun x kind => h x (h' x kind)

lemma schedAddTb_event : (s.schedAddTb e).event = s.event := by
  unfold State.schedAddTb
  cases (s.event e).q <;> rfl

lemma Kinds.destroy : Kinds s (s.destroy e) :=
  .update rfl fun kind => (Event.deref_static { s.event e with owner := .none }).2.1 ▸ kind

lemma Kinds.arm {kind : Kind} {wait : Option Nat} (off : kind ≠ .request) : Kinds s (s.arm a kind wait q) := by
  have create : Kinds s (s.create (.call a)) := .update rfl nofun
  exact create.trans (.update rfl fun kind => absurd kind off)

/-- What a step changes. -/
lemma step_turned (h : step s a = some s') : Turned s s' ∧ Kinds s s' := by
  unfold step at h
  cases hpc : s.pc a with
  | idle =>
    rw [hpc] at h
    cases h
  | inPlace q | clearing e q =>
    rw [hpc] at h
    cases h
    exact ⟨.turn rfl nofun, .same rfl⟩
  | checked e q =>
    rw [hpc] at h
    cases h
    exact ⟨.turn rfl nofun, .update rfl nofun⟩
  | armed e q | awaiting e =>
    rw [hpc] at h
    dsimp only at h
    split at h <;> cases h
    exact ⟨.turn rfl nofun, .update rfl id⟩
  | submitting e q rest n =>
    rw [hpc] at h
    cases rest with
    | nil =>
      cases n with
      | zero =>
        cases h
        exact ⟨.turn (by simp [schedAddTb_pc]; rfl) (by nofun), .same schedAddTb_event⟩
      | succ n =>
        cases h
        exact ⟨.turn rfl nofun, .same rfl⟩
    | cons p ps =>
      dsimp only at h
      split at h <;> cases h
      · exact ⟨.turn rfl nofun, .update rfl id⟩
      · exact ⟨.turn rfl nofun, .same rfl⟩
  | counting e q p rest n | item e q k | dequeued e | finishing e =>
    rw [hpc] at h
    cases h
    exact ⟨.turn rfl nofun, .update rfl id⟩
  | leaving e q =>
    rw [hpc] at h
    cases h
    unfold State.afterEnqueue
    split
    · exact ⟨.turn rfl nofun, .same rfl⟩
    · exact ⟨.turn rfl nofun, Kinds.trans (.same rfl) (.arm nofun)⟩
    · exact ⟨.turn rfl nofun, .update rfl id⟩
  | awaitOwn e =>
    rw [hpc] at h
    dsimp only at h
    split at h <;> cases h
    cases (s.event e).wait with
    | none => exact ⟨.turn rfl nofun, .destroy⟩
    | some w =>
      have unuse : Kinds s (s.unuse a w) := .update rfl id
      exact ⟨.turn rfl nofun, unuse.trans .destroy⟩
  | waiting q task b =>
    rw [hpc] at h
    cases task with
    | none =>
      cases h
      exact ⟨.turn rfl nofun, .same rfl⟩
    | some e =>
      dsimp only at h
      split at h <;> cases h
      exact ⟨.turn rfl nofun, .update rfl id⟩
  | flagged e k =>
    rw [hpc] at h
    dsimp only at h
    split at h
    · cases h
      exact ⟨.turn rfl nofun, .same rfl⟩
    · split at h <;> cases h
      exact ⟨.turn rfl nofun, .update rfl id⟩
  | dequeuing e q =>
    rw [hpc] at h
    cases h
    exact ⟨.turn rfl nofun, .update rfl fun kind => (Event.deref_static (s.event e)).2.1 ▸ kind⟩
  | scheduling e ts =>
    rw [hpc] at h
    cases ts with
    | nil =>
      cases h
      exact ⟨.turn rfl nofun, .update rfl id⟩
    | cons t ts =>
      cases h
      exact ⟨.turn (by simp [schedAddTb_pc]; rfl) (by nofun), .same schedAddTb_event⟩

lemma queueMachine_turned {l : Label} (h : (queueMachine sync).step s l = some s') :
    (Turned s s' ∨ ∃ a q, sync q = true ∧ s'.pc = Function.update s.pc a (.inPlace q)) ∧
      ((∃ a q, l = .submit a q ∧ ¬sync q = true ∧ (s.queue q).eventCount = 0 ∧ (s.queue q).requests = true) ∨
        Kinds s s') := by
  unfold queueMachine at h
  cases l with
  | transfer q | query e =>
    dsimp only at h
    split at h <;> cases h
    exact ⟨.inl (.inl rfl), .inr (.same rfl)⟩
  | destroy a e =>
    dsimp only at h
    split at h <;> cases h
    exact ⟨.inl (.inl rfl), .inr .destroy⟩
  | create =>
    cases h
    exact ⟨.inl (.inl rfl), .inr (.update rfl nofun)⟩
  | submit a q =>
    dsimp only at h
    split at h
    · unfold queueSubmit at h
      dsimp only at h
      split at h
      · rename_i run
        cases h
        exact ⟨.inr ⟨a, q, run, rfl⟩, .inr (.same rfl)⟩
      · rename_i async
        split at h
        · cases h
        · split at h
          · rename_i request
            cases h
            exact ⟨.inl (.turn (Function.update_idem _ _ _) nofun), .inl ⟨a, q, rfl, async, request⟩⟩
          · cases h
            exact ⟨.inl (.turn rfl nofun), .inr (.arm nofun)⟩
    · cases h
  | record a e q =>
    dsimp only at h
    split at h <;> cases h
    unfold eventRecord
    split
    · exact ⟨.inl (.inl rfl), .inr (.same rfl)⟩
    · exact ⟨.inl (.turn rfl nofun), .inr (.update rfl id)⟩
  | waitEvent a q e =>
    dsimp only at h
    split at h <;> cases h
    unfold queueWaitEvent
    split
    · exact ⟨.inl (.inl rfl), .inr (.same rfl)⟩
    · have use : Kinds s (s.use a e) := .update rfl id
      exact ⟨.inl (.turn rfl nofun), .inr (use.trans (.arm nofun))⟩
  | wait a q =>
    dsimp only at h
    split at h <;> cases h
    unfold queueWait
    dsimp only
    split
    · exact ⟨.inl (.turn rfl nofun), .inr (.same rfl)⟩
    · split
      · exact ⟨.inl (.turn rfl nofun), .inr (.same rfl)⟩
      · exact ⟨.inl (.turn rfl nofun), .inr (.update rfl id)⟩
  | eventWait a e =>
    dsimp only at h
    split at h <;> cases h
    unfold eventWait
    split
    · exact ⟨.inl (.inl rfl), .inr (.same rfl)⟩
    · exact ⟨.inl (.turn rfl nofun), .inr (.update rfl id)⟩
  | run a e =>
    dsimp only at h
    split at h
    · unfold runTask at h
      split at h
      · cases h
      · split at h <;> cases h
        exact ⟨.inl (.turn rfl nofun), .inr (.same rfl)⟩
    · cases h
  | next a =>
    obtain ⟨turned, kinds⟩ := step_turned h
    exact ⟨.inl turned, .inr kinds⟩

lemma inPlace_sync {g : State → Label → Prop} (h : (queueMachine sync).Reach g s) :
    ∀ a q, s.pc a = .inPlace q → sync q = true := by
  apply h.inv
  · rintro s init a q at'
    cases init
    cases at'
  · intro s l s' I _ h b q at'
    rcases (queueMachine_turned h).1 with (same | ⟨a, pc, new, off⟩) | ⟨a, q', run, new⟩
    · rw [same] at at'
      exact I b q at'
    · rw [new] at at'
      by_cases eq : b = a
      · subst eq
        rw [Function.update_self] at at'
        exact absurd at' (off q)
      · rw [Function.update_of_ne eq] at at'
        exact I b q at'
    · rw [new] at at'
      by_cases eq : b = a
      · subst eq
        rw [Function.update_self] at at'
        cases at'
        exact run
      · rw [Function.update_of_ne eq] at at'
        exact I b q at'

lemma Inv.running (I : Inv s G) {k : Nat} (hpc : s.pc a = .item e q k) :
    (G.life e).stage = .item a ∧ (s.event e).item = k ∧
      members s G q e = some ⟨k, 1, (G.life e).preds ++ (G.life e).link.rest⟩ := by
  obtain ⟨stage, home, rfl⟩ := I.places.here hpc
  refine ⟨stage, rfl, ?_⟩
  have member := members_of (show (G.life e).stage.Member by rw [stage]; trivial) home
  rwa [stage] at member

lemma Inv.waited (I : Inv s G) {task : Option Nat} {before : Nat} (hpc : s.pc a = .waiting q task before)
    (next : step s a ≠ none) : ∀ k < before, .stop k ∈ (s.queue q).trace := by
  have L := I.lines.line q
  rcases I.lines.waits a q task before hpc with le | ⟨e, m, rfl, hm, -⟩
  · exact fun k lt => L.stopped (lt_of_lt_of_le lt le)
  · obtain ⟨mem, -⟩ := of_members hm
    have fin : (s.event e).finished = true := by
      by_contra not
      apply next
      unfold step
      rw [hpc]
      exact if_neg not
    obtain ⟨-, out | ⟨b, finishing⟩⟩ := I.places.done e fin
    · rw [out] at mem
      exact mem.elim
    · rw [finishing] at mem
      exact mem.elim

/-- A queue that is not synchronous runs its items one at a time, as long as nobody meets an event half-way. -/
theorem queue_serial (h : (queueMachine sync).Reach Orderly s) (off : sync q = false) : Serial s q := by
  obtain ⟨G, I, -⟩ := reach_inv (J := fun _ _ => True) (fun _ _ => trivial) (fun _ _ _ _ _ _ _ => trivial) h
  have L := I.lines.line q
  have last : (s.queue q).locked = false → (s.queue q).lastEvent = (s.queue q).lastOf (s.queue q).items.length := by
    intro free
    have last := I.lines.last q
    rwa [(I.places.locked q).1 free] at last
  constructor
  case enqueued =>
    intro a at'
    have on := inPlace_sync h a q at'
    rw [off] at on
    cases on
  case one =>
    intro a b e e' k k' ha hb
    obtain ⟨stage, -, hm⟩ := I.running ha
    obtain ⟨stage', -, hm'⟩ := I.running hb
    have first : ∀ {x m}, members s G q x = some m → m.progress = 1 → m.item = (s.queue q).dequeued.length := by
      intro x m hx one
      apply le_antisymm _ (L.member x m hx).1
      apply le_of_not_gt
      intro late
      rw [L.later x m hx late] at one
      cases one
    obtain rfl := L.eq hm hm' ((first hm rfl).trans (first hm' rfl).symm)
    rw [stage] at stage'
    exact Stage.item.inj stage'
  case own =>
    intro a e k ha
    exact (L.member e _ (I.running ha).2.2).2
  case trace =>
    obtain ⟨n, trace, -⟩ := L.trace
    exact ⟨n, trace⟩
  case count => exact L.count_held
  case last =>
    intro free
    rw [last free]
    exact L.last_held
  case null =>
    intro free
    rw [last free, L.count]
    have le := L.le
    constructor
    · intro none
      have ge := L.of_lastOf_none le_rfl none
      omega
    · intro zero
      exact if_neg (by omega)
  case wait =>
    intro a task before hpc next
    exact I.waited hpc next

/-- Two items are submitted, and a thread waits for them while the first one runs. -/
theorem queue_serial_two : ∃ s, (queueMachine (· == 7)).Reach Orderly s ∧
    (s.queue 0).trace = [.start 0] ∧ (s.queue 0).held = [0, 1] ∧ s.pc 0 = .waiting 0 (some 1) 2 ∧
    Serial s 0 := by
  refine Machine.shown (P := fun s => (s.queue 0).trace = [.start 0] ∧ (s.queue 0).held = [0, 1] ∧
      s.pc 0 = .waiting 0 (some 1) 2)
    [.submit 0 0, .next 0, .next 0, .next 0, .submit 0 0, .next 0, .run 1 0, .next 0, .next 0, .next 0, .next 0,
      .wait 0 0] rfl (by decide) fun s h is => ?_
  obtain ⟨trace, held, waits⟩ := is
  exact ⟨trace, held, waits, queue_serial h rfl⟩

/-- Two threads are in functions of a synchronous queue; the event that is being enqueued is counted before it
is the last one. -/
theorem queue_serial_not : (∃ s, (queueMachine (· == 7)).Reachable s ∧ s.pc 0 = .inPlace 7 ∧
    s.pc 1 = .inPlace 7) ∧
    ∃ s, (queueMachine (· == 7)).Reachable s ∧ (s.queue 0).eventCount = 1 ∧ (s.queue 0).lastEvent = none := by
  constructor
  · refine Machine.exists_reach [.submit 0 7, .submit 1 7] rfl ?_
    decide
  · refine Machine.exists_reach [.submit 0 0, .next 0] rfl ?_
    decide

end Serial
end Kupl.Events
