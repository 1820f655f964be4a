import Kupl.Queue.Order

/-!
# Every step is a row of moves

Each step of the queues that does not meet an event half-way is a row of moves (`moves_of_step`), so what every
move keeps holds in every state reached (`reach_inv`).
-/

namespace Kupl.Events
open Dag

/-- What every move keeps. -/
structure Inv (s : State) (G : Ghost) : Prop where
  places : Places s G
  edges : Edges s G
  known : Known s G
  lines : Lines s G

section Steps
variable {s s' : State} {G G' : Ghost} {a b e q : Nat} {pc : Pc}

/-- A move keeps the invariant. -/
theorem Inv.move (I : Inv s G) (m : Move s G s' G') : Inv s' G' :=
  ⟨I.places.move I.edges I.known m, I.edges.move I.places I.known m, I.known.move I.places I.edges m,
    I.lines.move I.places I.edges m⟩

def Ghost.init : Ghost := ⟨fun _ => .blank, fun _ => .free⟩

/-- The invariant holds of a fresh queue. -/
theorem Inv.init {sync : Nat → Bool} (h : (queueMachine sync).init s) : Inv s Ghost.init := by
  cases h
  have none : ∀ q e, members ⟨fun _ => queueCreate, fun _ => eventBlank, fun _ => gnodeInit, [], 0,
      fun _ => .idle⟩ Ghost.init q e = none := fun q e => members_none id
  refine ⟨?_, ?_, ?_, ?_⟩
  · refine ⟨fun _ => trivial, fun _ => trivial, by rintro _ _ ⟨⟩, by rintro _ _ ⟨⟩, by rintro _ _ ⟨⟩,
      fun _ => by simp [Ghost.init, queueCreate], fun _ => by simp [Ghost.init, Life.blank], List.nodup_nil,
      fun _ => by simp [Ghost.init, Life.blank, eventBlank], fun _ h => absurd rfl h, by rintro _ ⟨⟩,
      by rintro _ ⟨⟩, fun _ _ => ⟨rfl, rfl⟩⟩
  · refine ⟨fun _ _ => by simp [Ghost.init, Life.blank, eventBlank], fun _ => ?_, fun _ _ => ⟨rfl, rfl⟩,
      fun _ _ => by simp [Ghost.init, Life.blank, Link.blank],
      fun _ => by simp [Ghost.init, Life.blank, Link.blank, eventBlank], fun _ _ => ⟨rfl, rfl⟩, fun _ _ => rfl,
      fun _ _ => ⟨rfl, by simp [Ghost.init, Life.blank, Link.blank]⟩, by rintro _ ⟨⟩, by rintro _ ⟨⟩⟩
    simp [Ghost.init, Life.blank, Link.blank, gnodeInit]
  · exact ⟨fun _ h => absurd rfl h, by rintro _ _ ⟨⟩, fun _ _ => False.elim, by rintro _ _ ⟨⟩,
      by rintro _ _ ⟨⟩, by rintro _ _ ⟨⟩, fun _ h => absurd rfl h⟩
  · refine ⟨fun q => ⟨rfl, le_rfl, rfl, fun e m h => ?_, fun k _ lt => absurd lt (Nat.not_lt_zero k),
      fun e m h => ?_, fun e m h => ?_, 0, rfl, fun _ => rfl, fun e m h => ?_⟩, fun _ => rfl,
      by rintro _ _ _ _ ⟨⟩⟩ <;>
    · rw [none] at h
      cases h

lemma Moves.refl : Moves s G s G := Relation.ReflTransGen.refl

lemma Moves.one (m : Move s G s' G') : Moves s G s' G' := Relation.ReflTransGen.single m

lemma Moves.tail {t : State} {H : Ghost} (m : Moves s G t H) (m' : Move t H s' G') : Moves s G s' G' :=
  Relation.ReflTransGen.tail m m'

/-- What every move keeps is kept by a row of moves. -/
theorem Inv.moves {J : State → Ghost → Prop}
    (keep : ∀ s G s' G', Inv s G → J s G → Move s G s' G' → J s' G')
    (I : Inv s G) (j : J s G) (m : Moves s G s' G') : Inv s' G' ∧ J s' G' := by
  have run : ∀ x : State × Ghost, Relation.ReflTransGen
      (fun x y : State × Ghost => Move x.1 x.2 y.1 y.2) (s, G) x → Inv x.1 x.2 ∧ J x.1 x.2 := by
    intro x m
    induction m with
    | refl => exact ⟨I, j⟩
    | tail _ m ih => exact ⟨ih.1.move m, keep _ _ _ _ ih.1 ih.2 m⟩
  exact run (s', G') m

lemma State.setPc_setPc {pc pc' : Pc} : (s.setPc a pc).setPc a pc' = s.setPc a pc' := by
  simp

lemma State.setPc_arm {pc : Pc} {kind : Kind} {wait : Option Nat} :
    (s.setPc a pc).arm a kind wait q = s.arm a kind wait q := by
  simp [State.arm, State.create, State.eventInit]

lemma Uses.users (h : Uses s b pc) {us : List Nat} (sub : b ∈ (s.event e).users → b ∈ us) :
    Uses (s.setEvent e { s.event e with users := us }) b pc := by
  refine h.imp (fun t call => Eq.trans (update_field Event.owner (by rfl)) call) ?_
    fun t _ => update_field Event.kind rfl
  rintro t ⟨owner, mem⟩
  by_cases eq : t = e
  · subst eq
    simpa using ⟨owner, sub mem⟩
  · simpa [eq] using ⟨owner, mem⟩

lemma Uses.destroy (h : Uses s b pc)
    (free : (s.event e).owner = .user ∧ (s.event e).users = [] ∨ ∃ a, a ≠ b ∧ (s.event e).owner = .call a) :
    Uses (s.destroy e) b pc := by
  have off : (s.event e).owner ≠ .call b ∧ ¬((s.event e).owner = .user ∧ b ∈ (s.event e).users) := by
    rcases free with ⟨user, none⟩ | ⟨a, ne, call⟩
    · rw [user, none]
      exact ⟨nofun, by simp⟩
    · rw [call]
      exact ⟨fun h => ne (Owner.call.inj h), by simp⟩
  have same : ∀ t, t ≠ e → (s.destroy e).event t = s.event t := by
    intro t ne
    simp [State.destroy, ne]
  refine h.imp (fun t has => ?_) (fun t has => ?_) fun t _ =>
    update_field Event.kind (Event.deref_like { s.event e with owner := .none }).kind
  · rw [same t]
    · exact has
    · rintro rfl
      exact off.1 has
  · rw [same t]
    · exact has
    · rintro rfl
      exact off.2 has

lemma Places.ltUser (P : Places s G) (owner : (s.event e).owner = .user) : e < s.created := by
  apply P.lt
  right
  intro eq
  rw [eq] at owner
  cases owner

lemma move_use (P : Places s G) (owner : (s.event e).owner = .user) : Move s G (s.use a e) G :=
  .users e _ (P.ltUser owner) fun b => (P.uses b).users fun mem => List.mem_cons_of_mem a mem

lemma move_unuse (P : Places s G) (hpc : s.pc a = .idle) (lt : e < s.created) : Move s G (s.unuse a e) G := by
  refine .users e _ lt fun b => ?_
  by_cases eq : b = a
  · subst eq
    rw [hpc]
    trivial
  · exact (P.uses b).users fun mem => List.mem_filter.2 ⟨mem, by simpa using eq⟩

lemma moves_arm (P : Places s G) {kind : Kind} {wait : Option Nat} (hpc : (s.pc a).Calm)
    (waits : kind = .wait → ∃ w, wait = some w ∧ (s.event w).status ≠ .created) :
    ∃ G', Moves s G (s.arm a kind wait q) G' := by
  have create : Move s G (s.create (.call a)) G := .create _ nofun
  refine ⟨_, (Moves.one create).tail
    (.arm (q := q) hpc ?_ (.inl ?_) (fun _ => ?_) ?_ (?_ : kind = .wait → _) fun _ => ?_)⟩
  · simp [State.create, eventCreate, eventBlank]
  · simp [State.create, eventCreate]
  · simp [State.create, eventCreate]
  · simp [State.create]
  · intro eq
    obtain ⟨w, some, known⟩ := waits eq
    refine ⟨w, some, ?_⟩
    have ne : w ≠ s.created := by
      rintro rfl
      rw [(P.fresh _ le_rfl).2] at known
      exact known rfl
    simpa [State.create, ne] using known
  · simp [State.create, eventCreate, eventBlank]

lemma moves_awaited (I : Inv s G) (hpc : s.pc a = .awaitOwn e) :
    Moves s G (((s.event e).wait.elim s (s.unuse a)).destroy e |>.setPc a .idle) G := by
  have owner : (s.event e).owner = .call a := by
    have uses := I.places.uses a
    rwa [hpc] at uses
  have turn : Move s G (s.setPc a .idle) G := .turn (by rw [hpc]; trivial) trivial trivial
  have rest : ∀ {t : State}, Inv t G → t.pc a = .idle → (t.event e).owner = .call a →
      Move t G (t.destroy e) G := by
    intro t J idle owner
    refine .destroy e (by rw [owner]; nofun) fun b => ?_
    by_cases eq : b = a
    · subst eq
      rw [idle]
      trivial
    · exact (J.places.uses b).destroy (.inr ⟨a, Ne.symm eq, owner⟩)
  have J := I.move turn
  have idle : (s.setPc a .idle).pc a = .idle := by simp
  cases wait : (s.event e).wait with
  | none => exact (Moves.one turn).tail (rest J idle owner)
  | some w =>
    by_cases lt : w < s.created
    · have unuse : Move (s.setPc a .idle) G ((s.setPc a .idle).unuse a w) G := move_unuse J.places idle lt
      refine ((Moves.one turn).tail unuse).tail (rest (J.move unuse) idle ?_)
      exact Eq.trans (update_field Event.owner rfl) owner
    · have blank := (I.places.fresh w (not_lt.1 lt)).2
      have same : s.unuse a w = s := by
        have none : { s.event w with users := (s.event w).users.filter (· ≠ a) } = s.event w := by
          rw [blank]
          rfl
        rw [State.unuse, none, State.setEvent, Function.update_eq_self]
      rw [Option.elim_some, same]
      exact (Moves.one turn).tail (rest J idle owner)

lemma moves_left (I : Inv s G) (hpc : s.pc a = .leaving e q) :
    ∃ G', Moves s G ((s.leave e q).afterEnqueue a e q) G' := by
  have one : Move s G _ _ := .leave hpc
  have J := I.move one
  have idle : ((s.leave e q).setPc a .idle).pc a = .idle := by simp
  have known : (s.event e).status ≠ .created := by
    obtain ⟨n, place⟩ := I.places.here hpc
    apply I.known.stage
    intro out
    have mem := place.member
    rw [out] at mem
    exact mem
  unfold State.afterEnqueue
  have user : ∃ G', Moves s G (((s.leave e q).unuse a e).setPc a .idle) G' :=
    ⟨_, (Moves.one one).tail (move_unuse J.places idle (I.places.ltOf known))⟩
  have kind : ((s.leave e q).event e).kind = (s.event e).kind := rfl
  cases eq : ((s.leave e q).event e).kind with
  | wait =>
    have owner : (s.event e).owner = .call a := by
      have uses := I.places.uses a
      rw [hpc] at uses
      exact uses eq
    have turn := Move.turn (G := (G.set e { G.life e with author := none }).setLock q .free)
      (show (((s.leave e q).setPc a .idle).pc a).Calm by rw [idle]; trivial)
      (show (Pc.awaitOwn e).Calm from trivial) owner
    rw [State.setPc_setPc] at turn
    exact ⟨_, (Moves.one one).tail turn⟩
  | request =>
    obtain ⟨G', arm⟩ := moves_arm J.places (q := q)
      (by rw [idle]; trivial : (((s.leave e q).setPc a .idle).pc a).Calm)
      (show Kind.kernel = .wait → ∃ w, (none : Option Nat) = some w ∧ _ by nofun)
    rw [State.setPc_arm] at arm
    exact ⟨G', (Moves.one one).trans arm⟩
  | init | record | kernel => exact user

/-- The next step of an agent is a row of moves. -/
theorem moves_next (I : Inv s G) (ok : s.Meets (s.pc a)) (h : step s a = some s') : ∃ G', Moves s G s' G' := by
  have P := I.places
  unfold step at h
  cases hpc : s.pc a with
  | idle =>
    rw [hpc] at h
    cases h
  | inPlace q =>
    rw [hpc] at h
    cases h
    have queue : Move s G _ G := .queue q (s.queue q).requests ((s.queue q).inPlace.erase a)
    exact ⟨G, (Moves.one queue).tail (.turn (show (s.pc a).Calm by rw [hpc]; trivial) trivial trivial)⟩
  | checked e q =>
    rw [hpc] at h ok
    cases h
    obtain ⟨owner, mem⟩ : (s.event e).owner = .user ∧ a ∈ (s.event e).users := by
      have uses := P.uses a
      rwa [hpc] at uses
    exact ⟨_, .one (.arm (by rw [hpc]; trivial) ok (.inr ⟨owner, mem⟩) (absurd rfl) (P.ltUser owner) nofun
      (absurd rfl))⟩
  | armed e q =>
    rw [hpc] at h
    dsimp only at h
    split at h
    · cases h
    · rename_i free
      cases h
      exact ⟨_, .one (.enter hpc (by simpa using free))⟩
  | submitting e q rest n =>
    rw [hpc] at h
    cases rest with
    | nil =>
      cases n with
      | zero =>
        cases h
        exact ⟨_, .one (.schedule hpc)⟩
      | succ n =>
        cases h
        exact ⟨_, .one (.submitted hpc)⟩
    | cons p ps =>
      dsimp only at h
      split at h
      · rename_i fin
        cases h
        exact ⟨_, .one (.skip hpc fin)⟩
      · rename_i fin
        cases h
        exact ⟨_, .one (.insert hpc (by simpa using fin))⟩
  | counting e q p rest n =>
    rw [hpc] at h
    cases h
    exact ⟨_, .one (.count hpc)⟩
  | leaving e q =>
    rw [hpc] at h
    cases h
    exact moves_left I hpc
  | awaitOwn e =>
    rw [hpc] at h
    dsimp only at h
    split at h
    · cases h
      exact ⟨G, moves_awaited I hpc⟩
    · cases h
  | waiting q task b =>
    rw [hpc] at h
    cases task with
    | none =>
      cases h
      exact ⟨_, .one (.passed hpc)⟩
    | some e =>
      dsimp only at h
      split at h
      · rename_i fin
        cases h
        exact ⟨_, .one (.waited hpc fin)⟩
      · cases h
  | awaiting e =>
    rw [hpc] at h
    dsimp only at h
    split at h
    · cases h
      obtain ⟨owner, -⟩ : (s.event e).owner = .user ∧ a ∈ (s.event e).users := by
        have uses := P.uses a
        rwa [hpc] at uses
      have turn : Move s G (s.setPc a .idle) G := .turn (by rw [hpc]; trivial) trivial trivial
      exact ⟨G, (Moves.one turn).tail (move_unuse (I.move turn).places (by simp) (P.ltUser owner))⟩
    · cases h
  | item e q k =>
    rw [hpc] at h
    cases h
    exact ⟨_, .one (.stop hpc)⟩
  | flagged e k =>
    rw [hpc] at h
    have place := P.here hpc
    obtain ⟨q, home⟩ := P.home e (by rw [place.1]; nofun)
    dsimp only at h
    rw [home] at h
    dsimp only at h
    split at h
    · cases h
    · rename_i free
      cases h
      exact ⟨_, .one (.dequeue hpc home (by simpa using free))⟩
  | dequeuing e q =>
    rw [hpc] at h
    cases h
    exact ⟨_, .one (.deref hpc)⟩
  | clearing e q =>
    rw [hpc] at h
    cases h
    exact ⟨_, .one (.clear hpc)⟩
  | dequeued e =>
    rw [hpc] at h
    cases h
    exact ⟨_, .one (.finish hpc)⟩
  | finishing e =>
    rw [hpc] at h ok
    cases h
    exact ⟨_, .one (.release hpc ok)⟩
  | scheduling e ts =>
    rw [hpc] at h
    cases ts with
    | nil =>
      cases h
      exact ⟨_, .one (.finished hpc)⟩
    | cons t ts =>
      cases h
      exact ⟨_, .one (.add hpc)⟩

lemma moves_submit (I : Inv s G) {sync : Nat → Bool} (idle : s.pc a = .idle)
    (h : queueSubmit sync s a q = some s') : ∃ G', Moves s G s' G' := by
  have calm : (s.pc a).Calm := by rw [idle]; trivial
  unfold queueSubmit at h
  dsimp only at h
  split at h
  · cases h
    have queue : Move s G _ G := .queue q (s.queue q).requests (a :: (s.queue q).inPlace)
    exact ⟨G, (Moves.one queue).tail (.turn calm trivial trivial)⟩
  · split at h
    · cases h
    · rename_i free
      split at h
      · cases h
        obtain ⟨H, arm⟩ := moves_arm I.places (q := q) calm
          (show Kind.request = .wait → ∃ w, (none : Option Nat) = some w ∧ _ by nofun)
        have free' : (s.queue q).locked = false := by simpa using free
        exact ⟨_, arm.tail (.enter (by simp [State.arm]) free')⟩
      · cases h
        exact moves_arm I.places calm nofun

lemma moves_wait (idle : s.pc a = .idle) (free : (s.queue q).locked = false) : Moves s G (queueWait s a q) G := by
  unfold queueWait
  dsimp only
  split
  · rename_i none
    have queue : Move s G _ G := .queue q false (s.queue q).inPlace
    have pass := Move.pass (G := G) (show (s.setQueue q { s.queue q with requests := false }).pc a = .idle from idle)
      (q := q) (by simpa using free) (.inl (by simpa using none))
    simpa using (Moves.one queue).tail pass
  · rename_i some
    cases last : (s.queue q).lastEvent with
    | none => exact .one (.pass idle free (.inr last))
    | some e => exact .one (.wait idle free some last)

/-- Every step that does not meet an event half-way is a row of moves. -/
theorem moves_of_step (I : Inv s G) {sync : Nat → Bool} {l : Label} (ok : Orderly s l)
    (h : (queueMachine sync).step s l = some s') : ∃ G', Moves s G s' G' := by
  have P := I.places
  unfold queueMachine at h
  cases l with
  | transfer q =>
    dsimp only at h
    split at h
    · cases h
      exact ⟨_, .one (.queue q true (s.queue q).inPlace)⟩
    · cases h
  | create =>
    cases h
    exact ⟨_, .one (.create .user nofun)⟩
  | query e =>
    dsimp only at h
    split at h <;> cases h
    exact ⟨G, .refl⟩
  | submit a q =>
    dsimp only at h
    split at h
    · rename_i idle
      exact moves_submit I idle h
    · cases h
  | record a e q =>
    dsimp only at h
    split at h
    · rename_i can
      cases h
      unfold eventRecord
      split
      · exact ⟨G, .refl⟩
      · have use := move_use (a := a) P can.2
        refine ⟨G, (Moves.one use).tail (.turn ?_ trivial ⟨?_, ?_⟩)⟩
        · rw [show (s.use a e).pc a = .idle from can.1]
          trivial
        · exact Eq.trans (update_field Event.owner rfl) can.2
        · simp [State.use]
    · cases h
  | waitEvent a q e =>
    dsimp only at h
    split at h
    · rename_i can
      cases h
      unfold queueWaitEvent
      split
      · exact ⟨G, .refl⟩
      · rename_i known
        have use := move_use (a := a) P can.2
        have calm : ((s.use a e).pc a).Calm := by
          rw [show (s.use a e).pc a = .idle from can.1]
          trivial
        obtain ⟨H, arm⟩ := moves_arm (I.move use).places (q := q) calm
          (fun _ => ⟨e, rfl, by simpa [State.use] using known⟩ :
            Kind.wait = .wait → ∃ w, some e = some w ∧ ((s.use a e).event w).status ≠ .created)
        exact ⟨H, (Moves.one use).trans arm⟩
    · cases h
  | wait a q =>
    dsimp only at h
    split at h
    · rename_i can
      cases h
      exact ⟨G, moves_wait can.1 can.2⟩
    · cases h
  | eventWait a e =>
    dsimp only at h
    split at h
    · rename_i can
      cases h
      unfold eventWait
      split
      · exact ⟨G, .refl⟩
      · have use := move_use (a := a) P can.2
        refine ⟨G, (Moves.one use).tail (.turn ?_ trivial ⟨?_, ?_⟩)⟩
        · rw [show (s.use a e).pc a = .idle from can.1]
          trivial
        · exact Eq.trans (update_field Event.owner rfl) can.2
        · simp [State.use]
    · cases h
  | destroy a e =>
    dsimp only at h
    split at h
    · rename_i can
      cases h
      refine ⟨G, .one (.destroy e ?_ fun b => (P.uses b).destroy (.inl ⟨can.1.2, can.2⟩))⟩
      rw [can.1.2]
      nofun
    · cases h
  | run a e =>
    dsimp only at h
    split at h
    · rename_i idle
      unfold runTask at h
      cases home : (s.event e).q with
      | none =>
        rw [home] at h
        cases h
      | some q =>
        rw [home] at h
        dsimp only at h
        split at h
        · rename_i mem
          cases h
          exact ⟨_, .one (.run idle home mem)⟩
        · cases h
    · cases h
  | next a => exact moves_next I ok h

/-- What every move keeps holds in every state reached by steps that meet no event half-way. -/
theorem reach_inv {sync : Nat → Bool} {J : State → Ghost → Prop}
    (start : ∀ s, (queueMachine sync).init s → J s Ghost.init)
    (keep : ∀ s G s' G', Inv s G → J s G → Move s G s' G' → J s' G')
    (h : (queueMachine sync).Reach Orderly s) : ∃ G, Inv s G ∧ J s G := by
  apply h.inv (I := fun s => ∃ G, Inv s G ∧ J s G)
  · intro s init
    exact ⟨Ghost.init, Inv.init init, start s init⟩
  · rintro s l s' ⟨G, I, j⟩ ok h
    obtain ⟨G', m⟩ := moves_of_step I ok h
    exact ⟨G', I.moves keep j m⟩

end Steps
end Kupl.Events
