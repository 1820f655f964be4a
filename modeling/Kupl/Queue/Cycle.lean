import Kupl.Queue.Locks

/-!
# No cycle of locks

Where nobody takes the lock of an event that others may have while it has a lock itself, threads wait for
locks in one order: for the lock of an event with no lock, then for the lock of a queue, behind which they
do not wait any more. The exception is an event nobody uses any more: `kupl_dequeue_event` frees it with
the lock of its queue, and takes the lock of the event for it (`Safe`).
-/

namespace Kupl.Locks
open List Option
open Function (update update_of_ne update_self)

namespace Frame

/-- Frames that other frames are put on. -/
def Suspended : Frame → Prop
  | .taskWait _ | .body _ => True
  | .transfer _ _ locked => locked = false
  | _ => False

/-- A frame for which an event is in use. -/
def On (ev : Nat) : Frame → Prop
  | .query ev' _ | .querying ev' _ | .request _ ev' _ | .transfer _ ev' _ | .erase _ ev' _
  | .erasing _ ev' _ => ev' = ev
  | _ => False

end Frame

/-- The locks of a stack. -/
def held (frames : List Frame) : List Lock := frames.flatMap Frame.holds

/-- Nobody has a request of the event, nor its lock, nor waits for it. -/
structure Unused (s : State) (ev : Nat) : Prop where
  qSet : s.qSet ev = []
  reqSet : ∀ q, ev ∉ s.reqSet q
  free : s.holder (.event ev) = none
  unwanted : ∀ t f rest, s.stack t = f :: rest → f.wants ≠ some (.event ev)

/-- A thread with a lock neither waits for a request in `kupl_wait_sdma_request_in_queue`, nor queries an
event that was used with `kupl_memcpy_async`, nor drops the last reference of an event in use; and no thread
runs the task of an event it enqueues in place, with the lock of the queue. -/
def Careful (s : State) : Label → Prop
  | .call t (.record ev _) | .call t (.waitEvent _ ev) => held (s.stack t) = [] ∨ ¬s.Asks ev
  | .call t (.destroy ev) => held (s.stack t) = [] ∨ (s.ref ev = 1 → Unused s ev)
  | .next t => held (s.stack t) = [] ∨
      match s.stack t with
      | .requests q _ :: _ => s.reqSet q = []
      | .dequeuing x :: _ => s.ref x.ev = 1 → Unused s x.ev
      | .taskWait (some ev) :: _ => s.ref ev = 1 → Unused s ev
      | _ => True
  | .place _ => False
  | _ => True

/-- The event was released, and is not in use. -/
structure Safe (s : State) (ev : Nat) : Prop where
  dead : s.dead ev = true
  qSet : s.qSet ev = []
  reqSet : ∀ q, ev ∉ s.reqSet q
  off : ∀ t, ∀ f ∈ s.stack t, ¬f.On ev

/-- What a frame may have below it. -/
def TopOk (s : State) (below : List Lock) : Frame → Prop
  | .query .. | .querying .. => below = []
  | .request _ _ locked | .transfer _ _ locked => locked = false ∧ below = []
  | .remove u ev | .removing u ev => (u = none ∧ below = []) ∨ Safe s ev
  | .erase u _ _ | .erasing u _ _ => u = none ∧ below = []
  | _ => True

/-- The first frame of a stack is one that others are put on. -/
def Waits : List Frame → Prop
  | [] => True
  | f :: _ => f.Suspended

def StackOk (s : State) : List Frame → Prop
  | [] => True
  | f :: rest => TopOk s (held rest) f ∧ Waits rest ∧ StackOk s rest

/-- Who has which lock, and the stacks. -/
structure Inv (s : State) : Prop where
  holder : ∀ l t, s.holder l = some t ↔ l ∈ held (s.stack t)
  nodup : ∀ t, (held (s.stack t)).Nodup
  stack : ∀ t, StackOk s (s.stack t)

section Stacks
variable {s s' : State} {f : Frame} {rest : List Frame} {below : List Lock} {ev : Nat} {l : Lock}

lemma held_append {fs : List Frame} : held (fs ++ rest) = held fs ++ held rest := flatMap_append

lemma held_cons : held (f :: rest) = f.holds ++ held rest := flatMap_cons

lemma StackOk.suspended (ok : StackOk s (f :: rest)) : ∀ g ∈ rest, g.Suspended := by
  induction rest generalizing f with
  | nil => nofun
  | cons g rest ih =>
    intro h mem
    rcases mem_cons.1 mem with rfl | mem
    · exact ok.2.1
    · exact ih ok.2.2 h mem

lemma TopOk.mono (safe : ∀ ev, Safe s ev → Safe s' ev) (ok : TopOk s below f) : TopOk s' below f := by
  cases f with
  | remove u ev | removing u ev => exact ok.imp_right (safe ev)
  | _ => exact ok

lemma StackOk.mono (safe : ∀ ev, Safe s ev → Safe s' ev) (ok : StackOk s rest) : StackOk s' rest := by
  induction rest with
  | nil => trivial
  | cons f rest ih => exact ⟨ok.1.mono safe, ok.2.1, ih ok.2.2⟩

lemma Frame.Suspended.wants (h : f.Suspended) : f.wants = none := by
  cases f with
  | taskWait | body | transfer => rfl
  | _ => exact h.elim

lemma Frame.holds_event (mem : .event ev ∈ f.holds) : f.On ev ∨ ∃ u, f = .removing u ev := by
  cases f with
  | querying ev' => simpa [Frame.holds, Frame.On, eq_comm] using mem
  | transfer q ev' locked => cases locked <;> simpa [Frame.holds, Frame.On, eq_comm] using mem
  | removing u ev' | erase u ev' q | erasing u ev' q =>
    cases u <;> simpa [Frame.holds, Frame.queueLock, Frame.On, eq_comm] using mem
  | requests q locked | request q ev' locked => cases locked <;> simp [Frame.holds] at mem
  | remove u => cases u <;> simp [Frame.holds, Frame.queueLock] at mem
  | _ => simp [Frame.holds] at mem

lemma Frame.wants_event (h : f.wants = some (.event ev)) : f.On ev ∨ ∃ u, f = .remove u ev := by
  cases f with
  | query ev' | request q ev' => exact .inl (by simpa [Frame.wants, Frame.acquires, Frame.On] using h)
  | remove u ev' => exact .inr ⟨u, by simpa [Frame.wants, Frame.acquires] using h⟩
  | _ => simp [Frame.wants, Frame.acquires] at h

lemma Frame.acquires_spec {g : Frame} (acq : f.acquires = some (l, g)) :
    g.holds = l :: f.holds ∧ ∀ ev, g.On ev → f.On ev := by
  cases f with
  | query | enqueue | submit | waitQueue | request | dequeue | remove | erase =>
    cases acq
    exact ⟨rfl, fun _ h => h⟩
  | _ => cases acq

lemma TopOk.acquires {g : Frame} (ok : TopOk s below f) (acq : f.acquires = some (l, g)) : TopOk s below g := by
  cases f with
  | query | enqueue | submit | waitQueue | request | dequeue | remove | erase =>
    cases acq
    exact ok
  | _ => cases acq

end Stacks

/-- What a step keeps of the events that were released. -/
structure Quiet (s s' : State) : Prop where
  dead : ∀ ev, s.dead ev = true → s'.dead ev = true
  qSet : ∀ ev, s.dead ev = true → s.qSet ev = [] → s'.qSet ev = []
  reqSet : ∀ ev q, s.dead ev = true → ev ∉ s.reqSet q → ev ∉ s'.reqSet q

/-- A thread replaces the first frames of its stack, and releases locks. -/
structure Move (s s' : State) (t : Nat) (pre fs rest : List Frame) (rel : List Lock) : Prop where
  old : s.stack t = pre ++ rest
  stack : s'.stack = update s.stack t (fs ++ rest)
  holder : ∀ l, s'.holder l = if l ∈ rel then none else s.holder l
  perm : (held pre).Perm (rel ++ held fs)
  quiet : Quiet s s'
  off : ∀ f ∈ fs, ∀ ev, f.On ev → ¬Safe s ev

section Moves
variable {s s' : State} {t ev : Nat} {pre fs rest : List Frame} {rel : List Lock}

lemma Move.safe (M : Move s s' t pre fs rest rel) (S : Safe s ev) : Safe s' ev where
  dead := M.quiet.dead ev S.dead
  qSet := M.quiet.qSet ev S.dead S.qSet
  reqSet q := M.quiet.reqSet ev q S.dead (S.reqSet q)
  off := by
    intro t' f mem on
    rw [M.stack] at mem
    by_cases eq : t' = t
    · subst eq
      rw [update_self] at mem
      rcases mem_append.1 mem with new | old
      · exact M.off f new ev on S
      · apply S.off t' f _ on
        rw [M.old]
        exact mem_append_right _ old
    · rw [update_of_ne eq] at mem
      exact S.off t' f mem on

lemma Inv.move (I : Inv s) (M : Move s s' t pre fs rest rel)
    (ok : StackOk s' rest → StackOk s' (fs ++ rest)) : Inv s' := by
  have before : held (s.stack t) = held pre ++ held rest := by rw [M.old, held_append]
  have perm : (held (s.stack t)).Perm (rel ++ (held fs ++ held rest)) := by
    rw [before, ← append_assoc]
    exact M.perm.append_right _
  have apart := perm.nodup_iff.1 (I.nodup t)
  refine ⟨fun l t' => ?_, fun t' => ?_, fun t' => ?_⟩
  · rw [M.holder, M.stack]
    by_cases eq : t' = t
    · subst eq
      rw [update_self, held_append]
      split
      · rename_i mem
        refine ⟨nofun, fun here => ?_⟩
        exact absurd rfl ((nodup_append.1 apart).2.2 l mem l here)
      · rename_i mem
        rw [I.holder, perm.mem_iff, mem_append]
        exact or_iff_right mem
    · rw [update_of_ne eq]
      split
      · rename_i mem
        refine ⟨nofun, fun here => ?_⟩
        have mine := (I.holder l t).2 (perm.mem_iff.2 (mem_append_left _ mem))
        have other := (I.holder l t').2 here
        rw [mine] at other
        exact absurd (Option.some.inj other).symm eq
      · exact I.holder l t'
  · rw [M.stack]
    by_cases eq : t' = t
    · subst eq
      rw [update_self, held_append]
      exact (nodup_append.1 apart).2.1
    · rw [update_of_ne eq]
      exact I.nodup t'
  · rw [M.stack]
    by_cases eq : t' = t
    · subst eq
      rw [update_self]
      apply ok
      have old := I.stack t'
      rw [M.old] at old
      have tail : StackOk s rest := by
        clear before perm apart ok M
        induction pre with
        | nil => exact old
        | cons f pre ih => exact ih old.2.2
      exact tail.mono fun ev => M.safe
    · rw [update_of_ne eq]
      exact (I.stack t').mono fun ev => M.safe

lemma Inv.acquire {f g : Frame} {l : Lock} (I : Inv s) (top : s.stack t = f :: rest) (acq : f.acquires = some (l, g))
    (free : s.holder l = none) : Inv ({ s with holder := update s.holder l (some t) }.put t (g :: rest)) := by
  obtain ⟨holds, on⟩ := Frame.acquires_spec acq
  have stack : ∀ t', held (update s.stack t (g :: rest) t') =
      if t' = t then l :: held (s.stack t) else held (s.stack t') := by
    intro t'
    by_cases eq : t' = t
    · subst eq
      rw [update_self, if_pos rfl, top, held_cons, held_cons, holds]
      rfl
    · rw [update_of_ne eq, if_neg eq]
  have none : ∀ t', l ∉ held (s.stack t') := by
    intro t' mem
    rw [← I.holder, free] at mem
    cases mem
  have safe : ∀ ev, Safe s ev → Safe ({ s with holder := update s.holder l (some t) }.put t (g :: rest)) ev := by
    intro ev S
    refine ⟨S.dead, S.qSet, S.reqSet, fun t' f' mem here => ?_⟩
    have mem : f' ∈ update s.stack t (g :: rest) t' := mem
    by_cases eq : t' = t
    · subst eq
      rw [update_self] at mem
      rcases mem_cons.1 mem with rfl | mem
      · exact S.off t' f (top ▸ mem_cons_self) (on ev here)
      · exact S.off t' f' (top ▸ mem_cons_of_mem f mem) here
    · rw [update_of_ne eq] at mem
      exact S.off t' f' mem here
  refine ⟨fun l' t' => ?_, fun t' => ?_, fun t' => ?_⟩
  · show update s.holder l (some t) l' = some t' ↔ l' ∈ held (update s.stack t _ t')
    rw [stack]
    by_cases same : l' = l
    · subst same
      rw [update_self]
      split
      · rename_i eq
        exact ⟨fun _ => mem_cons_self, fun _ => by rw [eq]⟩
      · rename_i ne
        exact ⟨fun h => absurd (Option.some.inj h).symm ne, fun mem => absurd mem (none t')⟩
    · rw [update_of_ne same, I.holder]
      split
      · rename_i eq
        rw [eq, mem_cons, or_iff_right same]
      · rfl
  · show (held (update s.stack t _ t')).Nodup
    rw [stack]
    split
    · exact nodup_cons.2 ⟨none t, I.nodup t⟩
    · exact I.nodup t'
  · show StackOk _ (update s.stack t _ t')
    by_cases eq : t' = t
    · subst eq
      rw [update_self]
      have old := I.stack t'
      rw [top] at old
      exact ⟨(old.1.mono safe).acquires acq, old.2.1, old.2.2.mono safe⟩
    · rw [update_of_ne eq]
      exact (I.stack t').mono safe

lemma Inv.swap {g : Frame} (I : Inv s) (M : Move s s' t pre [g] rest rel) (top : TopOk s' (held rest) g)
    (waits : Waits rest) : Inv s' := I.move M fun ok => ⟨top, waits, ok⟩

lemma Inv.pop (I : Inv s) (M : Move s s' t pre [] rest rel) : Inv s' := I.move M fun ok => ok

lemma Quiet.of_eq (dead : s'.dead = s.dead) (qSet : s'.qSet = s.qSet) (reqSet : s'.reqSet = s.reqSet) : Quiet s s' where
  dead ev h := by rw [dead]; exact h
  qSet ev _ h := by rw [qSet]; exact h
  reqSet ev q _ h := by rw [reqSet]; exact h

lemma Quiet.apart {q : Nat} {l l' : List Nat} (dead : s'.dead = s.dead) (qSet : s'.qSet = update s.qSet ev l)
    (reqSet : s'.reqSet = update s.reqSet q l') (empty : s.qSet ev = [] → l = [])
    (sub : ∀ ev, ev ∈ l' → ev ∈ s.reqSet q) : Quiet s s' := by
  refine ⟨fun ev' h => dead ▸ h, fun ev' _ none => ?_, fun ev' q' _ none => ?_⟩
  · rw [qSet, Function.update_apply]
    split
    · exact empty (‹ev' = ev› ▸ none)
    · exact none
  · rw [reqSet, Function.update_apply]
    split
    · exact fun mem => none (‹q' = q› ▸ sub ev' mem)
    · exact none

lemma Frame.On.lock {f : Frame} (on : f.On ev) : f.wants = some (.event ev) ∨ .event ev ∈ f.holds := by
  cases f with
  | query ev' | request q ev' => cases on; exact .inl rfl
  | querying ev' | transfer q ev' | erase u ev' q => cases on; exact .inr mem_cons_self
  | erasing u ev' q => cases on; exact .inr (mem_cons_of_mem _ mem_cons_self)
  | _ => exact on.elim

lemma Unused.off (I : Inv s) (U : Unused s ev) : ∀ t, ∀ f ∈ s.stack t, ¬f.On ev := by
  intro t f mem on
  rcases on.lock with wants | holds
  · cases top : s.stack t with
    | nil => rw [top] at mem; cases mem
    | cons g rest =>
      rw [top] at mem
      rcases mem_cons.1 mem with rfl | mem
      · exact U.unwanted t f rest top wants
      · have ok := I.stack t
        rw [top] at ok
        rw [(ok.suspended f mem).wants] at wants
        cases wants
  · have holder := (I.holder (.event ev) t).2 (mem_flatMap.2 ⟨f, mem, holds⟩)
    rw [U.free] at holder
    cases holder

lemma Quiet.deref (Q : Quiet s s') : Quiet s (s'.deref ev) where
  dead ev' h := by
    show update s'.dead ev _ ev' = true
    by_cases eq : ev' = ev
    · subst eq
      rw [update_self, Q.dead ev' h]
      rfl
    · rw [update_of_ne eq]
      exact Q.dead ev' h
  qSet := Q.qSet
  reqSet := Q.reqSet

lemma deref_dead (last : s.ref ev = 1) : (s.deref ev).dead ev = true := by
  show update s.dead ev _ ev = true
  rw [update_self, last]
  simp

end Moves

section Steps
variable {s s' : State} {t : Nat} {rest : List Frame}

lemma State.CanCall.waits (h : s.CanCall t) : Waits (s.stack t) := by
  unfold State.CanCall at h
  split at h
  · rename_i top
    rw [top]
    trivial
  · rename_i top
    rw [top]
    trivial
  · exact h.elim

lemma State.CanRun.waits (I : Inv s) (h : s.CanRun t) : Waits (s.stack t) := by
  have ok := I.stack t
  unfold State.CanRun at h
  split at h
  · rename_i top
    rw [top]
    trivial
  · rename_i top
    rw [top]
    trivial
  · rename_i top
    rw [top] at ok ⊢
    exact ok.1.1
  · exact h.elim

lemma Move.of_put {s1 : State} {pre fs : List Frame} {rel : List Lock} (old : s.stack t = pre ++ rest)
    (stack : s1.stack = s.stack) (holder : ∀ l, s1.holder l = if l ∈ rel then none else s.holder l)
    (perm : (held pre).Perm (rel ++ held fs)) (quiet : Quiet s s1)
    (off : ∀ f ∈ fs, ∀ ev, f.On ev → ¬Safe s ev) : Move s (s1.put t (fs ++ rest)) t pre fs rest rel where
  old := old
  stack := by
    show update s1.stack t _ = _
    rw [stack]
  holder := holder
  perm := perm
  quiet := ⟨quiet.dead, quiet.qSet, quiet.reqSet⟩
  off := off

/-- What a step does before a thread replaces its first frames, of whose locks `rel` are released. -/
structure Before (s s1 : State) (pre : List Frame) (rel kept : List Lock) : Prop where
  stack : s1.stack = s.stack
  holder : ∀ l, s1.holder l = if l ∈ rel then none else s.holder l
  perm : (held pre).Perm (rel ++ kept)
  quiet : Quiet s s1

section Replaced
variable {s1 : State} {pre : List Frame} {rel : List Lock} {g : Frame}

lemma Inv.leave (I : Inv s) (old : s.stack t = pre ++ rest) (B : Before s s1 pre rel []) : Inv (s1.put t rest) := by
  have M : Move s (s1.put t ([] ++ rest)) t pre [] rest rel := by
    apply Move.of_put old B.stack B.holder (show (held pre).Perm (rel ++ held []) from B.perm) B.quiet
    exact fun f mem => absurd mem not_mem_nil
  exact I.pop M

lemma Inv.follow (I : Inv s) (old : s.stack t = pre ++ rest) (B : Before s s1 pre rel g.holds)
    (waits : Waits rest) (off : ∀ ev, g.On ev → ¬Safe s ev)
    (top : TopOk (s1.put t (g :: rest)) (held rest) g) : Inv (s1.put t (g :: rest)) := by
  have M : Move s (s1.put t ([g] ++ rest)) t pre [g] rest rel := by
    apply Move.of_put old B.stack B.holder _ B.quiet
    · intro f mem
      cases mem_singleton.1 mem
      exact off
    · simpa [held] using B.perm
  exact I.swap M top waits

lemma Inv.followFree (I : Inv s) (old : s.stack t = pre ++ rest) (B : Before s s1 pre rel g.holds)
    (waits : Waits rest) (off : ∀ ev, ¬g.On ev) (top : ∀ s below, TopOk s below g) :
    Inv (s1.put t (g :: rest)) := I.follow old B waits (fun ev on => absurd on (off ev)) (top _ _)

end Replaced

lemma Inv.afterQuery {s1 : State} {pre : List Frame} {rel : List Lock} {c : Call} (I : Inv s)
    (old : s.stack t = pre ++ rest) (B : Before s s1 pre rel []) (waits : Waits rest) :
    Inv (s1.afterQuery t rest c) := by
  unfold State.afterQuery
  cases c with
  | record ev q | waitEvent q ev =>
    simp only
    split
    · exact I.leave old B
    · refine I.followFree old ⟨B.stack, B.holder, B.perm, ?_⟩ waits (fun _ => id) fun _ _ => trivial
      exact ⟨B.quiet.dead, B.quiet.qSet, B.quiet.reqSet⟩
  | submit | waitQueue | destroy => exact I.leave old B

lemma Before.refl : Before s s [] [] [] := ⟨rfl, fun _ => by simp, .refl _, .of_eq rfl rfl rfl⟩

lemma Unused.safe {s1 : State} {pre : List Frame} {ev : Nat} {u : Option Nat} (I : Inv s)
    (U : Unused s ev) (old : s.stack t = pre ++ rest) (stack : s1.stack = s.stack)
    (last : s1.ref ev = 1) (qSet : s1.qSet = s.qSet) (reqSet : s1.reqSet = s.reqSet) :
    Safe ((s1.deref ev).put t (.remove u ev :: rest)) ev where
  dead := deref_dead last
  qSet := by
    show s1.qSet ev = []
    rw [qSet]
    exact U.qSet
  reqSet q := by
    show ev ∉ s1.reqSet q
    rw [reqSet]
    exact U.reqSet q
  off := by
    intro t' f mem
    have mem : f ∈ update s1.stack t (.remove u ev :: rest) t' := mem
    rw [stack] at mem
    by_cases eq : t' = t
    · subst eq
      rw [update_self] at mem
      rcases mem_cons.1 mem with rfl | mem
      · exact id
      · apply U.off I t' f
        rw [old]
        exact mem_append_right _ mem
    · rw [update_of_ne eq] at mem
      exact U.off I t' f mem

lemma Inv.drop {ev : Nat} {pre : List Frame} (I : Inv s) (old : s.stack t = pre ++ rest) (bare : held pre = [])
    (waits : Waits rest) (careful : held (s.stack t) = [] ∨ (s.ref ev = 1 → Unused s ev)) :
    Inv ((s.deref ev).put t (if s.ref ev = 1 then .remove none ev :: rest else rest)) := by
  have B : Before s (s.deref ev) pre [] [] :=
    ⟨rfl, fun _ => by simp [State.deref], by rw [bare]; rfl, (Quiet.of_eq rfl rfl rfl).deref⟩
  split
  · rename_i last
    apply I.follow old B waits (fun _ => False.elim)
    rcases careful with none | unused
    · apply Or.inl
      rw [old, held_append] at none
      exact ⟨rfl, (append_eq_nil_iff.1 none).2⟩
    · apply Or.inr
      exact (unused last).safe I old rfl last rfl rfl
  · exact I.leave old B

lemma Inv.begin {c : Call} (I : Inv s) (can : s.CanCall t) (careful : Careful s (.call t c))
    (hs : s.begin t c = some s') : Inv s' := by
  have waits := can.waits
  have push : ∀ g : Frame, g.holds = [] → (∀ ev, g.On ev → ¬Safe s ev) →
      TopOk (s.put t (g :: s.stack t)) (held (s.stack t)) g → Inv (s.put t (g :: s.stack t)) := by
    intro g bare off top
    have M : Move s (s.put t ([g] ++ s.stack t)) t [] [g] (s.stack t) [] := by
      apply Move.of_put rfl rfl (fun _ => by simp) _ (.of_eq rfl rfl rfl)
      · intro f mem
        cases mem_singleton.1 mem
        exact off
      · simp [held, bare]
    exact I.swap M top waits
  have asked : ∀ (ev : Nat) (c : Call), (held (s.stack t) = [] ∨ ¬s.Asks ev) → s.Live ev →
      Inv (if s.Asks ev then s.put t (.query ev c :: s.stack t) else s.afterQuery t (s.stack t) c) := by
    intro ev c careful live
    split
    · rename_i asks
      apply push _ rfl
      · intro ev' on S
        cases on
        have dead := S.dead
        rw [live.2] at dead
        cases dead
      · exact careful.resolve_right (not_not.2 asks)
    · exact I.afterQuery rfl .refl waits
  cases c with
  | record ev q | waitEvent q ev =>
    obtain ⟨live, hs⟩ := ite_none_right_eq_some.1 hs
    cases hs
    exact asked ev _ careful live
  | submit q | waitQueue q =>
    cases hs
    exact push _ rfl (fun _ => False.elim) trivial
  | destroy ev =>
    obtain ⟨live, hs⟩ := ite_none_right_eq_some.1 hs
    cases hs
    have old : s.stack t = [] ++ s.stack t := rfl
    exact I.drop old rfl waits careful

lemma holder_unlock {l l' : Lock} : (s.unlock l).holder l' = if l' ∈ [l] then none else s.holder l' := by
  show update s.holder l none l' = _
  rw [Function.update_apply]
  simp

lemma holder_unlockQueue {u : Option Nat} {l' : Lock} : (s.unlockQueue u).holder l' =
    if l' ∈ Frame.queueLock u then none else s.holder l' := by
  cases u with
  | none => rfl
  | some q => exact holder_unlock

lemma Before.unlock {s1 : State} {pre : List Frame} {l : Lock} {kept : List Lock}
    (stack : s1.stack = s.stack) (holder : s1.holder = s.holder) (perm : (held pre).Perm (l :: kept))
    (quiet : Quiet s s1) : Before s (s1.unlock l) pre [l] kept where
  stack := stack
  holder l' := by rw [holder_unlock, holder]
  perm := perm
  quiet := ⟨quiet.dead, quiet.qSet, quiet.reqSet⟩

lemma Before.keep {s1 : State} {pre : List Frame} {kept : List Lock} (stack : s1.stack = s.stack)
    (holder : s1.holder = s.holder) (perm : (held pre).Perm kept) (quiet : Quiet s s1) :
    Before s s1 pre [] kept where
  stack := stack
  holder l' := by simp [holder]
  perm := perm
  quiet := quiet

section Act
variable {q ev : Nat} {x : Task} {locked : Bool}

section
variable (I : Inv s)
include I

lemma Inv.adds {f g : Frame} {s1 : State} (top : s.stack t = f :: rest) (add : s.adds f = some (x, s1, g)) :
    Inv ({ s1 with tasks := s1.tasks ++ [x] }.put t (g :: rest)) := by
  have ok := I.stack t
  rw [top] at ok
  have old : s.stack t = [f] ++ rest := top
  cases f with
  | enqueuing y w =>
    cases add
    exact I.followFree old (.keep rfl rfl (.refl _) (.of_eq rfl rfl rfl)) ok.2.1 (fun _ => id) fun _ _ => trivial
  | submitting q =>
    obtain ⟨-, add⟩ := ite_none_right_eq_some.1 add
    cases add
    exact I.followFree old (.keep rfl rfl (.refl _) (.of_eq rfl rfl rfl)) ok.2.1 (fun _ => id) fun _ _ => trivial
  | _ => cases add

lemma Inv.enqueued {w : Option Nat} (old : s.stack t = [.enqueued x w] ++ rest)
    (waits : Waits rest) (hs : s.act t rest (.enqueued x w) = some s') : Inv s' := by
  cases hs
  have quiet : Quiet s s := .of_eq rfl rfl rfl
  cases w with
  | none => exact I.leave old (.unlock rfl rfl (.refl _) quiet)
  | some ev =>
    exact I.followFree old (.unlock rfl rfl (.refl _) quiet) waits (fun _ => id) fun _ _ => trivial

lemma Inv.waitingQueue (old : s.stack t = [.waitingQueue q] ++ rest) (waits : Waits rest)
    (hs : s.act t rest (.waitingQueue q) = some s') : Inv s' := by
  have quiet : Quiet s s := .of_eq rfl rfl rfl
  simp only [State.act] at hs
  split at hs
  · cases hs
    exact I.followFree old (.unlock rfl rfl (.refl _) quiet) waits (fun _ => id) fun _ _ => trivial
  · cases hs
    exact I.followFree old (.keep rfl rfl (.refl _) quiet) waits (fun _ => id) fun _ _ => trivial

lemma Inv.requests (old : s.stack t = [.requests q locked] ++ rest) (waits : Waits rest)
    (careful : held (s.stack t) = [] ∨ s.reqSet q = [])
    (hs : s.act t rest (.requests q locked) = some s') : Inv s' := by
  have quiet : Quiet s s := .of_eq rfl rfl rfl
  simp only [State.act] at hs
  split at hs
  · cases hs
    cases locked with
    | false => exact I.leave old (.keep rfl rfl (.refl _) quiet)
    | true => exact I.leave old (.unlock rfl rfl (.refl _) quiet)
  · rename_i ev evs some
    cases hs
    have bare := careful.resolve_right (by rw [some]; exact cons_ne_nil _ _)
    rw [old, held_append, append_eq_nil_iff] at bare
    cases locked with
    | true => cases bare.1
    | false =>
      refine I.follow old (.keep rfl rfl (.refl _) quiet) waits (fun ev' on S => ?_) ⟨rfl, bare.2⟩
      cases on
      apply S.reqSet q
      rw [some]
      exact mem_cons_self

lemma Inv.transfer (old : s.stack t = [.transfer q ev locked] ++ rest) (waits : Waits rest)
    (hs : s.act t rest (.transfer q ev locked) = some s') : Inv s' := by
  cases hs
  have perm : (held [.transfer q ev locked]).Perm (.event ev :: (Frame.requests q locked).holds) := by
    cases locked with
    | false | true => exact .refl _
  refine I.followFree old (.unlock rfl rfl perm (.apart rfl rfl rfl (fun none => ?_) fun _ => mem_of_mem_erase))
    waits (fun _ => id) fun _ _ => trivial
  rw [none]
  rfl

lemma Inv.dequeuing (old : s.stack t = [.dequeuing x] ++ rest) (waits : Waits rest)
    (careful : held (s.stack t) = [] ∨ (s.ref x.ev = 1 → Unused s x.ev))
    (hs : s.act t rest (.dequeuing x) = some s') : Inv s' := by
  have careful := careful.resolve_left (by rw [old]; exact cons_ne_nil _ _)
  have quiet : ∀ s1 : State, s1.dead = s.dead → s1.qSet = s.qSet → s1.reqSet = s.reqSet →
      Quiet s (s1.deref x.ev) := fun s1 dead qSet reqSet => (Quiet.of_eq dead qSet reqSet).deref
  simp only [State.act] at hs
  split at hs
  · rename_i last
    cases hs
    refine I.follow old (.keep rfl rfl (.refl _) (quiet _ rfl rfl rfl)) waits (fun _ => False.elim) ?_
    exact .inr ((careful last).safe I old rfl last rfl rfl)
  · cases hs
    exact I.leave old (.unlock rfl rfl (.refl _) (quiet _ rfl rfl rfl))

lemma Inv.removing {u : Option Nat} (old : s.stack t = [.removing u ev] ++ rest)
    (ok : StackOk s (.removing u ev :: rest)) (hs : s.act t rest (.removing u ev) = some s') : Inv s' := by
  simp only [State.act] at hs
  split at hs
  · cases hs
    have B : Before s ((s.unlock (.event ev)).unlockQueue u) [.removing u ev]
        (.event ev :: Frame.queueLock u) [] := by
      refine ⟨?_, fun l => ?_, .refl _, ?_⟩
      · cases u <;> rfl
      · rw [holder_unlockQueue, holder_unlock]
        by_cases event : l = .event ev
        · simp [event]
        · simp [event]
      · cases u <;> exact .of_eq rfl rfl rfl
    exact I.leave old B
  · rename_i q qs some
    cases hs
    have used : ∀ ev', (Frame.erase u ev q).On ev' → ¬Safe s ev' := by
      intro ev' on S
      cases on
      have none := S.qSet
      rw [some] at none
      cases none
    refine I.follow old (.keep rfl rfl (.of_eq (append_nil _)) (.of_eq rfl rfl rfl)) ok.2.1 used ?_
    exact ok.1.resolve_right (used ev rfl)

lemma Inv.erasing {u : Option Nat} (old : s.stack t = [.erasing u ev q] ++ rest)
    (ok : StackOk s (.erasing u ev q :: rest)) (hs : s.act t rest (.erasing u ev q) = some s') : Inv s' := by
  cases hs
  have less : ∀ ev', ev' ∈ (s.reqSet q).filter (· ≠ ev) →
    ev' ∈ s.reqSet q := fun _ mem => (mem_filter.1 mem).1
  refine I.follow old (.unlock rfl rfl (.of_eq (append_nil _)) (.apart rfl rfl rfl (fun none => ?_) less)) ok.2.1
    (fun _ => False.elim) (.inl ok.1)
  rw [none]
  rfl

lemma Inv.act {f : Frame} (top : s.stack t = f :: rest) (careful : Careful s (.next t))
    (hs : s.act t rest f = some s') : Inv s' := by
  have ok := I.stack t
  rw [top] at ok
  simp only [Careful] at careful
  cases f with
  | enqueued x w => exact I.enqueued top ok.2.1 hs
  | submitting q =>
    cases hs
    have old : s.stack t = [.submitting q] ++ rest := top
    exact I.followFree old (.keep rfl rfl (.refl _) (.of_eq rfl rfl rfl)) ok.2.1 (fun _ => id)
      fun _ _ => trivial
  | submitted q =>
    cases hs
    have old : s.stack t = [.submitted q] ++ rest := top
    exact I.followFree old (.unlock rfl rfl (.refl _) (.of_eq rfl rfl rfl)) ok.2.1 (fun _ => id)
      fun _ _ => trivial
  | waitingQueue q => exact I.waitingQueue top ok.2.1 hs
  | taskWait ev =>
    cases ev with
    | none =>
      cases hs
      have old : s.stack t = [.taskWait none] ++ rest := top
      exact I.leave old (.keep rfl rfl (.refl _) (.of_eq rfl rfl rfl))
    | some ev =>
      cases hs
      have old : s.stack t = [.taskWait (some ev)] ++ rest := top
      rw [top] at careful
      exact I.drop old rfl ok.2.1 (top ▸ careful)
  | requests q locked =>
    rw [top] at careful
    exact I.requests top ok.2.1 (top ▸ careful) hs
  | transfer q ev locked => exact I.transfer top ok.2.1 hs
  | body x =>
    cases hs
    have old : s.stack t = [.body x] ++ rest := top
    exact I.followFree old (.keep rfl rfl (.refl _) (.of_eq rfl rfl rfl)) ok.2.1 (fun _ => id)
      fun _ _ => trivial
  | dequeuing x =>
    rw [top] at careful
    exact I.dequeuing top ok.2.1 (top ▸ careful) hs
  | removing u ev => exact I.removing top ok hs
  | erasing u ev q => exact I.erasing top ok hs
  | _ => cases hs

lemma Inv.next (careful : Careful s (.next t)) (hs : s.next t = some s') : Inv s' := by
  unfold State.next at hs
  split at hs
  · cases hs
  · rename_i f rest top
    split at hs
    · rename_i l g acq
      obtain ⟨free, hs⟩ := ite_none_right_eq_some.1 hs
      cases hs
      exact I.acquire top acq free
    · split at hs
      · rename_i x s1 g add
        cases hs
        exact I.adds top add
      · exact I.act top careful hs

lemma Inv.answer {c : Call} {done : Bool} (top : s.stack t = .querying ev c :: rest)
    (hs : lockMachine.step s (.answer t done) = some s') : Inv s' := by
  have ok := I.stack t
  rw [top] at ok
  have old : s.stack t = [.querying ev c] ++ rest := top
  simp only [lockMachine, top] at hs
  split at hs
  · cases hs
    exact I.afterQuery old (.unlock rfl rfl (.refl _) (.of_eq rfl rfl rfl)) ok.2.1
  · obtain ⟨-, hs⟩ := ite_none_right_eq_some.1 hs
    cases hs
    exact I.afterQuery old (.unlock rfl rfl (.refl _) (.of_eq rfl rfl rfl)) ok.2.1

lemma Inv.run {tasks : List Task} (can : s.CanRun t) : Inv ({ s with tasks }.put t (x.frames ++ s.stack t)) := by
  have waits := can.waits I
  have M : Move s ({ s with tasks }.put t (x.frames ++ s.stack t)) t [] x.frames (s.stack t) [] := by
    refine ⟨rfl, rfl, fun _ => by simp [State.put], ?_, .of_eq rfl rfl rfl, fun f mem ev on => ?_⟩
    · unfold Task.frames
      split <;> exact .refl _
    · unfold Task.frames at mem
      split at mem
      · rcases mem_cons.1 mem with rfl | mem
        · exact on.elim
        · cases mem_singleton.1 mem
          exact on.elim
      · cases mem_singleton.1 mem
        exact on.elim
  apply I.move M
  intro ok
  generalize State.put _ _ _ = s1 at ok ⊢
  unfold Task.frames
  split
  · exact ⟨trivial, trivial, trivial, waits, ok⟩
  · exact ⟨trivial, waits, ok⟩

lemma Inv.quiet (stack : s'.stack = s.stack) (holder : s'.holder = s.holder) (Q : Quiet s s') : Inv s' := by
  have M : Move s s' 0 [] [] (s.stack 0) [] := by
    refine ⟨rfl, ?_, fun l => by simp [holder], .refl _, Q, fun f mem => absurd mem not_mem_nil⟩
    rw [stack, nil_append, Function.update_eq_self]
  exact I.pop M

lemma Inv.memcpy (hs : lockMachine.step s (.memcpy q ev) = some s') : Inv s' := by
  obtain ⟨⟨-, -, live, -⟩, hs⟩ := ite_none_right_eq_some.1 hs
  cases hs
  have other : ∀ ev', s.dead ev' = true → ev' ≠ ev := by
    rintro ev' dead rfl
    rw [live.2] at dead
    cases dead
  refine I.quiet rfl rfl ⟨fun _ h => h, fun ev' dead none => ?_, fun ev' q' dead none => ?_⟩
  · show update s.qSet ev _ ev' = []
    rw [update_of_ne (other ev' dead)]
    exact none
  · show ev' ∉ update s.reqSet q _ q'
    by_cases eq : q' = q
    · subst eq
      rw [update_self, mem_append, mem_singleton]
      exact fun mem => mem.elim none (other ev' dead)
    · rw [update_of_ne eq]
      exact none

lemma Inv.step {a : Label} (careful : Careful s a) (hs : lockMachine.step s a = some s') : Inv s' := by
  cases a with
  | create =>
    cases hs
    exact I.quiet rfl rfl (.of_eq rfl rfl rfl)
  | memcpy q ev => exact I.memcpy hs
  | call t c =>
    obtain ⟨can, hs⟩ := ite_none_right_eq_some.1 hs
    exact I.begin can careful hs
  | answer t done =>
    have here := hs
    simp only [lockMachine] at here
    split at here
    · rename_i ev c rest top
      exact I.answer top hs
    · cases here
  | next t => exact I.next careful hs
  | place t => exact careful.elim
  | run t i =>
    obtain ⟨can, hs⟩ := ite_none_right_eq_some.1 hs
    obtain ⟨x, -, rfl⟩ := map_eq_some_iff.1 hs
    exact I.run can

end

/-- The invariant holds in every careful run. -/
lemma Inv.reach (h : lockMachine.Reach Careful s) : Inv s := by
  apply h.inv
  · rintro s rfl
    exact ⟨fun l t => ⟨nofun, nofun⟩, fun t => .nil, fun t => trivial⟩
  · intro s a s' I careful hs
    exact I.step careful hs

end Act
end Steps

section Cycles
variable {s : State} {t : Nat}

lemma Inv.wants_event {f : Frame} {rest : List Frame} {ev : Nat} (I : Inv s) (top : s.stack t = f :: rest)
    (wants : f.wants = some (.event ev)) (has : held (s.stack t) ≠ []) : Safe s ev := by
  have ok := I.stack t
  rw [top] at ok has
  rw [held_cons] at has
  rcases Frame.wants_event wants with on | ⟨u, rfl⟩
  · exfalso
    cases f with
    | query ev' => exact has ok.1
    | request q ev' locked =>
      obtain ⟨rfl, below⟩ := ok.1
      exact has below
    | erase => cases wants
    | _ => first | exact on.elim | cases wants
  · rcases ok.1 with ⟨rfl, below⟩ | S
    · exact absurd below has
    · exact S

lemma Inv.frees {ev : Nat} (I : Inv s) (S : Safe s ev) (has : s.holder (.event ev) = some t) :
    ∀ f rest, s.stack t = f :: rest → f.wants = none := by
  intro f rest top
  obtain ⟨g, mem, holds⟩ := mem_flatMap.1 ((I.holder _ t).1 has)
  rcases Frame.holds_event holds with on | ⟨u, rfl⟩
  · exact absurd on (S.off t g mem)
  · have ok := I.stack t
    rw [top] at ok mem
    rcases mem_cons.1 mem with rfl | mem
    · rfl
    · exact (ok.suspended _ mem).elim

lemma Inv.has_queue {q : Nat} (I : Inv s) (has : s.holder (.queue q) = some t) :
    ∀ f rest l, s.stack t = f :: rest → f.wants = some l → ∃ ev, l = .event ev := by
  intro f rest l top wants
  obtain ⟨g, mem, holds⟩ := mem_flatMap.1 ((I.holder _ t).1 has)
  have ok := I.stack t
  rw [top] at ok mem
  rcases mem_cons.1 mem with rfl | mem
  · cases g with
    | query | enqueue | submit | waitQueue | dequeue => cases holds
    | request q' ev | remove u ev => exact ⟨ev, (Option.some.inj wants).symm⟩
    | erase u ev q' =>
      obtain ⟨rfl, -⟩ := ok.1
      cases mem_singleton.1 holds
    | _ => cases wants
  · exfalso
    have suspended := ok.suspended g mem
    cases g with
    | transfer q' ev locked =>
      cases suspended
      cases mem_singleton.1 holds
    | taskWait | body => cases holds
    | _ => exact suspended.elim

lemma cycle_tail {α : Type*} {R : α → α → Prop} {a : α} (h : Relation.TransGen R a a) :
    ∃ b, R a b ∧ Relation.TransGen R b b := by
  obtain ⟨b, ab, ba⟩ := Relation.TransGen.head'_iff.1 h
  exact ⟨b, ab, Relation.TransGen.tail'_iff.2 ⟨a, ba, ab⟩⟩

lemma Inv.no_chain {t1 t2 t3 t4 t5 : Nat} (I : Inv s) (h1 : WaitsFor s t1 t2) (h2 : WaitsFor s t2 t3)
    (h3 : WaitsFor s t3 t4) (h4 : WaitsFor s t4 t5) : False := by
  obtain ⟨f1, rest1, l1, top1, wants1, has2⟩ := h1
  obtain ⟨f2, rest2, l2, top2, wants2, has3⟩ := h2
  obtain ⟨f3, rest3, l3, top3, wants3, has4⟩ := h3
  obtain ⟨f4, rest4, l4, top4, wants4, has5⟩ := h4
  have some : ∀ {l t}, s.holder l = some t → held (s.stack t) ≠ [] := by
    intro l t has
    exact ne_nil_of_mem ((I.holder l t).1 has)
  cases l2 with
  | event ev =>
    have S := I.wants_event top2 wants2 (some has2)
    rw [I.frees S has3 f3 rest3 top3] at wants3
    cases wants3
  | queue q =>
    obtain ⟨ev, rfl⟩ := I.has_queue has3 f3 rest3 l3 top3 wants3
    have S := I.wants_event top3 wants3 (some has3)
    rw [I.frees S has4 f4 rest4 top4] at wants4
    cases wants4

/-- Threads that do not take the lock of an event in use while they have a lock never wait for each other in
a cycle. -/
theorem locks_noCycle (h : lockMachine.Reach Careful s) : ¬Deadlock s := by
  rintro ⟨t1, cycle⟩
  have I := Inv.reach h
  obtain ⟨t2, h1, cycle⟩ := cycle_tail cycle
  obtain ⟨t3, h2, cycle⟩ := cycle_tail cycle
  obtain ⟨t4, h3, cycle⟩ := cycle_tail cycle
  obtain ⟨t5, h4, -⟩ := cycle_tail cycle
  exact I.no_chain h1 h2 h3 h4

end Cycles

/-- The threads that go on have no locks. -/
def Bare (s : State) : Label → Prop
  | .call t _ | .next t => held (s.stack t) = []
  | .place _ => False
  | _ => True

instance (s : State) (a : Label) : Decidable (Bare s a) := by
  unfold Bare
  split <;> infer_instance

lemma Bare.careful {s : State} {a : Label} (bare : Bare s a) : Careful s a := by
  cases a with
  | call t c =>
    cases c with
    | record | waitEvent | destroy => exact .inl bare
    | submit | waitQueue => trivial
  | next t => exact .inl bare
  | place t => exact bare.elim
  | create | memcpy | answer | run => trivial

/-- A thread that submits an item waits for one that records an event. -/
theorem locks_noCycle_wait : ∃ s, lockMachine.Reach Careful s ∧ WaitsFor s 1 0 ∧ ¬Deadlock s := by
  obtain ⟨s, h, submits, queue⟩ := Machine.exists_reach (M := lockMachine) (g := Bare)
    (P := fun s => s.stack 1 = [.submit 0] ∧ s.holder (.queue 0) = some 0)
    [.create, .call 0 (.record 0 0), .next 0, .call 1 (.submit 0)] rfl (by decide)
  have reach : lockMachine.Reach Careful s := h.mono fun _ _ bare => bare.careful
  exact ⟨s, reach, ⟨_, _, _, submits, rfl, queue⟩, locks_noCycle reach⟩

/-- A thread waits for a queue that has a request, another one destroys the event of the request. And a thread
whose task the scheduler refuses runs the task with the lock of the queue, and dequeues it from that queue. -/
theorem locks_cycle : (∃ s, lockMachine.Reachable s ∧ Deadlock s) ∧
    ∃ s, lockMachine.Reachable s ∧ WaitsFor s 0 0 := by
  constructor
  · refine Machine.shown (P := fun s => s.stack 0 = [.request 0 0 true] ∧ s.stack 1 = [.erase none 0 0] ∧
        s.holder (.event 0) = some 1 ∧ s.holder (.queue 0) = some 0)
      [.create, .memcpy 0 0, .call 0 (.waitQueue 0), .next 0, .next 0, .next 0, .call 1 (.destroy 0), .next 1,
        .next 1] rfl (by decide) fun s _ is => ?_
    obtain ⟨waits, destroys, event, queue⟩ := is
    have first : WaitsFor s 0 1 := ⟨_, _, _, waits, rfl, event⟩
    have second : WaitsFor s 1 0 := ⟨_, _, _, destroys, rfl, queue⟩
    exact ⟨0, .tail (.single first) second⟩
  · refine Machine.shown (P := fun s =>
        s.stack 0 = [.dequeue ⟨0, 0, .kernel⟩, .enqueued ⟨0, 0, .kernel⟩ none] ∧ s.holder (.queue 0) = some 0)
      [.call 0 (.submit 0), .next 0, .next 0, .next 0, .next 0, .place 0, .next 0] rfl (by decide) fun s _ is => ?_
    obtain ⟨dequeues, queue⟩ := is
    exact ⟨_, _, _, dequeues, rfl, queue⟩

end Kupl.Locks
