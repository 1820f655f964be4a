import Kupl.Executor.Expand

/-!
# The outcomes of the parts of a registration

What `kupl_sched_expand`, `kupl_memory_expand` and `kupl_executor_expand` leave for each way in which
their allocations go: one inversion lemma for each (`kuplSchedExpand_cases`, `kuplMemoryExpand_cases`,
`kuplExecutorExpand_cases`), from a state between two registrations that went as they should (`Inv`).
-/

namespace Kupl.Expand
open Option
open Function (update update_of_ne update_self)

namespace Globals

/-- The executors that were registered by external threads. -/
def Registered (s : Globals) (eid : Nat) : Prop :=
  s.executorCountInitial ≤ eid ∧ eid < s.executorCount

section Conditions
variable (s : Globals) (host : Host) (ok : Mallocs) (t : Nat)

def schedOk : Bool :=
  match s.expanded with
  | none => ok.sched && s.plugins && ok.mq && ok.queues && ok.priorityQueue && ok.queue
  | some mq => mq.numExecutors + 1 ≤ mq.maxNumExecutors && ok.queue

def memoryOk : Bool := s.poolSize < host.puCnt && ok.memory && ok.hbwMemory

/-- There is room in the executor table, and a lock for the entry. -/
def executorOk : Bool := s.executorCount < CPU_SETSIZE && ok.lock

/-- The array `queues` of the first expanded scheduler is what cannot be allocated. -/
def readsNull : Bool := s.schedExpand.isNone && ok.sched && s.plugins && ok.mq && !ok.queues

end Conditions
end Globals

namespace Heap

/-- Nothing is allocated from the next address on. -/
structure Fresh (h : Heap) : Prop where
  mqs : ∀ a, h.next ≤ a → h.mqs a = none
  scheds : ∀ a, h.next ≤ a → h.scheds a = none
  queues : ∀ a, h.next ≤ a → h.queues a = none
  memories : ∀ a, h.next ≤ a → h.memories a = none

/-- Queues and bins that were allocated stay as they are. -/
structure Grows (h h' : Heap) : Prop where
  next : h.next ≤ h'.next
  queues : ∀ a, a < h.next → h'.queues a = h.queues a
  memories : ∀ a, a < h.next → h'.memories a = h.memories a

variable {h h' h'' : Heap}

lemma Grows.trans (g : h.Grows h') (g' : h'.Grows h'') : h.Grows h'' where
  next := Nat.le_trans g.next g'.next
  queues a lt := (g'.queues a (Nat.lt_of_lt_of_le lt g.next)).trans (g.queues a lt)
  memories a lt := (g'.memories a (Nat.lt_of_lt_of_le lt g.next)).trans (g.memories a lt)

section
variable (f : h.Fresh)
include f

lemma Fresh.queue_lt {a queue} (e : h.queues a = some queue) : a < h.next := by
  by_contra ge
  rw [f.queues a (by omega)] at e
  cases e

lemma Fresh.memory_lt {a mem} (e : h.memories a = some mem) : a < h.next := by
  by_contra ge
  rw [f.memories a (by omega)] at e
  cases e

lemma Fresh.sched_lt {a sched} (e : h.scheds a = some sched) : a < h.next := by
  by_contra ge
  rw [f.scheds a (by omega)] at e
  cases e

lemma Fresh.mq_lt {a mq} (e : h.mqs a = some mq) : a < h.next := by
  by_contra ge
  rw [f.mqs a (by omega)] at e
  cases e

omit f in
lemma queueCreate_grows (size : Nat) : h.Grows (h.queueCreate true size).2 where
  next := Nat.le_succ _
  queues _ lt := update_of_ne (Nat.ne_of_lt lt) _ _
  memories _ _ := rfl

lemma skip_fresh : h.skip.Fresh where
  mqs a le := f.mqs a (Nat.le_of_succ_le le)
  scheds a le := f.scheds a (Nat.le_of_succ_le le)
  queues a le := f.queues a (Nat.le_of_succ_le le)
  memories a le := f.memories a (Nat.le_of_succ_le le)

lemma Fresh.setMq {b mq} (lt : b < h.next) :
    Fresh { h with mqs := update h.mqs b mq } where
  mqs a le := (update_of_ne (Nat.ne_of_gt (Nat.lt_of_lt_of_le lt le)) _ _).trans (f.mqs a le)
  scheds a le := f.scheds a le
  queues a le := f.queues a le
  memories a le := f.memories a le

lemma Fresh.setSched {b sched} (lt : b < h.next) :
    Fresh { h with scheds := update h.scheds b sched } where
  mqs a le := f.mqs a le
  scheds a le := (update_of_ne (Nat.ne_of_gt (Nat.lt_of_lt_of_le lt le)) _ _).trans (f.scheds a le)
  queues a le := f.queues a le
  memories a le := f.memories a le

lemma queueCreate_fresh (size : Nat) : (h.queueCreate true size).2.Fresh where
  mqs a le := f.mqs a (Nat.le_of_succ_le le)
  scheds a le := f.scheds a (Nat.le_of_succ_le le)
  queues a le := (update_of_ne (Nat.ne_of_gt le) _ _).trans (f.queues a (Nat.le_of_succ_le le))
  memories a le := f.memories a (Nat.le_of_succ_le le)

end

/-- Objects of a scheduler are freed and nothing else happens. -/
structure Frees (h h' : Heap) : Prop where
  next : h'.next = h.next
  memories : h'.memories = h.memories
  mqs : ∀ a, h.mqs a = none → h'.mqs a = none
  scheds : ∀ a, h.scheds a = none → h'.scheds a = none
  queues : ∀ a, h.queues a = none → h'.queues a = none

lemma Frees.refl : h.Frees h := ⟨rfl, rfl, fun _ e => e, fun _ e => e, fun _ e => e⟩

lemma Frees.trans (f : h.Frees h') (f' : h'.Frees h'') : h.Frees h'' where
  next := f'.next.trans f.next
  memories := f'.memories.trans f.memories
  mqs a e := f'.mqs a (f.mqs a e)
  scheds a e := f'.scheds a (f.scheds a e)
  queues a e := f'.queues a (f.queues a e)

lemma Frees.fresh (F : h.Frees h') (f : h.Fresh) : h'.Fresh where
  mqs a le := F.mqs a (f.mqs a (F.next ▸ le))
  scheds a le := F.scheds a (f.scheds a (F.next ▸ le))
  queues a le := F.queues a (f.queues a (F.next ▸ le))
  memories a le := (congrFun F.memories a).trans (f.memories a (F.next ▸ le))

lemma update_none {β : Type} {f : Nat → Option β} {a b : Nat} (e : f a = none) :
    update f b none a = none := by
  rw [Function.update_apply, e, ite_self]

lemma queueDestroy_frees : ∀ q : Option Nat, h.Frees (h.queueDestroy q)
  | none => Frees.refl
  | some _ => ⟨rfl, rfl, fun _ e => e, fun _ e => e, fun _ e => update_none e⟩

lemma queuesDestroy_frees (queues : Nat → Option Nat) (l : List Nat) :
    h.Frees (l.foldl (fun h i => h.queueDestroy (queues i)) h) := by
  induction l generalizing h with
  | nil => exact Frees.refl
  | cons i l ih => exact (queueDestroy_frees (queues i)).trans ih

lemma staticMqCleanup_frees (b : Nat) :
    h.Frees (h.staticMqCleanup b) ∧ (h.staticMqCleanup b).mqs b = none := by
  unfold staticMqCleanup
  cases e : h.mqs b with
  | none => exact ⟨Frees.refl, e⟩
  | some mq =>
    have F := queuesDestroy_frees (h := h) mq.queues (List.range mq.numExecutors)
    have F' : ∀ g : Heap, g.Frees { g with mqs := update g.mqs b none } := fun _ =>
      ⟨rfl, rfl, fun _ e => update_none e, fun _ e => e, fun _ e => e⟩
    exact ⟨F.trans (F' _), update_self ..⟩

lemma schedCleanup_frees : ∀ a : Option Nat, h.Frees (h.schedCleanup a)
  | none => Frees.refl
  | some a => by
    have F' : ∀ g : Heap, g.Frees { g with scheds := update g.scheds a none } := fun _ =>
      ⟨rfl, rfl, fun _ e => e, fun _ e => update_none e, fun _ e => e⟩
    cases ea : h.scheds a with
    | none =>
      simp only [schedCleanup, ea]
      exact Frees.refl
    | some sched =>
      cases eb : sched.pluginSched with
      | none =>
        simp only [schedCleanup, ea, eb]
        exact F' h
      | some b =>
        simp only [schedCleanup, ea, eb]
        exact (h.staticMqCleanup_frees b).1.trans (F' _)

end Heap

namespace Globals

/-- The expanded scheduler is allocated at `a`, with `n` queues. -/
def Scheduled (s : Globals) (a n : Nat) : Prop :=
  s.schedExpand = some a ∧ ∃ b mq, s.heap.scheds a = some ⟨1, false, some b⟩ ∧
    s.heap.mqs b = some mq ∧ mq.numExecutors = n ∧
    ∀ i, i < n → ∃ q queue, mq.queues i = some q ∧ s.heap.queues q = some queue

/-- The pool has bins of both kinds for each of its indices, and nothing from its size on. -/
structure Pooled (s : Globals) : Prop where
  pool : ∀ i, i < s.poolSize → ∃ m mem, s.pool i = some m ∧ s.heap.memories m = some mem
  hbwPool : ∀ i, i < s.poolSize → ∃ m mem, s.hbwPool i = some m ∧ s.heap.memories m = some mem
  above : ∀ i, s.poolSize ≤ i → s.pool i = none ∧ s.hbwPool i = none

/-- What holds between two registrations that went as they should. -/
structure Inv (s : Globals) : Prop where
  fresh : s.heap.Fresh
  pooled : s.Pooled
  initial : s.executorCountInitial ≤ s.executorCount
  idle : s.schedExpand = none → s.executorCount = s.executorCountInitial
  busy : ∀ a, s.schedExpand = some a → s.Scheduled a (s.executorCount - s.executorCountInitial)
  entries : ∀ a eid, s.schedExpand = some a → s.Registered eid → (s.executors eid).sched = some a
  room : s.executorCountInitial < s.executorCount → s.executorCount ≤ s.poolSize

variable {s s' : Globals} {eid : Nat}

lemma queueOf_eq {a b q mq queue} (es : (s.executors eid).sched = some a)
    (ea : s.heap.scheds a = some ⟨1, false, some b⟩) (eb : s.heap.mqs b = some mq)
    (eq : mq.queues (eid - s.executorCountInitial) = some q) (eh : s.heap.queues q = some queue) :
    s.queueOf eid = some (q, queue) := by
  simp only [queueOf, es, ea, eb, eq, eh, bind_some, map_some]

lemma Pooled.binsOf_eq (P : s.Pooled) (lt : eid < s.poolSize) :
    ∃ m mem, s.pool eid = some m ∧ s.heap.memories m = some mem ∧ s.binsOf eid = some (m, mem) := by
  obtain ⟨m, mem, em, eh⟩ := P.pool eid lt
  exact ⟨m, mem, em, eh, by simp only [binsOf, if_pos lt, em, eh, bind_some, map_some]⟩

lemma Pooled.hbwBinsOf_eq (P : s.Pooled) (lt : eid < s.poolSize) :
    ∃ m mem, s.hbwPool eid = some m ∧ s.heap.memories m = some mem ∧
      s.hbwBinsOf eid = some (m, mem) := by
  obtain ⟨m, mem, em, eh⟩ := P.hbwPool eid lt
  exact ⟨m, mem, em, eh, by simp only [hbwBinsOf, if_pos lt, em, eh, bind_some, map_some]⟩

lemma Inv.served (I : Inv s) (reg : s.Registered eid) :
    (s.queueOf eid).isSome ∧ (s.binsOf eid).isSome ∧ (s.hbwBinsOf eid).isSome := by
  have lt : eid < s.poolSize :=
    Nat.lt_of_lt_of_le reg.2 (I.room (Nat.lt_of_le_of_lt reg.1 reg.2))
  obtain ⟨m, mem, -, -, e⟩ := I.pooled.binsOf_eq lt
  obtain ⟨m', mem', -, -, e'⟩ := I.pooled.hbwBinsOf_eq lt
  refine ⟨?_, by rw [e]; rfl, by rw [e']; rfl⟩
  cases ex : s.schedExpand with
  | none =>
    have := I.idle ex
    have := reg.1
    have := reg.2
    omega
  | some a =>
    obtain ⟨-, b, mq, es, eb, en, live⟩ := I.busy a ex
    obtain ⟨q, queue, eq, eu⟩ := live (eid - s.executorCountInitial) (Nat.sub_lt_sub_right reg.1 reg.2)
    rw [queueOf_eq (I.entries a eid ex reg) es eb eq eu]
    rfl

lemma Scheduled.expanded {a n} (S : s.Scheduled a n) : ∃ mq, s.expanded = some mq ∧
    mq.numExecutors = n := by
  obtain ⟨ea, b, mq, es, eb, en, -⟩ := S
  exact ⟨mq, by simp only [Globals.expanded, ea, es, eb, bind_some], en⟩

lemma expanded_none (e : s.schedExpand = none) : s.expanded = none := by
  simp only [Globals.expanded, e, bind_none]

/-- A scheduler for the next executor: only the heap and the pointer to the scheduler have changed, and
the executors registered before find their queues as they were. -/
structure Grown (s s' : Globals) : Prop where
  rest : s' = { s with heap := s'.heap, schedExpand := s'.schedExpand }
  fresh : s'.heap.Fresh
  grows : s.heap.Grows s'.heap
  sched : ∃ a, s'.Scheduled a (s.executorCount - s.executorCountInitial + 1) ∧
    ∀ eid, s.Registered eid → (s.executors eid).sched = some a
  queue : ∀ eid, s.Registered eid → s'.queueOf eid = s.queueOf eid

end Globals

def Heap.firstSched (h : Heap) (host : Host) : Heap :=
  { (h.queueCreate true host.queueLength).2.skip.skip.skip with
    scheds := update h.scheds (h.next + 3) (some ⟨1, false, some (h.next + 2)⟩)
    mqs := update h.mqs (h.next + 2) (some
      { maxNumExecutors := host.puCnt
        numExecutors := 1
        queueSize := host.queueLength
        priorityQueues := h.next + 1
        queues := update (fun _ => none) 0 (some h.next) }) }

lemma Heap.schedCreate_cases {h : Heap} (f : h.Fresh) (host : Host) (ok : Mallocs) (plugins : Bool) :
    (h.schedCreate host ok plugins = none ∧ ok.sched ∧ plugins ∧ ok.mq ∧ ok.queues = false) ∨
    (h.schedCreate host ok plugins = some (none, h) ∧
      ¬(ok.sched ∧ plugins ∧ ok.mq ∧ ok.queues ∧ ok.priorityQueue ∧ ok.queue) ∧
      ¬(ok.sched ∧ plugins ∧ ok.mq ∧ ok.queues = false)) ∨
    ∃ a h', h.schedCreate host ok plugins = some (some a, h') ∧
      (ok.sched ∧ plugins ∧ ok.mq ∧ ok.queues ∧ ok.priorityQueue ∧ ok.queue) ∧ h'.Fresh ∧ h.Grows h' ∧
      ∃ b mq q queue, h'.scheds a = some ⟨1, false, some b⟩ ∧ h'.mqs b = some mq ∧
        mq.numExecutors = 1 ∧ mq.queues 0 = some q ∧ h'.queues q = some queue := by
  cases hs : ok.sched with
  | false => exact .inr (.inl ⟨by simp [schedCreate, hs], by simp, by simp⟩)
  | true =>
  cases hg : plugins with
  | false => exact .inr (.inl ⟨by simp [schedCreate, hs], by simp, by simp⟩)
  | true =>
  cases hm : ok.mq with
  | false => exact .inr (.inl ⟨by simp [schedCreate, staticMqCreate, hs, hm], by simp, by simp⟩)
  | true =>
  cases hq : ok.queues with
  | false => exact .inl ⟨by simp [schedCreate, staticMqCreate, hs, hm, hq], rfl, rfl, rfl, rfl⟩
  | true =>
  cases hp : ok.priorityQueue with
  | false => exact .inr (.inl ⟨by simp [schedCreate, staticMqCreate, hs, hm, hq, hp], by simp, by simp⟩)
  | true =>
  cases hu : ok.queue with
  | false =>
    refine .inr (.inl ⟨?_, by simp, by simp⟩)
    simp [schedCreate, staticMqCreate, queueCreate, hs, hm, hq, hp, hu]
  | true =>
    have f' := h.queueCreate_fresh f host.queueLength
    have g' := h.queueCreate_grows host.queueLength
    have eh : (h.queueCreate true host.queueLength).2.queues h.next = some ⟨host.queueLength, []⟩ :=
      update_self ..
    refine .inr (.inr ⟨h.next + 3, h.firstSched host, ?_, ⟨rfl, rfl, rfl, rfl, rfl, rfl⟩, ?_⟩)
    · simp only [schedCreate, staticMqCreate, hs, hm, hq, hp, hu, Bool.not_true, Bool.false_eq_true,
        if_false]
      rfl
    · refine ⟨?_, g'.trans ⟨Nat.le_add_right _ 3, fun _ _ => rfl, fun _ _ => rfl⟩, h.next + 2, _, h.next,
        _, update_self .., update_self .., rfl, rfl, eh⟩
      have lt : h.next + 2 < (h.queueCreate true host.queueLength).2.skip.skip.skip.next :=
        Nat.lt_succ_of_lt (Nat.lt_succ_self _)
      exact ((skip_fresh (skip_fresh (skip_fresh f'))).setMq lt).setSched (Nat.lt_succ_self _)

lemma Heap.staticMqExpand_inv {h h' : Heap} {ok b mq r} (f : h.Fresh) (eb : h.mqs b = some mq)
    (e : h.staticMqExpand ok b = some (r, h')) :
    (r = none ∧ ¬(mq.numExecutors + 1 ≤ mq.maxNumExecutors ∧ ok.queue)) ∨
    (r = some b ∧ (mq.numExecutors + 1 ≤ mq.maxNumExecutors ∧ ok.queue) ∧ h'.Fresh ∧ h.Grows h' ∧
      h'.scheds = h.scheds ∧
      ∃ mq' queue, h'.mqs b = some mq' ∧ mq'.numExecutors = mq.numExecutors + 1 ∧
        (∀ i, i ≠ mq.numExecutors → mq'.queues i = mq.queues i) ∧
        mq'.queues mq.numExecutors = some h.next ∧ h'.queues h.next = some queue) := by
  simp only [staticMqExpand, eb] at e
  by_cases full : mq.numExecutors + 1 > mq.maxNumExecutors
  · rw [if_pos full] at e
    cases e
    exact .inl ⟨rfl, fun room => by omega⟩
  · rw [if_neg full] at e
    cases hu : ok.queue with
    | false =>
      simp only [hu, queueCreate, Bool.false_eq_true, if_false] at e
      cases e
      exact .inl ⟨rfl, fun room => nomatch room.2⟩
    | true =>
      have f' := h.queueCreate_fresh f mq.queueSize
      have g' := h.queueCreate_grows mq.queueSize
      have eh : (h.queueCreate true mq.queueSize).2.queues h.next = some ⟨mq.queueSize, []⟩ :=
        update_self ..
      simp only [hu] at e
      cases e
      have lt : b < (h.queueCreate true mq.queueSize).2.next := Nat.lt_succ_of_lt (f.mq_lt eb)
      refine .inr ⟨rfl, ⟨by omega, rfl⟩, f'.setMq lt, ?_, rfl, _, _, update_self .., rfl, ?_, ?_, eh⟩
      · exact g'.trans ⟨Nat.le_refl _, fun _ _ => rfl, fun _ _ => rfl⟩
      · exact fun i ne => update_of_ne ne _ _
      · exact update_self ..

namespace Globals
variable {s s' : Globals} {host : Host} {ok : Mallocs} {t eid : Nat}

lemma kuplSchedExpand_cases (I : Inv s) (host : Host) (ok : Mallocs) :
    (s.kuplSchedExpand host ok = none ∧ s.readsNull ok) ∨
    (∃ s', s.kuplSchedExpand host ok = some (false, s') ∧ ¬s.schedOk ok ∧ ¬s.readsNull ok ∧
      s'.schedExpand = none ∧ s'.globalId = s.globalId ∧
      (s.schedExpand = none → s' = { s with plugins := false, schedExpand := none })) ∨
    ∃ s', s.kuplSchedExpand host ok = some (true, s') ∧ s.schedOk ok ∧ ¬s.readsNull ok ∧ s.Grown s' := by
  cases ex : s.schedExpand with
  | none =>
    have no_one : ∀ eid, ¬s.Registered eid := by
      intro eid reg
      have := I.idle ex
      have := reg.1
      have := reg.2
      omega
    obtain ⟨e, hs, hp, hm, hq⟩ | ⟨e, bad, nn⟩ | ⟨a, h', e, all, f, g, b, mq, q, queue, ea, eb,
      en, eq, eu⟩ :=
      s.heap.schedCreate_cases I.fresh host ok s.plugins
    · refine .inl ⟨by simp only [kuplSchedExpand, ex, e], ?_⟩
      simp [readsNull, ex, hs, hp, hm, hq]
    · refine .inr (.inl ⟨{ s with plugins := false, schedExpand := none }, ?_, ?_, ?_, rfl, rfl,
        fun _ => rfl⟩)
      · simp only [kuplSchedExpand, ex, e]
      · simpa [schedOk, expanded_none ex, and_assoc] using bad
      · simpa [readsNull, ex, and_assoc] using nn
    · refine .inr (.inr ⟨{ s with heap := h', schedExpand := some a },
        by simp only [kuplSchedExpand, ex, e], ?_, ?_, rfl, f, g, ⟨a, ⟨rfl, b, mq, ea, eb, ?_, ?_⟩, ?_⟩, ?_⟩)
      · simpa [schedOk, expanded_none ex, and_assoc] using all
      · simp [readsNull, all.2.2.2.1]
      · rw [en, I.idle ex, Nat.sub_self]
      · intro i lt
        rw [I.idle ex, Nat.sub_self] at lt
        obtain rfl : i = 0 := by omega
        exact ⟨q, queue, eq, eu⟩
      · exact fun eid reg => absurd reg (no_one eid)
      · exact fun eid reg => absurd reg (no_one eid)
  | some a =>
    have nn : ¬s.readsNull ok := by simp [readsNull, ex]
    obtain ⟨-, b, mq, ea, eb, en, live⟩ := I.busy a ex
    have exp : s.expanded = some mq := by simp only [expanded, ex, ea, eb, bind_some]
    have so : s.schedOk ok ↔ mq.numExecutors + 1 ≤ mq.maxNumExecutors ∧ ok.queue := by
      simp only [schedOk, exp, Bool.and_eq_true, decide_eq_true_eq]
    cases e : s.heap.staticMqExpand ok b with
    | none =>
      simp only [Heap.staticMqExpand, eb] at e
      split at e
      · cases e
      · split at e <;> cases e
    | some rh =>
      obtain ⟨r, h'⟩ := rh
      obtain ⟨rfl, bad⟩ | ⟨rfl, room, f, g, es, mq', queue, eb', en', same, eq, eu⟩ :=
        Heap.staticMqExpand_inv I.fresh eb e
      · refine .inr (.inl ⟨{ s with
          heap := { h' with scheds := update h'.scheds a none }
          schedExpand := none }, ?_, fun o => bad (so.1 o), nn, rfl, rfl, nofun⟩)
        simp only [kuplSchedExpand, ex, ea, e]
      · have ea' : update h'.scheds a (some ⟨1, false, some b⟩) a = some ⟨1, false, some b⟩ :=
          update_self ..
        have lt : a < h'.next := Nat.lt_of_lt_of_le (I.fresh.sched_lt ea) g.next
        refine .inr (.inr ⟨{ s with
          heap := { h' with scheds := update h'.scheds a (some ⟨1, false, some b⟩) } },
          ?_, so.2 room, nn, rfl, f.setSched lt, ⟨g.next, g.queues, g.memories⟩,
          ⟨a, ⟨ex, b, mq', ea', eb', ?_, ?_⟩, fun eid reg => I.entries a eid ex reg⟩, ?_⟩)
        · simp only [kuplSchedExpand, ex, ea, e]
        · rw [en', en]
        · intro i lt
          by_cases last : i = mq.numExecutors
          · rw [last]
            exact ⟨s.heap.next, queue, eq, eu⟩
          · obtain ⟨q, queue, eq, eu⟩ := live i (by omega)
            exact ⟨q, queue, (same i last).trans eq, (g.queues q (I.fresh.queue_lt eu)).trans eu⟩
        · intro eid reg
          have entry := I.entries a eid ex reg
          have below : eid - s.executorCountInitial < s.executorCount - s.executorCountInitial :=
            Nat.sub_lt_sub_right reg.1 reg.2
          have other : eid - s.executorCountInitial ≠ mq.numExecutors := by omega
          obtain ⟨q, queue, eq, eu⟩ := live _ below
          rw [queueOf_eq entry ea eb eq eu]
          refine queueOf_eq entry ea' eb' ?_ ?_
          · exact (same _ other).trans eq
          · exact (g.queues q (I.fresh.queue_lt eu)).trans eu

lemma Pooled.grows {h : Heap} (P : s.Pooled) (f : s.heap.Fresh)
    (g : ∀ a, a < s.heap.next → h.memories a = s.heap.memories a) : { s with heap := h }.Pooled := by
  refine ⟨fun i lt => ?_, fun i lt => ?_, P.above⟩
  · obtain ⟨m, mem, em, eh⟩ := P.pool i lt
    exact ⟨m, mem, em, (g m (f.memory_lt eh)).trans eh⟩
  · obtain ⟨m, mem, em, eh⟩ := P.hbwPool i lt
    exact ⟨m, mem, em, (g m (f.memory_lt eh)).trans eh⟩

lemma Grown.pooled (G : s.Grown s') (f : s.heap.Fresh) (P : s.Pooled) : s'.Pooled := by
  have pooled := P.grows f G.grows.memories
  rw [G.rest]
  exact ⟨pooled.pool, pooled.hbwPool, pooled.above⟩

lemma Grown.binsOf_eq (G : s.Grown s') (f : s.heap.Fresh) (P : s.Pooled) (lt : eid < s.poolSize) :
    s'.binsOf eid = s.binsOf eid ∧ s'.hbwBinsOf eid = s.hbwBinsOf eid := by
  obtain ⟨m, mem, em, eh, eb⟩ := P.binsOf_eq lt
  obtain ⟨m', mem', em', eh', eb'⟩ := P.hbwBinsOf_eq lt
  rw [eb, eb', G.rest]
  constructor
  · simp only [binsOf, if_pos lt, em, G.grows.memories m (f.memory_lt eh), eh, bind_some,
      map_some]
  · simp only [hbwBinsOf, if_pos lt, em', G.grows.memories m' (f.memory_lt eh'), eh', bind_some,
      map_some]

/-- Bins of both kinds for the next index of the pool, and nothing else. -/
structure Stored (s s' : Globals) : Prop where
  rest : s' = { s with
    heap := { s.heap with next := s'.heap.next, memories := s'.heap.memories }
    pool := s'.pool
    hbwPool := s'.hbwPool
    poolSize := s.poolSize + 1 }
  fresh : s'.heap.Fresh
  grows : s.heap.Grows s'.heap
  pooled : s'.Pooled
  pool : ∀ i, i < s.poolSize → s'.pool i = s.pool i
  hbwPool : ∀ i, i < s.poolSize → s'.hbwPool i = s.hbwPool i

lemma Stored.binsOf_eq (S : s.Stored s') (f : s.heap.Fresh) (P : s.Pooled) (lt : eid < s.poolSize) :
    s'.binsOf eid = s.binsOf eid ∧ s'.hbwBinsOf eid = s.hbwBinsOf eid := by
  have size : s'.poolSize = s.poolSize + 1 := by rw [S.rest]
  obtain ⟨m, mem, em, eh, eb⟩ := P.binsOf_eq lt
  obtain ⟨m', mem', em', eh', eb'⟩ := P.hbwBinsOf_eq lt
  rw [eb, eb']
  constructor
  · simp only [binsOf, size, if_pos (Nat.lt_succ_of_lt lt), S.pool eid lt, em,
      S.grows.memories m (f.memory_lt eh), eh, bind_some, map_some]
  · simp only [hbwBinsOf, size, if_pos (Nat.lt_succ_of_lt lt), S.hbwPool eid lt, em',
      S.grows.memories m' (f.memory_lt eh'), eh', bind_some, map_some]

def store (s : Globals) : Globals :=
  { s with
    heap := { s.heap with
      next := s.heap.next + 1 + 1
      memories := update (update s.heap.memories s.heap.next (some ⟨s.poolSize⟩))
        (s.heap.next + 1) (some ⟨s.poolSize⟩) }
    pool := update s.pool s.poolSize (some s.heap.next)
    hbwPool := update s.hbwPool s.poolSize (some (s.heap.next + 1))
    poolSize := s.poolSize + 1 }

lemma store_old {a : Nat} (lt : a < s.heap.next) : s.store.heap.memories a = s.heap.memories a := by
  simp only [store, update_of_ne (Nat.ne_of_lt (Nat.lt_succ_of_lt lt)), update_of_ne (Nat.ne_of_lt lt)]

lemma store_mine : s.store.heap.memories s.heap.next = some ⟨s.poolSize⟩ := by
  simp only [store, update_of_ne (Nat.ne_of_lt (Nat.lt_succ_self _)), update_self]

lemma store_fresh (f : s.heap.Fresh) : s.store.heap.Fresh := by
  refine ⟨fun a le => f.mqs a ?_, fun a le => f.scheds a ?_, fun a le => f.queues a ?_, fun a le => ?_⟩
  all_goals have le' : s.heap.next + 1 + 1 ≤ a := le
  · omega
  · omega
  · omega
  · simp only [store]
    rw [update_of_ne (by omega), update_of_ne (by omega)]
    exact f.memories a (by omega)

lemma store_stored (f : s.heap.Fresh) (P : s.Pooled) : s.Stored s.store := by
  have pool : ∀ i, i ≠ s.poolSize → s.store.pool i = s.pool i := fun i ne =>
    update_of_ne ne _ _
  have hbwPool : ∀ i, i ≠ s.poolSize → s.store.hbwPool i = s.hbwPool i := fun i ne =>
    update_of_ne ne _ _
  refine ⟨rfl, store_fresh f, ⟨Nat.le_add_right _ 2, fun _ _ => rfl, fun _ => store_old⟩,
    ⟨?_, ?_, ?_⟩, ?_, ?_⟩
  · intro i lt
    have lt' : i < s.poolSize + 1 := lt
    by_cases last : i = s.poolSize
    · rw [last]
      exact ⟨s.heap.next, _, update_self .., store_mine⟩
    · obtain ⟨m, mem, em, eh⟩ := P.pool i (by omega)
      exact ⟨m, mem, (pool i last).trans em, (store_old (f.memory_lt eh)).trans eh⟩
  · intro i lt
    have lt' : i < s.poolSize + 1 := lt
    by_cases last : i = s.poolSize
    · rw [last]
      exact ⟨s.heap.next + 1, _, update_self .., update_self ..⟩
    · obtain ⟨m, mem, em, eh⟩ := P.hbwPool i (by omega)
      exact ⟨m, mem, (hbwPool i last).trans em, (store_old (f.memory_lt eh)).trans eh⟩
  · intro i le
    have le' : s.poolSize + 1 ≤ i := le
    rw [pool i (by omega), hbwPool i (by omega)]
    exact P.above i (by omega)
  · exact fun i lt => pool i (Nat.ne_of_lt lt)
  · exact fun i lt => hbwPool i (Nat.ne_of_lt lt)

lemma kuplMemoryExpand_cases (f : s.heap.Fresh) (P : s.Pooled) (host : Host) (ok : Mallocs) :
    (s.kuplMemoryExpand host ok = (false, s) ∧ (host.puCnt ≤ s.poolSize ∨ ¬ok.memory)) ∨
    (∃ s', s.kuplMemoryExpand host ok = (false, s') ∧ ¬(host.puCnt ≤ s.poolSize ∨ ¬ok.memory) ∧
      ¬s.memoryOk host ok ∧ s'.pool s.poolSize ≠ none ∧ s'.globalId = s.globalId) ∨
    ∃ s', s.kuplMemoryExpand host ok = (true, s') ∧ s.memoryOk host ok ∧ s.Stored s' := by
  by_cases full : s.poolSize ≥ host.puCnt
  · exact .inl ⟨by simp only [kuplMemoryExpand, if_pos full], .inl full⟩
  cases hm : ok.memory with
  | false =>
    refine .inl ⟨?_, .inr (by simp)⟩
    simp only [kuplMemoryExpand, if_neg full, hm, Heap.memoryCreate, Bool.false_eq_true, if_false]
  | true =>
  have room : ¬(host.puCnt ≤ s.poolSize ∨ ¬(true : Bool)) := by simpa using full
  cases hh : ok.hbwMemory with
  | false =>
    refine .inr (.inl ⟨{ s with
      heap := Heap.memoryFree (s.heap.memoryCreate true s.poolSize).2
        (update s.pool s.poolSize (some s.heap.next) s.poolSize)
      pool := update s.pool s.poolSize (some s.heap.next) }, ?_, room, ?_, ?_, rfl⟩)
    · simp only [kuplMemoryExpand, if_neg full, hm, hh, Heap.memoryCreate, Bool.false_eq_true, if_false,
        if_true]
    · simp [memoryOk, hh]
    · show update s.pool s.poolSize (some s.heap.next) s.poolSize ≠ none
      rw [update_self]
      nofun
  | true =>
    refine .inr (.inr ⟨s.store, ?_, by simpa [memoryOk, hm, hh] using full, store_stored f P⟩)
    simp only [kuplMemoryExpand, if_neg full, hm, hh, Heap.memoryCreate, Heap.skip, if_true, store]

lemma Stored.queueOf_eq (S : s.Stored s') (eid : Nat) : s'.queueOf eid = s.queueOf eid := by
  rw [S.rest]
  rfl

/-- The globals after thread `t` was given the next entry of the executor table. -/
def enter (s : Globals) (t : Nat) : Globals :=
  { s with
    heap := s.heap.skip
    executors := update s.executors s.executorCount
      ⟨s.executorCount, false, some s.heap.next, true, s.schedExpand⟩
    executorSetExpand := update s.executorSetExpand s.executorCount true
    executorCount := s.executorCount + 1
    globalId := update s.globalId t (some s.executorCount) }

lemma kuplExecutorExpand_cases (s : Globals) (ok : Mallocs) (t : Nat) :
    (∃ s', s.kuplExecutorExpand ok t = (false, s') ∧ ¬s.executorOk ok ∧ s'.pool = s.pool ∧
      s'.globalId = s.globalId) ∨
    (s.kuplExecutorExpand ok t = (true, s.enter t) ∧ s.executorOk ok) := by
  by_cases full : s.executorCount ≥ CPU_SETSIZE
  · refine .inl ⟨s, by simp only [kuplExecutorExpand, if_pos full], ?_, rfl, rfl⟩
    simp only [executorOk, Bool.and_eq_true, decide_eq_true_eq]
    omega
  · cases hl : ok.lock with
    | false =>
      let entry : Executor := { s.executors s.executorCount with lock := none }
      refine .inl ⟨{ s with executors := update s.executors s.executorCount entry }, ?_,
        by simp [executorOk, hl], rfl, rfl⟩
      simp only [kuplExecutorExpand, if_neg full, hl, Bool.not_false, if_true, entry]
    | true =>
      refine .inr ⟨?_, by simpa [executorOk, hl] using full⟩
      simp only [kuplExecutorExpand, if_neg full, hl, Bool.not_true, Bool.false_eq_true, if_false, enter]

end Globals

end Kupl.Expand
