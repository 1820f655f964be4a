import Kupl.Executor.Outcomes

/-!
# What the executors registered before keep

Registrations one after the other, each with any of its allocations failing. A registration that fails
once an expanded scheduler exists cleans up that scheduler, and with it the queues of every executor
registered before; one that fails after `kupl_memory_expand` has stored the new bins leaves the freed
pointer in the table; the error path of `kupl_sched_expand_static_mq_create` reads through `queues` where
this is what could not be allocated; and an id beyond the memory pool has no bins. `Fine` excludes just
these (`registrations_keep_iff`).
-/

namespace Kupl.Expand

namespace Globals
variable {s s' : Globals} {host : Host} {ok : Mallocs} {t eid : Nat}

/-- The counts and the tables that a registration writes to. -/
structure Tables where
  executorCount : Nat
  executors : Nat → Executor
  executorSetExpand : Nat → Bool
  expanded : Option StaticMq
  poolSize : Nat
  pool : Nat → Option Nat
  hbwPool : Nat → Option Nat

def tables (s : Globals) : Tables :=
  ⟨s.executorCount, s.executors, s.executorSetExpand, s.expanded, s.poolSize, s.pool, s.hbwPool⟩

/-- What a call of `kupl_get_executor_num` by thread `t` must leave: queue and bins of the executors that
were registered before, queue and bins for each that is registered now, and the counts and tables where
the thread gets no id. -/
structure Keeps (s s' : Globals) (t : Nat) : Prop where
  queue : ∀ eid, s.Registered eid → s'.queueOf eid = s.queueOf eid
  bins : ∀ eid, s.Registered eid → s'.binsOf eid = s.binsOf eid
  hbwBins : ∀ eid, s.Registered eid → s'.hbwBinsOf eid = s.hbwBinsOf eid
  served : ∀ eid, s'.Registered eid → (s'.queueOf eid).isSome ∧ (s'.binsOf eid).isSome ∧
    (s'.hbwBinsOf eid).isSome
  failed : s'.globalId t = none → s'.tables = s.tables

/-- The registration goes well and the id is an index of the pool, or there is no expanded scheduler yet
and it fails before new bins are stored. -/
def Fine (s : Globals) (host : Host) (ok : Mallocs) (t : Nat) : Prop :=
  s.globalId t ≠ none ∨
  (s.schedOk ok ∧ s.memoryOk host ok ∧ s.executorOk ok ∧ s.executorCount ≤ s.poolSize) ∨
  (s.schedExpand = none ∧ ¬s.readsNull ok ∧ (¬s.schedOk ok ∨ host.puCnt ≤ s.poolSize ∨ ¬ok.memory))

lemma enter_below (lt : eid < s.executorCount) : (s.enter t).queueOf eid = s.queueOf eid ∧
    (s.enter t).binsOf eid = s.binsOf eid ∧ (s.enter t).hbwBinsOf eid = s.hbwBinsOf eid := by
  refine ⟨?_, rfl, rfl⟩
  simp only [queueOf, enter, Function.update_of_ne (Nat.ne_of_lt lt), Heap.skip]

lemma enter_keeps {s₁ s₂ : Globals} (I : Inv s) (G : s.Grown s₁) (S : s₁.Stored s₂) (t : Nat)
    (room : s.executorCount ≤ s.poolSize) : s.Keeps (s₂.enter t) t ∧ (s₂.enter t).Inv := by
  have P₁ := G.pooled I.fresh I.pooled
  have count : s₂.executorCount = s.executorCount := by rw [S.rest, G.rest]
  have initial : s₂.executorCountInitial = s.executorCountInitial := by rw [S.rest, G.rest]
  have entries : s₂.executors = s.executors := by rw [S.rest, G.rest]
  have size₁ : s₁.poolSize = s.poolSize := by rw [G.rest]
  have size : s₂.poolSize = s.poolSize + 1 := by rw [S.rest, size₁]
  obtain ⟨a, sched₁, same⟩ := G.sched
  obtain ⟨ea, b, mq, es, eb, en, live⟩ : s₂.Scheduled a (s.executorCount - s.executorCountInitial + 1) := by
    rw [S.rest]
    exact sched₁
  have old : ∀ eid, s.Registered eid → (s₂.enter t).queueOf eid = s.queueOf eid := by
    intro eid reg
    rw [(enter_below (count ▸ reg.2)).1, S.queueOf_eq, G.queue eid reg]
  have bins : ∀ eid, eid < s.poolSize → (s₂.enter t).binsOf eid = s.binsOf eid ∧
      (s₂.enter t).hbwBinsOf eid = s.hbwBinsOf eid := by
    intro eid lt
    have g := G.binsOf_eq I.fresh I.pooled lt
    have st := S.binsOf_eq G.fresh P₁ (size₁.symm ▸ lt)
    exact ⟨st.1.trans g.1, st.2.trans g.2⟩
  have below : ∀ eid, s.Registered eid → eid < s.poolSize := fun eid reg =>
    Nat.lt_of_lt_of_le reg.2 room
  have inv : (s₂.enter t).Inv :=
    { fresh := Heap.skip_fresh S.fresh
      pooled := ⟨S.pooled.pool, S.pooled.hbwPool, S.pooled.above⟩
      initial := by
        have := I.initial
        simp only [enter, count, initial]
        omega
      idle := fun e => by cases ea.symm.trans e
      busy := by
        intro a' e
        cases ea.symm.trans e
        have n : s.executorCount - s.executorCountInitial + 1 =
            s.executorCount + 1 - s.executorCountInitial := (Nat.succ_sub I.initial).symm
        simp only [enter, count, initial, ← n]
        exact ⟨ea, b, mq, es, eb, en, live⟩
      entries := by
        intro a' eid e reg
        cases ea.symm.trans e
        have lt : eid < s.executorCount + 1 := count ▸ reg.2
        by_cases last : eid = s.executorCount
        · simp only [enter, last, count, Function.update_self, ea]
        · simp only [enter, count, Function.update_of_ne last, entries]
          exact same eid ⟨initial ▸ reg.1, by omega⟩
      room := by
        intro _
        simp only [enter, count, size]
        omega }
  refine ⟨⟨old, fun eid reg => (bins eid (below eid reg)).1, fun eid reg => (bins eid (below eid reg)).2,
    fun eid reg => inv.served reg, fun e => ?_⟩, inv⟩
  simp [enter] at e

lemma enter_unserved {s₁ s₂ : Globals} (I : Inv s) (G : s.Grown s₁) (S : s₁.Stored s₂)
    (beyond : ¬s.executorCount ≤ s.poolSize) : ¬s.Keeps (s₂.enter t) t := by
  intro K
  have count : s₂.executorCount = s.executorCount := by rw [S.rest, G.rest]
  have initial : s₂.executorCountInitial = s.executorCountInitial := by rw [S.rest, G.rest]
  have size : s₂.poolSize = s.poolSize + 1 := by rw [S.rest, G.rest]
  have reg : (s₂.enter t).Registered s.executorCount := by
    refine ⟨initial ▸ I.initial, ?_⟩
    simp only [enter, count]
    omega
  have none : (s₂.enter t).binsOf s.executorCount = none := by
    apply if_neg
    simp only [enter, size]
    omega
  have served := (K.served _ reg).2.1
  rw [none] at served
  cases served

lemma not_keeps_of_cleaned {a n} (S : s.Scheduled a n) (idle : s'.globalId t = none)
    (e : s'.schedExpand = none) : ¬s.Keeps s' t := by
  intro K
  obtain ⟨mq, em, -⟩ := S.expanded
  have same := congrArg Tables.expanded (K.failed idle)
  rw [show s'.tables.expanded = s'.expanded from rfl, expanded_none e] at same
  rw [show s.tables.expanded = s.expanded from rfl, em] at same
  cases same

lemma not_keeps_of_stored (P : s.Pooled) (idle : s'.globalId t = none)
    (left : s'.pool s.poolSize ≠ none) : ¬s.Keeps s' t := by
  intro K
  have same := congrFun (congrArg Tables.pool (K.failed idle)) s.poolSize
  exact left (same.trans (P.above s.poolSize (Nat.le_refl _)).1)

lemma keeps_of_idle (I : Inv s) (e : s.schedExpand = none) {h : Heap} {plugins : Bool} (f : h.Fresh)
    (g : ∀ a, a < s.heap.next → h.memories a = s.heap.memories a) :
    s.Keeps { s with heap := h, plugins := plugins, schedExpand := none } t ∧
      Inv { s with heap := h, plugins := plugins, schedExpand := none } := by
  have no_one : ∀ eid, ¬s.Registered eid := by
    intro eid reg
    have := I.idle e
    have := reg.1
    have := reg.2
    omega
  refine ⟨⟨fun eid reg => absurd reg (no_one eid), fun eid reg => absurd reg (no_one eid),
    fun eid reg => absurd reg (no_one eid), fun eid reg => absurd reg (no_one eid), fun _ => ?_⟩, ?_⟩
  · simp only [tables, expanded_none e]
    rfl
  · have pooled := I.pooled.grows I.fresh g
    exact ⟨f, ⟨pooled.pool, pooled.hbwPool, pooled.above⟩, I.initial, fun _ => I.idle e, nofun, nofun, I.room⟩

lemma registerThread_cases (I : Inv s) (idle : s.globalId t = none) (host : Host) (ok : Mallocs) :
    (s.Fine host ok t ∧ ∃ s', s.registerThread host ok t = some s' ∧ s.Keeps s' t ∧ s'.Inv) ∨
    (¬s.Fine host ok t ∧ ∀ s', s.registerThread host ok t = some s' → ¬s.Keeps s' t) := by
  have fine : s.Fine host ok t ↔
      (s.schedOk ok ∧ s.memoryOk host ok ∧ s.executorOk ok ∧ s.executorCount ≤ s.poolSize) ∨
      (s.schedExpand = none ∧ ¬s.readsNull ok ∧
        (¬s.schedOk ok ∨ host.puCnt ≤ s.poolSize ∨ ¬ok.memory)) := by
    simp only [Fine, idle, ne_eq, not_true, false_or]
  rw [fine]
  obtain ⟨e, nn⟩ | ⟨s₁, e, bad, nn, ex₁, id₁, keep⟩ | ⟨s₁, e, so, nn, G⟩ :=
    s.kuplSchedExpand_cases I host ok
  · -- the error path of the first scheduler reads through a null pointer
    refine .inr ⟨?_, fun s' e' => ?_⟩
    · rintro (⟨so, -⟩ | ⟨-, nn', -⟩)
      · simp only [readsNull, Bool.and_eq_true, Option.isNone_iff_eq_none, Bool.not_eq_true'] at nn
        simp [schedOk, expanded_none nn.1.1.1.1, nn.2] at so
      · exact nn' nn
    · simp only [registerThread, e] at e'
      cases e'
  · cases ex : s.schedExpand with
    | none =>
      refine .inl ⟨.inr ⟨rfl, nn, .inl bad⟩, s₁, by simp only [registerThread, e], ?_⟩
      rw [keep ex]
      exact keeps_of_idle I ex I.fresh fun _ _ => rfl
    | some a =>
      refine .inr ⟨?_, fun s' e' => ?_⟩
      · rintro (⟨so, -⟩ | ⟨ex', -⟩)
        · exact bad so
        · cases ex'
      · simp only [registerThread, e] at e'
        cases e'
        exact not_keeps_of_cleaned (I.busy a ex) (id₁ ▸ idle) ex₁
  · have id₁ : s₁.globalId t = none := by
      rw [G.rest]
      exact idle
    have size₁ : s₁.poolSize = s.poolSize := by rw [G.rest]
    have memory : s₁.memoryOk host ok = s.memoryOk host ok := by rw [G.rest]; rfl
    have executor : s₁.executorOk ok = s.executorOk ok := by rw [G.rest]; rfl
    rw [← size₁, ← memory, ← executor]
    obtain ⟨e₂, early⟩ | ⟨s₂, e₂, late, bad, left, id₂⟩ | ⟨s₂, e₂, mo, S⟩ :=
      s₁.kuplMemoryExpand_cases G.fresh (G.pooled I.fresh I.pooled) host ok
    · have bad : ¬s₁.memoryOk host ok := by
        simp only [memoryOk, Bool.and_eq_true, decide_eq_true_eq]
        rintro ⟨⟨lt, hm⟩, -⟩
        obtain full | no := early
        · omega
        · exact no hm
      have reg : s.registerThread host ok t = some s₁.kuplSchedExpandFini := by
        simp only [registerThread, e, e₂]
      cases ex : s.schedExpand with
      | none =>
        refine .inl ⟨.inr ⟨rfl, nn, .inr early⟩, _, reg, ?_⟩
        have F := s₁.heap.schedCleanup_frees s₁.schedExpand
        have fini : s₁.kuplSchedExpandFini = { s with
            heap := s₁.heap.schedCleanup s₁.schedExpand
            plugins := s.plugins
            schedExpand := none } := by
          unfold kuplSchedExpandFini
          conv => lhs; rw [G.rest]
        rw [fini]
        refine keeps_of_idle I ex (F.fresh G.fresh) fun a lt => ?_
        rw [F.memories]
        exact G.grows.memories a lt
      | some a =>
        refine .inr ⟨?_, fun s' e' => ?_⟩
        · rintro (⟨-, mo, -⟩ | ⟨ex', -⟩)
          · exact bad mo
          · cases ex'
        · cases reg.symm.trans e'
          exact not_keeps_of_cleaned (I.busy a ex) id₁ rfl
    · refine .inr ⟨?_, fun s' e' => ?_⟩
      · rintro (⟨-, mo, -⟩ | ⟨-, -, no | early⟩)
        · exact bad mo
        · exact no so
        · exact late early
      · simp only [registerThread, e, e₂] at e'
        cases e'
        exact not_keeps_of_stored I.pooled (t := t) (by exact id₂ ▸ id₁) (size₁ ▸ left)
    · have executor₂ : s₂.executorOk ok = s₁.executorOk ok := by rw [S.rest]; rfl
      have id₂ : s₂.globalId t = none := by
        rw [S.rest]
        exact id₁
      have no_early : ¬(host.puCnt ≤ s₁.poolSize ∨ ¬ok.memory) := by
        simp only [memoryOk, Bool.and_eq_true, decide_eq_true_eq] at mo
        rintro (full | no)
        · omega
        · exact no mo.1.2
      obtain ⟨s₃, e₃, bad, pool₃, id₃⟩ | ⟨e₃, eo⟩ := s₂.kuplExecutorExpand_cases ok t
      · refine .inr ⟨?_, fun s' e' => ?_⟩
        · rintro (⟨-, -, eo, -⟩ | ⟨-, -, no | early⟩)
          · exact bad (executor₂ ▸ eo)
          · exact no so
          · exact no_early early
        · simp only [registerThread, e, e₂, e₃] at e'
          cases e'
          refine not_keeps_of_stored I.pooled (t := t) (id₃ ▸ id₂) ?_
          show s₃.pool s.poolSize ≠ none
          obtain ⟨m, mem, em, -⟩ := S.pooled.pool s.poolSize (by rw [S.rest, ← size₁]; exact Nat.lt_succ_self _)
          rw [pool₃, em]
          rintro ⟨⟩
      · have reg : s.registerThread host ok t = some (s₂.enter t) := by
          simp only [registerThread, e, e₂, e₃]
        by_cases room : s.executorCount ≤ s₁.poolSize
        · exact .inl ⟨.inl ⟨so, mo, executor₂ ▸ eo, room⟩, _, reg, enter_keeps I G S t (size₁ ▸ room)⟩
        · refine .inr ⟨?_, fun s' e' => ?_⟩
          · rintro (⟨-, -, -, room'⟩ | ⟨-, -, no | early⟩)
            · exact room room'
            · exact no so
            · exact no_early early
          · cases reg.symm.trans e'
            exact enter_unserved I G S (size₁ ▸ room)

lemma kuplGetExecutorNum_cases (I : Inv s) (host : Host) (ok : Mallocs) (t : Nat) :
    (s.Fine host ok t ∧ ∃ s' r, s.kuplGetExecutorNum host ok t = some (s', r) ∧ s.Keeps s' t ∧ s'.Inv) ∨
    (¬s.Fine host ok t ∧ ∀ s' r, s.kuplGetExecutorNum host ok t = some (s', r) → ¬s.Keeps s' t) := by
  cases idle : s.globalId t with
  | some eid =>
    refine .inl ⟨.inl (by rw [idle]; nofun), s, _, by simp only [kuplGetExecutorNum, idle]; rfl, ?_, I⟩
    exact ⟨fun _ _ => rfl, fun _ _ => rfl, fun _ _ => rfl, fun eid reg => I.served reg, fun _ => rfl⟩
  | none =>
    obtain ⟨fine, s', e, K, I'⟩ | ⟨bad, no⟩ := registerThread_cases I idle host ok
    · exact .inl ⟨fine, s', _, by simp only [kuplGetExecutorNum, idle, e]; rfl, K, I'⟩
    · refine .inr ⟨bad, fun s' r e' => ?_⟩
      simp only [kuplGetExecutorNum, idle] at e'
      obtain ⟨s₁, e, eq⟩ := Option.map_eq_some_iff.1 e'
      cases eq
      exact no _ e

/-- Calls of `kupl_get_executor_num`, each by a thread and with allocations that succeed or fail. -/
abbrev Call := Nat × Mallocs

def KeepsAll (host : Host) : Globals → List Call → Prop
  | _, [] => True
  | s, (t, ok) :: calls =>
    ∃ s' r, s.kuplGetExecutorNum host ok t = some (s', r) ∧ s.Keeps s' t ∧ KeepsAll host s' calls

/-- Every call of a sequence is fine, in the globals that the calls before it leave. -/
def FineAll (host : Host) : Globals → List Call → Prop
  | _, [] => True
  | s, (t, ok) :: calls =>
    s.Fine host ok t ∧ ∀ s' r, s.kuplGetExecutorNum host ok t = some (s', r) → FineAll host s' calls

lemma Inv.keepsAll_iff (I : Inv s) (host : Host) (calls : List Call) :
    KeepsAll host s calls ↔ FineAll host s calls := by
  induction calls generalizing s with
  | nil => exact Iff.rfl
  | cons call calls ih =>
    obtain ⟨t, ok⟩ := call
    obtain ⟨fine, s', r, e, K, I'⟩ | ⟨bad, no⟩ := kuplGetExecutorNum_cases I host ok t
    · constructor
      · rintro ⟨s₁, r₁, e₁, -, rest⟩
        cases e.symm.trans e₁
        refine ⟨fine, fun s₂ r₂ e₂ => ?_⟩
        cases e.symm.trans e₂
        exact (ih I').1 rest
      · rintro ⟨-, rest⟩
        exact ⟨s', r, e, K, (ih I').2 (rest s' r e)⟩
    · constructor
      · rintro ⟨s₁, r₁, e₁, K, -⟩
        exact absurd K (no s₁ r₁ e₁)
      · rintro ⟨fine, -⟩
        exact absurd fine bad

lemma start_inv (count avail : Nat) : Inv (start count avail) where
  fresh := by
    refine ⟨fun _ _ => rfl, fun _ _ => rfl, fun _ _ => rfl, fun a le => ?_⟩
    have le' : 2 * avail + 1 ≤ a := le
    simp only [start]
    rw [if_neg (by omega), if_neg (by omega)]
  pooled := by
    refine ⟨fun i lt => ?_, fun i lt => ?_, fun i le => ?_⟩
    · have lt' : i < avail := lt
      refine ⟨i + 1, ⟨i⟩, if_pos lt', ?_⟩
      simp only [start]
      rw [if_pos (by omega), Nat.add_sub_cancel]
    · have lt' : i < avail := lt
      refine ⟨avail + i + 1, ⟨i⟩, if_pos lt', ?_⟩
      simp only [start]
      rw [if_neg (by omega), if_pos (by omega), show avail + i + 1 - avail - 1 = i by omega]
    · exact ⟨if_neg (Nat.not_lt.2 le), if_neg (Nat.not_lt.2 le)⟩
  initial := Nat.le_refl _
  idle _ := rfl
  busy _ e := nomatch e
  entries _ _ e := nomatch e
  room lt := absurd lt (Nat.lt_irrefl _)

/-- From `kupl_init` on, every registration keeps the queues and bins of the executors registered before,
and one that fails leaves the counts and tables, just where each registration is fine. -/
theorem registrations_keep_iff (host : Host) (count avail : Nat) (calls : List Call) :
    KeepsAll host (start count avail) calls ↔ FineAll host (start count avail) calls :=
  (start_inv count avail).keepsAll_iff host calls

/-- Two executors, bins for two and a third processor: the second registration finds the pool full and
takes the queue of the first with it. -/
theorem registrations_keep_not : ¬∀ (host : Host) (count avail : Nat) (calls : List Call),
    KeepsAll host (start count avail) calls := by
  intro all
  obtain ⟨s₁, r₁, e₁, -, s₂, r₂, e₂, K, -⟩ := all ⟨3, 64⟩ 2 2 [(7, .ok), (8, .ok)]
  have gone : (((start 2 2).kuplGetExecutorNum ⟨3, 64⟩ .ok 7).bind fun p =>
      (p.1.kuplGetExecutorNum ⟨3, 64⟩ .ok 8).map fun p' =>
        (p.1.executorCountInitial, p.1.executorCount, (p.1.queueOf 2).isSome, (p'.1.queueOf 2).isSome)) =
      some (2, 3, true, false) := by decide
  rw [e₁] at gone
  simp only [Option.bind_some, e₂, Option.map_some, Option.some.injEq, Prod.mk.injEq] at gone
  obtain ⟨initial, count, before, after⟩ := gone
  rw [K.queue 2 ⟨by omega, by omega⟩, before] at after
  cases after

end Globals

end Kupl.Expand
