import Kupl.Executor.Outcomes

/-!
# What every registration keeps

A registration of `src/executor/kupl_executor.cpp` that fails may free the expanded scheduler or leave a
freed pointer behind the end of the pool. What it never changes is that each index below the size of the
pool has bins of its own, of both kinds and with its number, and that there are no more executors than
bins where `kupl_init` started with no more (`Standing`).

| source                                       | here                        |
|----------------------------------------------|-----------------------------|
| `kupl_sched_expand`, `kupl_sched_expand_fini`   | `schedExpand_standing`      |
| `kupl_memory_expand`, `kupl_memory_expand_fini` | `memoryExpand_standing`     |
| `kupl_executor_expand`                        | `executorExpand_standing`   |
| `kupl_get_executor_num`                       | `getExecutorNum_standing`   |
-/

namespace Kupl.Expand
open Function (update update_of_ne update_self)
namespace Globals

/-- Bins of both kinds that belong to this index and carry it as their `eid`. -/
def Owned (s : Globals) (e : Nat) : Prop :=
  e < s.poolSize ∧ ∃ m m', s.pool e = some m ∧ s.hbwPool e = some m' ∧ m ≠ m' ∧
    s.heap.memories m = some ⟨e⟩ ∧ s.heap.memories m' = some ⟨e⟩

/-- What holds after any registrations, with any of their allocations failing. -/
structure Standing (host : Host) (s : Globals) : Prop where
  fresh : s.heap.Fresh
  owned : ∀ e, e < s.poolSize → s.Owned e
  sched : ∀ a, s.schedExpand = some a → ∃ n, s.Scheduled a n
  ids : ∀ t e, s.globalId t = some e → e < s.executorCount
  pooled : s.executorCount ≤ s.poolSize
  tabled : s.executorCount ≤ host.puCnt

/-- Every part of the registration of a thread without an id goes well. -/
def Registers (s : Globals) (host : Host) (ok : Mallocs) : Prop :=
  s.schedOk ok ∧ s.memoryOk host ok ∧ s.executorOk ok

variable {s s' : Globals} {host : Host} {ok : Mallocs} {t e : Nat}

lemma Owned.move {h : Heap} {expand : Option Nat} {plugins : Bool} (O : s.Owned e)
    (same : ∀ m, s.heap.memories m = some ⟨e⟩ → h.memories m = some ⟨e⟩) :
    Owned { s with heap := h, schedExpand := expand, plugins := plugins } e := by
  obtain ⟨lt, m, m', em, em', ne, eh, eh'⟩ := O
  exact ⟨lt, m, m', em, em', ne, same m eh, same m' eh'⟩

/-! ### The scheduler -/

lemma staticMqExpand_frees {h h' : Heap} {b : Nat} (e : h.staticMqExpand ok b = some (none, h')) : h.Frees h' := by
  unfold Heap.staticMqExpand at e
  cases eb : h.mqs b with
  | none =>
    rw [eb] at e
    cases e
  | some mq =>
    simp only [eb] at e
    split at e
    · cases e
      exact (h.staticMqCleanup_frees b).1
    · cases hu : ok.queue with
      | false =>
        simp only [hu, Heap.queueCreate, Bool.false_eq_true, if_false] at e
        cases e
        exact (h.staticMqCleanup_frees b).1
      | true =>
        simp only [hu, Heap.queueCreate, if_true] at e
        cases e

lemma schedExpand_standing {b : Bool} (S : s.Standing host) (e : s.kuplSchedExpand host ok = some (b, s')) :
    s'.Standing host ∧ (b = true ↔ s.schedOk ok) ∧
      s' = { s with heap := s'.heap, schedExpand := s'.schedExpand, plugins := s'.plugins } := by
  cases ex : s.schedExpand with
  | none =>
    obtain ⟨e', -⟩ | ⟨e', bad, -⟩ | ⟨a, h', e', all, f, g, b', mq, q, queue, ea, eb, en, eq, eu⟩ :=
      s.heap.schedCreate_cases S.fresh host ok s.plugins
    · simp only [kuplSchedExpand, ex, e'] at e
      cases e
    · simp only [kuplSchedExpand, ex, e'] at e
      cases e
      refine ⟨⟨S.fresh, S.owned, (by rintro _ ⟨⟩), S.ids, S.pooled, S.tabled⟩, ?_, rfl⟩
      simpa [schedOk, expanded_none ex, and_assoc] using bad
    · simp only [kuplSchedExpand, ex, e'] at e
      cases e
      refine ⟨⟨f, ?_, ?_, S.ids, S.pooled, S.tabled⟩, ?_, rfl⟩
      · intro e lt
        refine (S.owned e lt).move fun m mine => ?_
        exact (g.memories m (S.fresh.memory_lt mine)).trans mine
      · intro a' ea'
        cases ea'
        refine ⟨1, rfl, b', mq, ea, eb, en, fun i lt => ?_⟩
        obtain rfl : i = 0 := by omega
        exact ⟨q, queue, eq, eu⟩
      · simpa [schedOk, expanded_none ex, and_assoc] using all
  | some a =>
    obtain ⟨n, -, b', mq, ea, eb, en, live⟩ := S.sched a ex
    have exp : s.expanded = some mq := by simp only [expanded, ex, ea, eb, Option.bind_some]
    have so : s.schedOk ok ↔ mq.numExecutors + 1 ≤ mq.maxNumExecutors ∧ ok.queue := by
      simp only [schedOk, exp, Bool.and_eq_true, decide_eq_true_eq]
    simp only [kuplSchedExpand, ex, ea] at e
    cases er : s.heap.staticMqExpand ok b' with
    | none =>
      rw [er] at e
      cases e
    | some rh =>
      obtain ⟨r, h'⟩ := rh
      rw [er] at e
      obtain ⟨rfl, bad⟩ | ⟨rfl, room, f, g, es, mq', queue, eb', en', same, eq, eu⟩ :=
        Heap.staticMqExpand_inv S.fresh eb er
      · cases e
        have F := staticMqExpand_frees er
        refine ⟨⟨(F.fresh S.fresh).setSched ?_, ?_, (by rintro _ ⟨⟩), S.ids, S.pooled, S.tabled⟩, ?_, rfl⟩
        · rw [F.next]
          exact S.fresh.sched_lt ea
        · intro e lt
          refine (S.owned e lt).move fun m mine => ?_
          exact (congrFun F.memories m).trans mine
        · exact ⟨(by rintro ⟨⟩), fun o => absurd (so.1 o) bad⟩
      · cases e
        have lt : a < h'.next := Nat.lt_of_lt_of_le (S.fresh.sched_lt ea) g.next
        refine ⟨⟨f.setSched lt, ?_, ?_, S.ids, S.pooled, S.tabled⟩, ?_, ?_⟩
        · intro e lt
          refine (S.owned e lt).move fun m mine => ?_
          exact (g.memories m (S.fresh.memory_lt mine)).trans mine
        · intro a' ea'
          cases ea'
          refine ⟨n + 1, rfl, b', mq', update_self .., eb', by rw [en', en], ?_⟩
          intro i lt
          by_cases last : i = mq.numExecutors
          · rw [last]
            exact ⟨s.heap.next, queue, eq, eu⟩
          · obtain ⟨q, queue, eq, eu⟩ := live i (by omega)
            exact ⟨q, queue, (same i last).trans eq, (g.queues q (S.fresh.queue_lt eu)).trans eu⟩
        · exact ⟨fun _ => so.2 room, fun _ => rfl⟩
        · rfl

lemma schedExpandFini_standing (S : s.Standing host) : s.kuplSchedExpandFini.Standing host := by
  have F := s.heap.schedCleanup_frees s.schedExpand
  refine ⟨F.fresh S.fresh, ?_, nofun, S.ids, S.pooled, S.tabled⟩
  intro e lt
  refine (S.owned e lt).move fun m mine => ?_
  exact (congrFun F.memories m).trans mine

/-! ### The pool -/

lemma memoryExpand_standing {b : Bool} (S : s.Standing host) (e : s.kuplMemoryExpand host ok = (b, s')) :
    s'.Standing host ∧ (b = true ↔ s.memoryOk host ok) ∧ s'.globalId = s.globalId ∧
      s'.executorCount = s.executorCount ∧
      (b = true → s'.executorCount < s'.poolSize ∧ s'.executorCount < host.puCnt) := by
  unfold kuplMemoryExpand at e
  by_cases full : s.poolSize ≥ host.puCnt
  · rw [if_pos full] at e
    cases e
    refine ⟨S, ⟨nofun, fun mo => ?_⟩, rfl, rfl, nofun⟩
    simp only [memoryOk, Bool.and_eq_true, decide_eq_true_eq] at mo
    omega
  rw [if_neg full] at e
  cases hm : ok.memory with
  | false =>
    simp only [hm, Heap.memoryCreate, Bool.false_eq_true, if_false] at e
    cases e
    exact ⟨S, ⟨nofun, fun mo => by simp [memoryOk, hm] at mo⟩, rfl, rfl, nofun⟩
  | true =>
  cases hh : ok.hbwMemory with
  | false =>
    simp only [hm, hh, Heap.memoryCreate, Bool.false_eq_true, if_false, if_true, update_self] at e
    cases e
    refine ⟨⟨?_, ?_, S.sched, S.ids, S.pooled, S.tabled⟩,
      ⟨nofun, fun mo => by simp [memoryOk, hh] at mo⟩, rfl, rfl, nofun⟩
    · -- the bins stored first are freed again
      refine ⟨fun a le => S.fresh.mqs a (Nat.le_of_succ_le le), fun a le => S.fresh.scheds a (Nat.le_of_succ_le le),
        fun a le => S.fresh.queues a (Nat.le_of_succ_le le), fun a le => Heap.update_none ?_⟩
      have other : a ≠ s.heap.next := Nat.ne_of_gt le
      exact (update_of_ne other _ _).trans (S.fresh.memories a (Nat.le_of_succ_le le))
    · intro e lt
      obtain ⟨-, m, m', em, em', ne, eh, eh'⟩ := S.owned e lt
      have kept : ∀ m, s.heap.memories m = some ⟨e⟩ → update
          (update s.heap.memories s.heap.next (some ⟨s.poolSize⟩)) s.heap.next none m =
          some ⟨e⟩ := by
        intro m mine
        have other : m ≠ s.heap.next := Nat.ne_of_lt (S.fresh.memory_lt mine)
        rw [update_of_ne other, update_of_ne other, mine]
      refine ⟨lt, m, m', ?_, em', ne, ?_, ?_⟩
      · exact (update_of_ne (Nat.ne_of_lt lt) _ _).trans em
      · exact kept m eh
      · exact kept m' eh'
  | true =>
    have stored : s' = s.store ∧ b = true := by
      simp only [hm, hh, Heap.memoryCreate, Heap.skip, if_true] at e
      cases e
      exact ⟨rfl, rfl⟩
    obtain ⟨rfl, rfl⟩ := stored
    have pooled := S.pooled
    have old : ∀ m x, s.heap.memories m = some x → s.store.heap.memories m = some x := fun m x at_m =>
      (store_old (S.fresh.memory_lt at_m)).trans at_m
    refine ⟨⟨store_fresh S.fresh, ?_, S.sched, S.ids, Nat.le_succ_of_le pooled, S.tabled⟩, ?_, rfl,
      rfl, fun _ => ?_⟩
    · intro e lt
      have lt' : e < s.poolSize + 1 := lt
      by_cases last : e = s.poolSize
      · rw [last]
        exact ⟨Nat.lt_succ_self _, s.heap.next, s.heap.next + 1, update_self ..,
          update_self .., Nat.ne_of_lt (Nat.lt_succ_self _), store_mine, update_self ..⟩
      · obtain ⟨-, m, m', em, em', ne, eh, eh'⟩ := S.owned e (by omega)
        exact ⟨lt, m, m', (update_of_ne last _ _).trans em,
          (update_of_ne last _ _).trans em', ne, old m _ eh, old m' _ eh'⟩
    · simpa [memoryOk, hm, hh] using full
    · have size : s.store.poolSize = s.poolSize + 1 := rfl
      have count : s.store.executorCount = s.executorCount := rfl
      omega

lemma memoryExpandFini_standing (S : s.Standing host) (lt : s.executorCount < s.poolSize) :
    s.kuplMemoryExpandFini.Standing host := by
  obtain ⟨-, l, l', el, el', -, lh, lh'⟩ := S.owned (s.poolSize - 1) (by omega)
  have fini : s.kuplMemoryExpandFini = { s with
      heap := { s.heap with
        memories := update (update s.heap.memories l none) l' none }
      poolSize := s.poolSize - 1 } := by
    simp only [kuplMemoryExpandFini, el, el', Heap.memoryFree]
  rw [fini]
  refine ⟨?_, ?_, S.sched, S.ids, Nat.le_sub_one_of_lt lt, S.tabled⟩
  · exact ⟨S.fresh.mqs, S.fresh.scheds, S.fresh.queues,
      fun a le => Heap.update_none (Heap.update_none (S.fresh.memories a le))⟩
  · intro e below
    have below' : e < s.poolSize - 1 := below
    obtain ⟨-, m, m', em, em', ne, eh, eh'⟩ := S.owned e (by omega)
    have kept : ∀ m, s.heap.memories m = some ⟨e⟩ → update (update s.heap.memories l none) l' none m =
      some ⟨e⟩ := by
      intro m mine
      have apart : ∀ {k}, s.heap.memories k = some ⟨s.poolSize - 1⟩ → m ≠ k := by
        rintro k at_k rfl
        cases mine.symm.trans at_k
        exact absurd below' (Nat.lt_irrefl _)
      rw [update_of_ne (apart lh'), update_of_ne (apart lh), mine]
    exact ⟨below, m, m', em, em', ne, kept m eh, kept m' eh'⟩

/-! ### The registration -/

lemma executorExpand_standing {b : Bool} (S : s.Standing host) (lt : s.executorCount < s.poolSize)
    (lt' : s.executorCount < host.puCnt) (e : s.kuplExecutorExpand ok t = (b, s')) :
    s'.Standing host ∧ (b = true ↔ s.executorOk ok) ∧
      (b = true → s'.globalId = update s.globalId t (some s.executorCount)) ∧
      (b = false → s'.globalId = s.globalId ∧ s'.poolSize = s.poolSize ∧ s'.executorCount = s.executorCount) := by
  unfold kuplExecutorExpand at e
  by_cases full : s.executorCount ≥ CPU_SETSIZE
  · rw [if_pos full] at e
    cases e
    refine ⟨S, ⟨(by rintro ⟨⟩), fun eo => ?_⟩, (by rintro ⟨⟩), fun _ => ⟨rfl, rfl, rfl⟩⟩
    simp only [executorOk, Bool.and_eq_true, decide_eq_true_eq] at eo
    omega
  rw [if_neg full] at e
  cases hl : ok.lock with
  | false =>
    simp only [hl, Bool.not_false, if_true] at e
    cases e
    exact ⟨⟨S.fresh, S.owned, S.sched, S.ids, S.pooled, S.tabled⟩,
      ⟨(by rintro ⟨⟩), fun eo => by simp [executorOk, hl] at eo⟩, (by rintro ⟨⟩), fun _ =>
      ⟨rfl, rfl, rfl⟩⟩
  | true =>
    simp only [hl, Bool.not_true, Bool.false_eq_true, if_false] at e
    cases e
    refine ⟨⟨Heap.skip_fresh S.fresh, S.owned, S.sched, ?_, lt, lt'⟩, ?_, fun _ => rfl, (by rintro ⟨⟩)⟩
    · intro u e at_u
      have at_u' : update s.globalId t (some s.executorCount) u = some e := at_u
      show e < s.executorCount + 1
      by_cases mine : u = t
      · rw [mine, update_self] at at_u'
        cases at_u'
        exact Nat.lt_succ_self _
      · rw [update_of_ne mine] at at_u'
        exact Nat.lt_succ_of_lt (S.ids u e at_u')
    · simpa [executorOk, hl] using full

lemma registerThread_standing (S : s.Standing host) (idle : s.globalId t = none)
    (e : s.registerThread host ok t = some s') :
    s'.Standing host ∧ (s'.globalId t ≠ none ↔ s.Registers host ok) ∧ ∀ u, u ≠ t →
      s'.globalId u = s.globalId u := by
  unfold registerThread at e
  cases e₁ : s.kuplSchedExpand host ok with
  | none =>
    rw [e₁] at e
    cases e
  | some r₁ =>
    obtain ⟨b₁, s₁⟩ := r₁
    rw [e₁] at e
    obtain ⟨S₁, so, rest⟩ := schedExpand_standing S e₁
    have id₁ : s₁.globalId = s.globalId := by rw [rest]
    have memory : s₁.memoryOk host ok = s.memoryOk host ok := by rw [rest]; rfl
    have executor : s₁.executorOk ok = s.executorOk ok := by rw [rest]; rfl
    cases b₁ with
    | false =>
      cases e
      refine ⟨S₁, ?_, fun u _ => congrFun id₁ u⟩
      rw [id₁, idle]
      exact ⟨fun no => absurd rfl no, fun all => absurd (so.2 all.1) Bool.false_ne_true⟩
    | true =>
      cases e₂ : s₁.kuplMemoryExpand host ok with
      | mk b₂ s₂ =>
      obtain ⟨S₂, mo, id₂, count₂, room⟩ := memoryExpand_standing S₁ e₂
      simp only [e₂] at e
      cases b₂ with
      | false =>
        cases e
        have id : s₂.kuplSchedExpandFini.globalId = s.globalId := id₂.trans id₁
        refine ⟨schedExpandFini_standing S₂, ?_, fun u _ => congrFun id u⟩
        rw [id, idle]
        exact ⟨fun no => absurd rfl no, fun all => absurd (mo.2 (memory ▸ all.2.1)) Bool.false_ne_true⟩
      | true =>
        obtain ⟨lt, lt'⟩ := room rfl
        cases e₃ : s₂.kuplExecutorExpand ok t with
        | mk b₃ s₃ =>
        obtain ⟨S₃, eo, got, lost⟩ := executorExpand_standing S₂ lt lt' e₃
        have executor₂ : s₂.executorOk ok = s₁.executorOk ok := by
          simp only [executorOk, count₂]
        simp only [e₃] at e
        cases b₃ with
        | false =>
          cases e
          obtain ⟨id₃, size₃, count₃⟩ := lost rfl
          have id : s₃.kuplMemoryExpandFini.kuplSchedExpandFini.globalId = s.globalId :=
            id₃.trans (id₂.trans id₁)
          refine ⟨schedExpandFini_standing (memoryExpandFini_standing S₃ ?_), ?_, fun u _ => congrFun id u⟩
          · rw [size₃, count₃]
            exact lt
          · rw [id, idle]
            refine ⟨fun no => absurd rfl no, fun all => ?_⟩
            exact absurd (eo.2 (executor₂.trans executor ▸ all.2.2)) Bool.false_ne_true
        | true =>
          cases e
          have id := got rfl
          refine ⟨S₃, ?_, fun u ne => ?_⟩
          · rw [id, update_self]
            refine ⟨fun _ => ⟨so.1 rfl, memory ▸ mo.1 rfl, ?_⟩, fun _ => (by rintro ⟨⟩)⟩
            rw [← executor, ← executor₂]
            exact eo.1 rfl
          · rw [id, update_of_ne ne, id₂, id₁]

lemma Standing.getExecutorNum_standing {r : Option Nat} (S : s.Standing host)
    (e : s.kuplGetExecutorNum host ok t = some (s', r)) :
    s'.Standing host ∧ r = s'.globalId t ∧ (r ≠ none ↔ s.globalId t ≠ none ∨ s.Registers host ok) ∧
      ∀ u e, s.globalId u = some e → s'.globalId u = some e := by
  have handed : ∀ {s₁ : Globals}, s₁.Standing host → (s₁.globalId t).filter (· < s₁.executorCount) =
    s₁.globalId t := by
    intro s₁ S₁
    cases at_t : s₁.globalId t with
    | none => rfl
    | some e => simp [S₁.ids t e at_t]
  unfold kuplGetExecutorNum at e
  cases idle : s.globalId t with
  | some eid =>
    simp only [idle] at e
    cases e
    rw [handed S, idle]
    exact ⟨S, rfl, ⟨fun _ => .inl nofun, fun _ => nofun⟩, fun _ _ same => same⟩
  | none =>
    simp only [idle] at e
    obtain ⟨s₁, reg, eq⟩ := Option.map_eq_some_iff.1 e
    cases eq
    obtain ⟨S₁, got, others⟩ := registerThread_standing S idle reg
    rw [handed S₁]
    refine ⟨S₁, rfl, ⟨fun has => .inr (got.1 has), fun goes => ?_⟩, ?_⟩
    · exact got.2 (goes.resolve_left fun no => no rfl)
    · intro u e at_u
      by_cases mine : u = t
      · rw [mine, idle] at at_u
        cases at_u
      · rw [others u mine, at_u]

lemma start_owned (count : Nat) {avail e : Nat} (lt : e < avail) : (start count avail).Owned e := by
  refine ⟨lt, e + 1, avail + e + 1, if_pos lt, if_pos lt, by omega, ?_, ?_⟩
  · simp only [start]
    rw [if_pos (by omega), Nat.add_sub_cancel]
  · simp only [start]
    rw [if_neg (by omega), if_pos (by omega), show avail + e + 1 - avail - 1 = e by omega]

lemma start_standing {count avail : Nat} (le : count ≤ avail) (le' : count ≤ host.puCnt) :
    (start count avail).Standing host := by
  refine ⟨?_, fun e lt => start_owned count lt, nofun, ?_, le, le'⟩
  · refine ⟨fun _ _ => rfl, fun _ _ => rfl, fun _ _ => rfl, fun a above => ?_⟩
    have above' : 2 * avail + 1 ≤ a := above
    simp only [start]
    rw [if_neg (by omega), if_neg (by omega)]
  · intro t e at_t
    simp only [start] at at_t
    split at at_t
    · cases at_t
      assumption
    · cases at_t

end Globals
end Kupl.Expand
