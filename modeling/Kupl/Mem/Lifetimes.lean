import Kupl.Mem.Async

/-!
# How long a record lives (`kupl_mem.cpp`)

A request takes no reference to the record that it found: the record lives until a task finds it without a count, and
its address is taken out of the maps whatever record is there. Tasks are safe as long as no task deletes the record of
another one, and no record takes an address away from a record that has tasks.
-/

namespace Kupl.Mem

/-- A step that is careful: a task that deletes its record is the last one for this record, and a record is made for an
address only when the record that had the address has no tasks. -/
structure System.Careful (s : System) (a : Label) : Prop where
  last : ∀ t, s.next a = some t → t.Deletes s.core → ∀ t', s.Others a t' → t'.mem ≠ t.mem
  alone : ∀ d n mem, s.Maps a d n → s.core.addrMap.lookup d = some mem → ∀ t, s.Pending t → t.mem ≠ mem

/-- What is pending has a record, and the address of the record leads to it. -/
structure Safe (s : System) : Prop where
  tidy : Tidy s
  alive : ∀ t, s.Pending t → s.core.deleted t.mem = false
  mapped : ∀ t, s.Pending t → s.core.rangeMap.lookup (s.core.mem t.mem).baseDdr = some t.mem

variable {s s' : System} {a : Label} {k mem : Nat}

namespace Safe

lemma found {ddr offset : Nat} (I : Inv s.core) (h : s.core.query ddr = some (mem, offset)) :
    s.core.deleted mem = false ∧ s.core.rangeMap.lookup (s.core.mem mem).baseDdr = some mem := by
  obtain ⟨k, here, -⟩ := I.query h
  obtain ⟨base, -, live⟩ := I.base here
  rw [base]
  exact ⟨live, here⟩

lemma same (S : Safe s) (T : Tidy s') {core : State} {t₀ : Task} (w : Within s.core core)
    (maps : core.rangeMap = s.core.rangeMap ∧ core.deleted = s.core.deleted) (isCore : s'.core = core)
    (pending : ∀ t, s'.Pending t → s.Pending t ∨ t = t₀)
    (new : s.core.deleted t₀.mem = false ∧ s.core.rangeMap.lookup (s.core.mem t₀.mem).baseDdr = some t₀.mem) :
    Safe s' := by
  have all (t) (ht : s'.Pending t) : s.core.deleted t.mem = false ∧
      s.core.rangeMap.lookup (s.core.mem t.mem).baseDdr = some t.mem := by
    obtain old | rfl := pending t ht
    · exact ⟨S.alive t old, S.mapped t old⟩
    · exact new
  refine ⟨T, fun t ht => ?_, fun t ht => ?_⟩
  · rw [isCore, maps.2]
    exact (all t ht).1
  · rw [isCore, maps.1, w.base]
    exact (all t ht).2

lemma step (S : Safe s) (careful : s.Careful a) (h : s.step a = some s') : Safe s' := by
  have T := S.tidy.step h
  cases System.step_does h with
  | stay core pending none =>
    refine ⟨T, fun t ht => ?_, fun t ht => ?_⟩
    · rw [core]
      exact S.alive t (pending t ht)
    · rw [core]
      exact S.mapped t (pending t ht)
  | attach args found core pending none =>
    exact S.same T .attachTo State.attachTo_maps core pending (Safe.found S.tidy.inv found)
  | detach args found core pending none =>
    obtain ⟨args', core⟩ := core
    exact S.same T .detach State.detach_maps core pending (Safe.found S.tidy.inv found)
  | remap args isMem maps only core pending =>
    have w : Within (s.core.map args.ddr args.size) s'.core := by
      rw [core]
      exact .attachTo
    have isMaps : s'.core.rangeMap = s.core.rangeMap.insert args.ddr s.core.made ∧
        s'.core.deleted = s.core.deleted := by
      rw [core]
      exact State.attachTo_maps
    have self : (s.core.map args.ddr args.size).mem s.core.made = ⟨args.ddr, none, args.size, false, 0, 0⟩ :=
      Function.update_self ..
    refine ⟨T, fun t ht => ?_, fun t ht => ?_⟩
    · rw [isMaps.2]
      obtain old | rfl := pending t ht
      · exact S.alive t old
      · show s.core.deleted args.mem = false
        rw [isMem]
        exact S.tidy.inv.new le_rfl
    · rw [isMaps.1, w.base]
      obtain old | rfl := pending t ht
      · have here := S.mapped t old
        have lt := S.tidy.known t old
        have keeps : (s.core.map args.ddr args.size).mem t.mem = s.core.mem t.mem :=
          Function.update_of_ne (Nat.ne_of_lt lt) ..
        rw [keeps, Finmap.lookup_insert_of_ne]
        · exact here
        · -- the record that had the address had no tasks
          intro isDdr
          rw [isDdr, ← S.tidy.inv.same] at here
          exact careful.alone _ _ _ maps here t old rfl
      · show (s.core.rangeMap.insert args.ddr s.core.made).lookup
          ((s.core.map args.ddr args.size).mem args.mem).baseDdr = some args.mem
        rw [isMem, self]
        exact Finmap.lookup_insert _
  | run t env next pending core others none =>
    have w : Within s.core s'.core := by
      rw [core]
      exact Task.within
    by_cases gone : t.Deletes s.core
    · obtain ⟨maps, deleted⟩ := Task.run_deletes env gone
      rw [← core] at maps deleted
      have strange (t') (ht : s'.Pending t') : t'.mem ≠ t.mem := careful.last t next gone t' (others t' ht)
      refine ⟨T, fun t' ht => ?_, fun t' ht => ?_⟩
      · rw [deleted, Function.update_of_ne (strange t' ht)]
        exact S.alive t' (others t' ht).pending
      · have here := S.mapped t' (others t' ht).pending
        rw [maps, w.base, Finmap.lookup_erase_ne]
        · exact here
        · intro same
          rw [same, S.mapped t pending] at here
          exact strange t' ht (Option.some.inj here).symm
    · obtain ⟨maps, deleted⟩ := Task.run_stays env gone
      rw [← core] at maps deleted
      refine ⟨T, fun t' ht => ?_, fun t' ht => ?_⟩
      · rw [deleted]
        exact S.alive t' (others t' ht).pending
      · rw [maps, w.base]
        exact S.mapped t' (others t' ht).pending

lemma entries (S : Safe s) (h : s.step a = some s') (here : s.core.rangeMap.lookup k = some mem) :
    (∃ mem', s'.core.rangeMap.lookup k = some mem') ∨ s'.core.deleted mem = true := by
  cases System.step_does h with
  | stay core pending none =>
    rw [core]
    exact .inl ⟨mem, here⟩
  | attach args found core pending none =>
    rw [core, State.attachTo_maps.1]
    exact .inl ⟨mem, here⟩
  | detach args found core pending none =>
    obtain ⟨args', core⟩ := core
    rw [core, State.detach_maps.1]
    exact .inl ⟨mem, here⟩
  | remap args isMem maps only core pending =>
    rw [core, State.attachTo_maps.1]
    refine .inl ?_
    show ∃ mem', (s.core.rangeMap.insert args.ddr s.core.made).lookup k = some mem'
    by_cases same : k = args.ddr
    · subst same
      exact ⟨_, Finmap.lookup_insert _⟩
    · exact ⟨mem, (Finmap.lookup_insert_of_ne _ same).trans here⟩
  | run t env next pending core others none =>
    by_cases gone : t.Deletes s.core
    · obtain ⟨maps, deleted⟩ := Task.run_deletes env gone
      rw [core, maps, deleted]
      by_cases own : k = (s.core.mem t.mem).baseDdr
      · rw [own, S.mapped t pending] at here
        cases here
        exact .inr (Function.update_self ..)
      · exact .inl ⟨mem, (Finmap.lookup_erase_ne own).trans here⟩
    · rw [core, (Task.run_stays env gone).1]
      exact .inl ⟨mem, here⟩

end Safe

/-- In every run of careful steps, on any queues: no task is left to run with a record that is deleted, and what a
step takes out of the maps are the entries of a record that it deletes. -/
theorem tasks_safe (h : asyncMachine.Reach System.Careful s) : (∀ t, s.Pending t → s.core.deleted t.mem = false) ∧
    ∀ a s', s.step a = some s' → ∀ k mem, (s.core.addrMap.lookup k = some mem →
        (∃ mem', s'.core.addrMap.lookup k = some mem') ∨ s'.core.deleted mem = true) ∧
      (s.core.rangeMap.lookup k = some mem →
        (∃ mem', s'.core.rangeMap.lookup k = some mem') ∨ s'.core.deleted mem = true) := by
  have S : Safe s := by
    apply h.inv
    · intro s init
      have T := Tidy.init init
      have none (t) : ¬ s.Pending t := by
        rintro (host | ⟨q, mem⟩)
        · cases init.host.symm.trans host
        · rw [init.queues] at mem
          cases mem
      exact ⟨T, fun t ht => absurd ht (none t), fun t ht => absurd ht (none t)⟩
    · exact fun s a s' S careful step => S.step careful step
  refine ⟨S.alive, fun a s' step k mem => ?_⟩
  rw [S.tidy.inv.same, (S.tidy.step step).inv.same]
  exact ⟨S.entries step, S.entries step⟩

/-- Nothing is mapped, and queues 1 and 2 are in the table. -/
def System.begin : System := ⟨.start, fun _ => [], [1, 2], .idle⟩

lemma System.begin_init : System.begin.Init := ⟨State.start_init, fun _ => rfl, rfl⟩

/-- A copy in on one queue and a pull on another one, both for the same record. -/
theorem tasks_safe_two : ∃ s : System, (s.queues 1).length = 1 ∧ (s.queues 2).length = 1 ∧
    (∀ t, s.Pending t → s.core.deleted t.mem = false) ∧
    ∀ a s', s.step a = some s' → ∀ k mem, (s.core.addrMap.lookup k = some mem →
        (∃ mem', s'.core.addrMap.lookup k = some mem') ∨ s'.core.deleted mem = true) ∧
      (s.core.rangeMap.lookup k = some mem →
        (∃ mem', s'.core.rangeMap.lookup k = some mem') ∨ s'.core.deleted mem = true) := by
  obtain ⟨s₁, step₁⟩ : ∃ s, System.begin.step (.copyin 4096 100 .copyIn (some 1) true true) = some s :=
    ⟨_, rfl⟩
  have careful₁ : System.begin.Careful (.copyin 4096 100 .copyIn (some 1) true true) := by
    refine ⟨nofun, fun d n mem _ here => ?_⟩
    have absent : System.begin.core.addrMap.lookup d = none := Finmap.lookup_empty _
    cases absent.symm.trans here
  have host : s₁.host = .idle := by
    cases step₁
    rfl
  obtain ⟨s₂, step₂⟩ : ∃ s, s₁.step (.copyout 4096 100 .pull (some 2) true) = some s := by
    cases step₁
    exact ⟨_, rfl⟩
  have careful₂ : s₁.Careful (.copyout 4096 100 .pull (some 2) true) := ⟨nofun, nofun⟩
  have h : asyncMachine.Reach System.Careful s₂ :=
    .step (.step (.init System.begin_init) careful₁ step₁) careful₂ step₂
  have facts : ((System.begin.step (.copyin 4096 100 .copyIn (some 1) true true)).bind fun s =>
      s.step (.copyout 4096 100 .pull (some 2) true)).all fun s =>
      decide ((s.queues 1).length = 1 ∧ (s.queues 2).length = 1) := by decide +kernel
  rw [step₁, Option.bind_some, step₂] at facts
  obtain ⟨one, two⟩ := of_decide_eq_true facts
  exact ⟨s₂, one, two, tasks_safe h⟩

/-- A pull on one queue is left with a record that a delete on another queue has deleted; and a task of a queue that
is not in the table, which nobody waited for, takes the address away from the record that came after its own. -/
theorem tasks_safe_not : (¬ ∀ s, asyncMachine.Reachable s → ∀ t, s.Pending t →
    s.core.deleted t.mem = false) ∧
    ¬ ∀ s, asyncMachine.Reachable s → ∀ a s', s.step a = some s' →
      ∀ k mem, s.core.addrMap.lookup k = some mem →
      (∃ mem', s'.core.addrMap.lookup k = some mem') ∨ s'.core.deleted mem = true := by
  constructor
  · intro alive
    obtain ⟨s, h, t, mem, dead⟩ := Machine.exists_reach (M := asyncMachine) (g := fun _ _ => True)
      (P := fun s => ∃ t ∈ s.queues 1, s.core.deleted t.mem = true)
      [.copyin 4096 100 .copyIn none true true, .task (.good 8192), .copyout 4096 100 .pull (some 1) true,
        .copyout 4096 100 .delete (some 2) true, .run 2 (.good 0)] System.begin_init (by decide +kernel)
    rw [alive s h t (.inr ⟨1, mem⟩)] at dead
    cases dead
  · intro kept
    obtain ⟨s, h, here, last⟩ := Machine.exists_reach (M := asyncMachine) (g := fun _ _ => True)
      (P := fun s => s.core.addrMap.lookup 4096 = some 1 ∧ ((s.step (.run 5 (.good 0))).any fun s' : System =>
        decide (s'.core.addrMap.lookup 4096 = none ∧ s'.core.deleted 1 = false)) = true)
      [.copyin 4096 100 .copyIn (some 5) true true, .run 5 (.good 8192), .copyout 4096 100 .out (some 5) true,
        .copyin 4096 100 .copyIn none true true, .resume true true, .task (.good 16384)]
      System.begin_init (by decide +kernel)
    obtain ⟨s', step, facts⟩ := (Option.any_eq_true _ _).1 last
    obtain ⟨gone, live⟩ := of_decide_eq_true facts
    obtain ⟨mem, still⟩ | dead := kept s h _ s' step 4096 1 here
    · cases gone.symm.trans still
    · cases live.symm.trans dead

end Kupl.Mem
