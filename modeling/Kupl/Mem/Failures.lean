import Kupl.Mem.Telling
import Kupl.Mem.Lifetimes
import Kupl.Mem.Counts

/-!
# Requests that fail (`kupl_mem.cpp`)

| source | here |
|---|---|
| `kupl_mem_copyin` from where it does not wait any more to what it returns | `System.ends` |

`kupl_mem_copyin` has no way back: a mapping that it made stays, and so do the count that it raised and the memory
that it got, whatever fails after that. Nobody can tell that a request failed where it changed nothing (`Harmless`).
-/

namespace Kupl.Mem
open Option
open Function (update update_self)

variable {s s' : State} {mem : Nat} {env : Env}

/-! ### What a request leaves -/

namespace System
variable (s : System)

/-- The end of `kupl_mem_copyin`, with what it returns: a step that does not wait, and the task if the host has it. -/
def ends (a : Label) (env : Env) : Option (System × Bool) :=
  match a with
  | .copyin .. | .resume .. =>
    (s.step a).bind fun s' =>
      match s'.host with
      | .idle => (s.returned a).map fun ok => (s', ok)
      | .wait .. => none
      | .task t => (s'.task env).map fun s'' => (s'', t.result s'.core env)
  | _ => none

/-- The host has nothing to do: the system without the request that waited. -/
def withdrawn : System := { s with host := .idle }

/-- A request that fails changes nothing that anybody can see: its address is 0 or its size, there is no room for a
record, its mapping is not counted and gets no memory, or the record that it makes takes the place of one like it that
no task is for. -/
def Harmless (a : Label) (env : Env) : Prop :=
  match a with
  | .copyin ddr size flag queue room _ =>
    ddr = 0 ∨ size = 0 ∨
    match s.core.query ddr with
    | none => room = false
    | some (mem, _) =>
      flag = .other ∨ flag = .push ∧ (queue = none → (s.core.mem mem).baseHbw = none → env.hbw = none)
  | .resume room _ =>
    ∀ args queue, s.host = .wait args queue → room = false ∨
      ∃ mem, s.core.query args.ddr = some (mem, 0) ∧ (s.core.mem mem).baseHbw = none ∧
        (s.core.mem mem).size = args.size ∧
        (s.core.mem mem).attCnt = (if args.flag = .create ∨ args.flag = .copyIn then 1 else 0) ∧
        (queue = none → args.flag ≠ .other → env.hbw = none) ∧ ∀ t, s.Pending t → t.mem ≠ mem
  | _ => True

/-- Memory that a task gets is not in use. -/
def Fresh (env : Env) : Prop :=
  ∀ mem < s.core.made, ∀ b addr, (s.core.mem mem).baseHbw = some b → env.hbw = some addr →
    addr < b.addr ∨ b.addr + (s.core.mem mem).size ≤ addr

/-- When a request that waited goes on, no task is left for the record at its address. -/
def Settled (a : Label) : Prop := ∀ args queue room submitted mem, a = .resume room submitted →
  s.host = .wait args queue → s.core.query args.ddr = some (mem, 0) → ∀ t, s.Pending t → t.mem ≠ mem

end System

def State.failed (r : State × Args CopyinFlag × Bool) (queue : Option Nat) (env : Env) : State :=
  if r.2.2 = true ∧ queue = none then (r.1.copyinTask r.2.1 env).1 else r.1

namespace System
variable {s s' : System} {r : State × Args CopyinFlag × Bool} {queue : Option Nat} {submitted ok : Bool}

lemma counted_failed {o : Option Bool} (isO : o = answered r.2.2 queue submitted)
    (h : (match (s.counted r queue submitted).host with
      | .idle => o.map fun ok => (s.counted r queue submitted, ok)
      | .wait .. => none
      | .task t => ((s.counted r queue submitted).task env).map fun s'' =>
        (s'', t.result (s.counted r queue submitted).core env)) = some (s', false)) :
    s' = { s with core := State.failed r queue env, host := .idle } := by
  subst isO
  unfold counted at h
  unfold State.failed
  cases ok : r.2.2 with
  | false =>
    rw [ok] at h
    cases h
    have no : ¬ (false = true ∧ queue = none) := by simp
    rw [if_neg no]
    rfl
  | true =>
    rw [ok] at h
    cases queue with
    | none =>
      rw [if_pos ⟨rfl, rfl⟩]
      rw [if_pos rfl] at h
      unfold System.submit System.task at h
      dsimp only at h
      split at h
      · cases h
      · exact (Prod.mk.inj (Option.some.inj h)).1.symm
    | some q =>
      have no : ¬ (true = true ∧ some q = none) := by simp
      rw [if_neg no]
      cases submitted with
      | false =>
        cases h
        rfl
      | true => cases h

lemma ends_failed {a : Label} (h : s.ends a env = some (s', false)) :
    (∃ ddr size flag queue room submitted, a = .copyin ddr size flag queue room submitted ∧ s.host = .idle ∧
      ((ddr = 0 ∨ size = 0) ∧ s' = s ∨ ¬ (ddr = 0 ∨ size = 0) ∧
        ∃ r, s.core.attach ⟨0, ddr, 0, size, flag⟩ room = some r ∧
          s' = { s with core := State.failed r queue env, host := .idle })) ∨
    ∃ room submitted args queue, a = .resume room submitted ∧ s.host = .wait args queue ∧
      s' = { s with core := State.failed (s.core.remap args room) queue env, host := .idle } := by
  cases a with
  | copyin ddr size flag queue room submitted =>
    refine .inl ⟨ddr, size, flag, queue, room, submitted, rfl, ?_⟩
    unfold ends at h
    rw [bind_eq_some_iff] at h
    obtain ⟨u, step, h⟩ := h
    rw [System.step, System.copyin] at step
    cases isHost : s.host with
    | wait args queue' | task t =>
      rw [isHost] at step
      cases step
    | idle =>
      rw [isHost] at step
      dsimp only at step
      refine ⟨rfl, ?_⟩
      split at step
      · rename_i bad
        cases step
        rw [isHost] at h
        obtain ⟨ok, -, isS⟩ := map_eq_some_iff.1 h
        cases isS
        exact .inl ⟨bad, rfl⟩
      rename_i good
      refine .inr ⟨good, ?_⟩
      cases got : s.core.attach ⟨0, ddr, 0, size, flag⟩ room with
      | none =>
        rw [got] at step
        cases step
        cases h
      | some r =>
        rw [got] at step
        cases step
        refine ⟨r, rfl, counted_failed ?_ h⟩
        unfold returned
        dsimp only
        rw [if_neg good, got]
        rfl
  | resume room submitted =>
    unfold ends at h
    rw [bind_eq_some_iff] at h
    obtain ⟨u, step, h⟩ := h
    rw [System.step, System.resume] at step
    cases isHost : s.host with
    | idle | task t =>
      rw [isHost] at step
      cases step
    | wait args queue =>
      rw [isHost] at step
      dsimp only at step
      split at step
      · cases step
        refine .inr ⟨room, submitted, args, queue, rfl, rfl, counted_failed ?_ h⟩
        unfold returned
        rw [isHost]
      · cases step
  | copyout ddr size flag queue submitted | task env | run queue env => cases h

end System

namespace State
variable {ddr : Nat} {args : Args CopyinFlag} {queue : Option Nat}

lemma query_within (I : Inv s) (J : Inv s') (maps : s'.rangeMap = s.rangeMap) (w : Within s s') :
    s'.query ddr = s.query ddr := by
  unfold State.query
  rw [J.same, I.same, maps]
  simp only [w.size]

lemma copyinTask_hbw : ((s.copyinTask args env).1.mem args.mem).baseHbw = none ↔
    (s.mem args.mem).baseHbw = none ∧ env.hbw = none := by
  rw [State.copyinTask]
  cases got : s.alloc args.mem env with
  | none => exact ⟨fun _ => alloc_none got, fun h => h.1⟩
  | some s' =>
    have has := (alloc_mem got).1
    have counted (c : Int) :
        ((s'.setMem args.mem { s'.mem args.mem with refCnt := c }).mem args.mem).baseHbw ≠ none := by
      rw [mem_self]
      exact has
    have both : ¬ ((s.mem args.mem).baseHbw = none ∧ env.hbw = none) := by
      rintro ⟨noMem, noHbw⟩
      rw [alloc, if_neg (not_not.2 noMem), noHbw] at got
      cases got
    refine iff_of_false ?_ both
    cases args.flag with
    | create => exact counted _
    | copyIn =>
      dsimp only
      split
      · exact counted _
      · exact counted _
    | push | other => exact has

lemma copyinTask_addr {b : Hbw} (has : ((s.copyinTask args env).1.mem args.mem).baseHbw = some b) :
    (s.mem args.mem).baseHbw = some b ∨ env.hbw = some b.addr := by
  rw [State.copyinTask] at has
  cases got : s.alloc args.mem env with
  | none =>
    rw [got] at has
    exact .inl has
  | some s' =>
    rw [got] at has
    have has' : (s'.mem args.mem).baseHbw = some b := by
      have counted (c : Int) : ((s'.setMem args.mem { s'.mem args.mem with refCnt := c }).mem args.mem).baseHbw =
          (s'.mem args.mem).baseHbw := mem_setMem (f := (·.baseHbw)) rfl
      cases isFlag : args.flag with
      | create =>
        rw [isFlag] at has
        exact (counted _).symm.trans has
      | copyIn =>
        rw [isFlag] at has
        dsimp only at has
        split at has
        · exact (counted _).symm.trans has
        · exact (counted _).symm.trans has
      | push | other =>
        rw [isFlag] at has
        exact has
    rw [alloc] at got
    split at got
    · cases got
      exact .inl has'
    · cases isHbw : env.hbw with
      | none =>
        rw [isHbw] at got
        cases got
      | some addr =>
        rw [isHbw] at got
        cases got
        have self : ((s.setMem args.mem { s.mem args.mem with
            baseHbw := some ⟨s.hbwMade, addr⟩
            pin := decide (s.threshold ≤ (s.mem args.mem).size) && env.pinned
            refCnt := 0 }).mem args.mem).baseHbw = some ⟨s.hbwMade, addr⟩ := congrArg KuplMem.baseHbw mem_self
        cases self.symm.trans has'
        exact .inr rfl

lemma attachTo_count : ((s.attachTo args).1.mem args.mem).attCnt =
    if args.flag = .create ∨ args.flag = .copyIn then int32 ((s.mem args.mem).attCnt + 1)
    else (s.mem args.mem).attCnt := by
  rw [State.attachTo]
  cases args.flag with
  | create | copyIn => exact congrArg KuplMem.attCnt mem_self
  | push | other => rfl

lemma attachTo_hbw : ((s.attachTo args).1.mem args.mem).baseHbw = (s.mem args.mem).baseHbw := by
  rw [State.attachTo]
  cases args.flag with
  | create | copyIn => exact mem_setMem (f := (·.baseHbw)) rfl
  | push | other => rfl

/-- What a request that failed leaves of the mapping that it counted itself on. -/
structure Left (s : State) (args : Args CopyinFlag) (queue : Option Nat) (env : Env) (s' : State) : Prop where
  query : ∀ ddr, s'.query ddr = s.query ddr
  att : (s'.mem args.mem).attCnt =
    if args.flag = .create ∨ args.flag = .copyIn then int32 ((s.mem args.mem).attCnt + 1) else (s.mem args.mem).attCnt
  hbw : (s'.mem args.mem).baseHbw = none ↔
    (s.mem args.mem).baseHbw = none ∧ (queue = none → args.flag ≠ .other → env.hbw = none)
  addr : ∀ b, (s'.mem args.mem).baseHbw = some b → (s.mem args.mem).baseHbw = some b ∨ env.hbw = some b.addr
  size : (s'.mem args.mem).size = (s.mem args.mem).size
  inv : Inv s'

lemma failed_left (queue : Option Nat) (env : Env) (I : Inv s) (known : args.mem < s.made) :
    Left s args queue env (failed ((s.attachTo args).1, args, (s.attachTo args).2) queue env) := by
  have J : Inv (s.attachTo args).1 := I.attachTo
  have known' : args.mem < (s.attachTo args).1.made := known.trans_eq made_attachTo.symm
  have w : Within s (s.attachTo args).1 := .attachTo
  have query (ddr) : (s.attachTo args).1.query ddr = s.query ddr := query_within I J attachTo_maps.1 w
  unfold failed
  split
  · rename_i ends
    have run : Within (s.attachTo args).1 ((s.attachTo args).1.copyinTask args env).1 :=
      Task.within (t := .copyin args)
    have w' := w.trans run
    refine ⟨fun ddr => ?_, ?_, ?_, fun b has => ?_, w'.size _, J.copyinTask known'⟩
    · exact (query_within J (J.copyinTask known') copyinTask_frame.1 run).trans (query ddr)
    · exact (copyinTask_uncounted.att _).trans attachTo_count
    · have good := attachTo_ok.1 ends.1
      rw [copyinTask_hbw, attachTo_hbw]
      exact and_congr_right fun _ => ⟨fun no _ _ => no, fun no => no ends.2 good⟩
    · have old : ((s.attachTo args).1.mem args.mem).baseHbw = (s.mem args.mem).baseHbw := attachTo_hbw
      rw [← old]
      exact copyinTask_addr has
  · rename_i goes
    refine ⟨query, attachTo_count, ?_, fun b has => .inl (attachTo_hbw.symm.trans has), w.size _, J⟩
    rw [attachTo_hbw]
    exact ⟨fun no => ⟨no, fun sync good => absurd ⟨attachTo_ok.2 good, sync⟩ goes⟩, fun h => h.1⟩

end State

/-! ### Requests that change nothing -/

/-- Record `mem` has the number of the record that is made last, and the records to be made come after that. -/
def renumber (mem made x : Nat) : Nat := if x = mem then made else if x < made then x else x + 1

lemma renumber_injective {made : Nat} : Function.Injective (renumber mem made) := by
  intro x y same
  unfold renumber at same
  split_ifs at same <;> omega

namespace State
variable {ddr size : Nat} {k : Int} {args : Args CopyinFlag} {queue : Option Nat}

lemma renamed_replaced (I : Inv s) (found : s.addrMap.lookup ddr = some mem)
    (like : s.mem mem = ⟨ddr, none, size, false, 0, k⟩) : Renamed (renumber mem s.made) s
      { s.map ddr size with mem := update s.mem s.made ⟨ddr, none, size, false, 0, k⟩ } := by
  have known : mem < s.made := by
    rw [I.same] at found
    exact (I.base found).2.1
  have isMem : renumber mem s.made mem = s.made := if_pos rfl
  have old {x} (ne : x ≠ mem) (lt : x < s.made) : renumber mem s.made x = x := by
    rw [renumber, if_neg ne, if_pos lt]
  have later {x} (le : s.made ≤ x) : renumber mem s.made x = x + 1 := by
    rw [renumber, if_neg (by omega), if_neg (by omega)]
  have maps {a : OrderedMap Nat Nat} (isA : a = s.rangeMap) (j : Nat) :
      (a.insert ddr s.made).lookup j = (a.lookup j).map (renumber mem s.made) := by
    subst isA
    rw [I.same] at found
    by_cases isDdr : j = ddr
    · rw [isDdr, Finmap.lookup_insert, found, map_some, isMem]
    · rw [Finmap.lookup_insert_of_ne _ isDdr]
      cases here : s.rangeMap.lookup j with
      | none => rfl
      | some x =>
        obtain ⟨base, lt, -⟩ := I.base here
        have ne : x ≠ mem := by
          rintro rfl
          rw [like] at base
          exact isDdr base.symm
        rw [map_some, old ne lt]
  refine ⟨rfl, fun x lt => ?_, fun x le => ?_, fun x => ?_, maps I.same, maps rfl, rfl, rfl, rfl⟩
  · show update s.mem s.made _ (renumber mem s.made x) = s.mem x
    by_cases same : x = mem
    · rw [same, isMem, update_self, like]
    · rw [old same lt, Function.update_of_ne (by omega)]
  · show renumber mem s.made x = s.made + 1 + (x - s.made)
    rw [later le]
    omega
  · show s.deleted (renumber mem s.made x) = s.deleted x
    by_cases same : x = mem
    · rw [I.same] at found
      rw [same, isMem, I.new le_rfl, (I.base found).2.2]
    · by_cases lt : x < s.made
      · rw [old same lt]
      · rw [later (by omega), I.new (by omega), I.new (by omega)]

lemma failed_remap (bare : queue = none → args.flag ≠ .other → env.hbw = none) :
    failed (s.remap args true) queue env = { s.map args.ddr args.size with
      mem := update s.mem s.made ⟨args.ddr, none, args.size, false, 0,
        if args.flag = .create ∨ args.flag = .copyIn then 1 else 0⟩ } := by
  have isRemap : s.remap args true = (((s.map args.ddr args.size).attachTo { args with mem := s.made, offset := 0 }).1,
    { args with mem := s.made, offset := 0 },
    ((s.map args.ddr args.size).attachTo { args with mem := s.made, offset := 0 }).2) := rfl
  have self : (s.map args.ddr args.size).mem s.made = ⟨args.ddr, none, args.size, false, 0, 0⟩ :=
    update_self ..
  have isCore : ((s.map args.ddr args.size).attachTo { args with mem := s.made, offset := 0 }).1 =
      { s.map args.ddr args.size with
        mem := update s.mem s.made ⟨args.ddr, none, args.size, false, 0,
          if args.flag = .create ∨ args.flag = .copyIn then 1 else 0⟩ } := by
    have twice (c : Int) : (s.map args.ddr args.size).setMem s.made ⟨args.ddr, none, args.size, false, 0, c⟩ =
        { s.map args.ddr args.size with
          mem := update s.mem s.made ⟨args.ddr, none, args.size, false, 0, c⟩ } := by
      rw [setMem]
      show State.mk _ (update (update s.mem s.made _) s.made _) _ _ _ _ _ _ _ = _
      rw [Function.update_idem]
    have one : int32 (0 + 1) = 1 := by decide
    rw [attachTo]
    rw [self]
    cases args.flag with
    | create =>
      rw [if_pos (.inl rfl), one]
      exact twice 1
    | copyIn =>
      rw [if_pos (.inr rfl), one]
      exact twice 1
    | push | other => rfl
  rw [isRemap, failed]
  split
  · rename_i ends
    have good : ({ args with mem := s.made, offset := 0 } : Args CopyinFlag).flag ≠ .other := attachTo_ok.1 ends.1
    have noHbw := bare ends.2 good
    have noMem : (((s.map args.ddr args.size).attachTo { args with mem := s.made, offset := 0 }).1.mem
        s.made).baseHbw = none := by
      rw [isCore]
      show (update s.mem s.made _ s.made).baseHbw = none
      rw [update_self]
    have noAlloc : ((s.map args.ddr args.size).attachTo { args with mem := s.made, offset := 0 }).1.alloc s.made env =
        none := by
      rw [alloc, if_neg (not_not.2 noMem), noHbw]
    rw [copyinTask]
    rw [noAlloc]
    exact isCore
  · exact isCore

lemma failed_quiet (quiet : args.flag = .other ∨
      args.flag = .push ∧ (queue = none → (s.mem args.mem).baseHbw = none → env.hbw = none)) :
    { failed ((s.attachTo args).1, args, (s.attachTo args).2) queue env with issued := [] } =
      { s with issued := [] } := by
  obtain isOther | ⟨isPush, none⟩ := quiet
  · have isS : s.attachTo args = (s, false) := by
      rw [attachTo, isOther]
    rw [isS]
    rfl
  · have isS : s.attachTo args = (s, true) := by
      rw [attachTo, isPush]
    rw [isS, failed]
    split
    · rename_i ends
      rw [copyinTask]
      by_cases noMem : (s.mem args.mem).baseHbw = Option.none
      · have noAlloc : s.alloc args.mem env = .none := by
          rw [alloc, if_neg (not_not.2 noMem), none ends.2 noMem]
        rw [noAlloc]
      · have got : s.alloc args.mem env = some s := if_pos noMem
        rw [got, isPush]
        rfl
    · rfl

end State

namespace System
variable {s s' : System} {queue : Option Nat} {ddr x : Nat}

lemma tidy_withdrawn (T : Tidy s) : Tidy s.withdrawn := by
  refine ⟨T.inv, fun t pending => T.known t ?_, nofun⟩
  obtain host | old := pending
  · cases host
  · exact .inr old

lemma found_undone_iff (T : Tidy s) (args : Args CopyinFlag) (pos : ddr ≠ 0)
    (found : s.core.query ddr = some (args.mem, args.offset))
    (isS : s' = { s with
      core := State.failed ((s.core.attachTo args).1, args, (s.core.attachTo args).2) queue env, host := .idle }) :
    s.withdrawn.Alike s' ↔ args.flag = .other ∨
      args.flag = .push ∧ (queue = none → (s.core.mem args.mem).baseHbw = none → env.hbw = none) := by
  subst isS
  have L := State.failed_left queue env T.inv (T.inv.query_known found)
  have found' := (L.query ddr).trans found
  refine ⟨fun A => ?_, fun quiet => ?_⟩
  · have uncounted : ¬ (args.flag = .create ∨ args.flag = .copyIn) := by
      intro counts
      have att := L.att
      rw [if_pos counts, int32_nat] at att
      have same := count_of_alike A pos rfl rfl found found' att
      rw [← int32_nat] at same
      exact int32_succ_ne _ same
    have bare := hbw_of_alike A pos rfl rfl found found'
    cases isFlag : args.flag with
    | create => exact absurd (.inl isFlag) uncounted
    | copyIn => exact absurd (.inr isFlag) uncounted
    | other => exact .inl rfl
    | push =>
      refine .inr ⟨rfl, fun sync none => (L.hbw.1 (bare.1 none)).2 sync ?_⟩
      rw [isFlag]
      nofun
  · apply alike_of_quiet
    unfold System.withdrawn System.quiet
    rw [State.failed_quiet quiet]

lemma map_query {t : State} {size : Nat} : (t.map ddr size).query ddr = some (t.made, 0) := by
  unfold State.query State.map
  rw [Finmap.lookup_insert]

lemma map_left (queue : Option Nat) (env : Env) (T : Tidy s) {args : Args CopyinFlag} (pos : args.ddr ≠ 0)
    (wide : args.size ≠ 0) :
    State.Left (s.core.map args.ddr args.size) { args with mem := s.core.made, offset := 0 } queue env
      (State.failed (s.core.remap args true) queue env) :=
  State.failed_left queue env (T.inv.mapped (Nat.pos_of_ne_zero pos) (Nat.pos_of_ne_zero wide)) (Nat.lt_succ_self _)

lemma new_undone_iff (T : Tidy s) (args : Args CopyinFlag) {room : Bool} (pos : args.ddr ≠ 0) (wide : args.size ≠ 0)
    (absent : s.core.query args.ddr = none)
    (isS : s' = { s with core := State.failed (s.core.remap args room) queue env, host := .idle }) :
    s.withdrawn.Alike s' ↔ room = false := by
  subst isS
  cases room with
  | false => exact iff_of_true (alikeFor_self (s := s.withdrawn)) rfl
  | true =>
    refine iff_of_false (fun A => ?_) nofun
    have L := map_left queue env T pos wide
    have here := (L.query args.ddr).trans map_query
    have same := found_of_alike A pos
    have absent : s.withdrawn.core.query args.ddr = none := absent
    rw [absent, here] at same
    cases same

lemma replaced_undone (T : Tidy s) (F : s.core.AllFit) {args : Args CopyinFlag}
    (found : s.core.query args.ddr = some (x, 0)) (none : (s.core.mem x).baseHbw = none)
    (size : (s.core.mem x).size = args.size)
    (att : (s.core.mem x).attCnt = (if args.flag = .create ∨ args.flag = .copyIn then 1 else 0))
    (bare : queue = .none → args.flag ≠ .other → env.hbw = .none) (settled : ∀ t, s.Pending t → t.mem ≠ x) :
    s.withdrawn.Alike { s with core := State.failed (s.core.remap args true) queue env, host := .idle } := by
  obtain ⟨k, here, isDdr, -⟩ := T.inv.query found
  obtain ⟨base, known, -⟩ := T.inv.base here
  have isDdr : args.ddr = k := isDdr
  have fit := (F x known).none none
  have like : s.core.mem x = ⟨args.ddr, .none, args.size, false, 0,
      if args.flag = .create ∨ args.flag = .copyIn then 1 else 0⟩ := by
    rw [← att, ← size, isDdr, ← base, ← none, ← fit.1, ← fit.2]
  rw [State.failed_remap bare]
  rw [← isDdr, ← T.inv.same] at here
  refine alike_of_renamed ⟨State.renamed_replaced T.inv here like, fun q => ?_, rfl, rfl⟩ renumber_injective
    (tidy_withdrawn T)
  have kept (t) (mem : t ∈ s.queues q) : t.rename (renumber x s.core.made) = t := by
    have isOld : renumber x s.core.made t.mem = t.mem := by
      rw [renumber, if_neg (settled t (.inr ⟨q, mem⟩)), if_pos (T.known t (.inr ⟨q, mem⟩))]
    cases t with
    | copyin args =>
      show Task.copyin { args with mem := renumber x s.core.made args.mem } = _
      rw [show renumber x s.core.made args.mem = args.mem from isOld]
    | copyout args =>
      show Task.copyout { args with mem := renumber x s.core.made args.mem } = _
      rw [show renumber x s.core.made args.mem = args.mem from isOld]
  exact ((List.map_congr_left kept).trans (List.map_id _)).symm

lemma like_of_undone (T : Tidy s) (F : s.core.AllFit) (fresh : s.Fresh env) {args : Args CopyinFlag} {o : Nat}
    (pos : args.ddr ≠ 0) (wide : args.size ≠ 0) (found : s.core.query args.ddr = some (x, o))
    (A : s.withdrawn.Alike { s with core := State.failed (s.core.remap args true) queue env, host := .idle }) :
    o = 0 ∧ (s.core.mem x).baseHbw = none ∧ (s.core.mem x).size = args.size ∧
      (s.core.mem x).attCnt = (if args.flag = .create ∨ args.flag = .copyIn then 1 else 0) ∧
      (queue = none → args.flag ≠ .other → env.hbw = none) := by
  have L := map_left queue env T pos wide
  have made := (L.query args.ddr).trans map_query
  have self : (s.core.map args.ddr args.size).mem s.core.made = ⟨args.ddr, none, args.size, false, 0, 0⟩ :=
    update_self ..
  obtain ⟨k, here, -, inside⟩ := T.inv.query found
  obtain ⟨-, known, live⟩ := T.inv.base here
  have addr := addr_of_alike A pos found made
  have bare := hbw_of_alike A pos rfl rfl found made
  have hbw := L.hbw
  have att := L.att
  have size := L.size
  rw [self] at hbw att size
  have addrs := L.addr
  rw [self] at addrs
  cases isHbw : (s.core.mem x).baseHbw with
  | some b =>
    -- Memory that is not in use is somewhere else.
    exfalso
    cases isNew : ((State.failed (s.core.remap args true) queue env).mem s.core.made).baseHbw with
    | none =>
      have none := bare.2 isNew
      cases isHbw.symm.trans none
    | some b' =>
      obtain bad | isAddr := addrs b' isNew
      · cases bad
      have apart := fresh x known b b'.addr isHbw isAddr
      have addr : ((s.core.mem x).baseHbw.map (·.addr)).getD 0 + o =
        (((State.failed (s.core.remap args true) queue env).mem s.core.made).baseHbw.map (·.addr)).getD 0 + 0 := addr
      rw [isHbw, isNew] at addr
      have addr : b.addr + o = b'.addr := addr
      omega
  | none =>
    have none' := bare.1 isHbw
    have addr : ((s.core.mem x).baseHbw.map (·.addr)).getD 0 + o =
      (((State.failed (s.core.remap args true) queue env).mem s.core.made).baseHbw.map (·.addr)).getD 0 + 0 := addr
    have none'' : ((State.failed (s.core.remap args true) queue env).mem s.core.made).baseHbw = none := none'
    rw [isHbw, none''] at addr
    have zero : o = 0 := by
      have addr : 0 + o = 0 := addr
      omega
    have isAtt : ((State.failed (s.core.remap args true) queue env).mem s.core.made).attCnt =
        if args.flag = .create ∨ args.flag = .copyIn then 1 else 0 := by
      rw [att]
      split <;> rfl
    have counts : (s.core.mem x).attCnt = if args.flag = .create ∨ args.flag = .copyIn then 1 else 0 := by
      have isNat : ((State.failed (s.core.remap args true) queue env).mem s.core.made).attCnt =
          int32 ((if args.flag = .create ∨ args.flag = .copyIn then 1 else 0 : Nat) : Int) := by
        rw [isAtt]
        split <;> rfl
      have same := count_of_alike A pos rfl rfl found made isNat
      have same : int32 (s.core.mem x).attCnt = _ := same
      rw [(F x known).att] at same
      rw [same]
      split <;> rfl
    obtain ⟨k', here', -⟩ := L.inv.query made
    have sizes := size_of_alike A pos rfl rfl found made isHbw none' live (L.inv.base here').2.2
      (counts.trans isAtt.symm)
    exact ⟨zero, rfl, sizes.trans size, counts, (hbw.1 none').2⟩

end System

/-- Whenever `kupl_mem_copyin` fails, nobody can tell that it was called if it changed nothing; and, with memory that
is not in use and no tasks for a record whose place is taken, only then. -/
theorem failures_undone_iff {s s' : System} {a : Label} (h : asyncMachine.Reachable s)
    (failed : s.ends a env = some (s', false)) :
    (s.Harmless a env → s.withdrawn.Alike s') ∧
      (s.Fresh env → s.Settled a → s.withdrawn.Alike s' → s.Harmless a env) := by
  obtain ⟨T, F⟩ := tidy_of_reachable h
  obtain ⟨ddr, size, flag, queue, room, submitted, rfl, idle, ⟨bad, isS⟩ | ⟨good, r, got, isS⟩⟩ |
    ⟨room, submitted, args, queue, rfl, isHost, isS⟩ := System.ends_failed failed
  · have same : s.withdrawn = s := by
      rw [System.withdrawn, ← idle]
    refine ⟨fun _ => ?_, fun _ _ _ => bad.imp_right .inl⟩
    rw [isS, same]
    exact System.alikeFor_self
  · have pos : ddr ≠ 0 := fun zero => good (.inl zero)
    have wide : size ≠ 0 := fun zero => good (.inr zero)
    have iff : s.withdrawn.Alike s' ↔ s.Harmless (.copyin ddr size flag queue room submitted) env := by
      unfold System.Harmless State.attach at *
      dsimp only at got ⊢
      cases found : s.core.query ddr with
      | none =>
        rw [found] at got
        cases got
        rw [System.new_undone_iff T ⟨0, ddr, 0, size, flag⟩ pos wide found isS]
        exact ⟨fun h => .inr (.inr h), fun h => (h.resolve_left pos).resolve_left wide⟩
      | some p =>
        rw [found] at got
        dsimp only at got
        split at got
        · cases got
        cases got
        rw [System.found_undone_iff T ⟨p.1, ddr, p.2, size, flag⟩ pos found isS]
        exact ⟨fun h => .inr (.inr h), fun h => (h.resolve_left pos).resolve_left wide⟩
    exact ⟨iff.2, fun _ _ => iff.1⟩
  · obtain ⟨pos, wide⟩ := T.waits args queue isHost
    cases room with
    | false =>
      refine ⟨fun _ => ?_, fun _ _ _ _ _ _ => .inl rfl⟩
      rw [isS]
      exact System.alikeFor_self (s := s.withdrawn)
    | true =>
      cases found : s.core.query args.ddr with
      | none =>
        have no := System.new_undone_iff T args pos wide found isS
        refine ⟨fun h => ?_, fun _ _ A => nomatch no.1 A⟩
        obtain bad | ⟨mem, here, -⟩ := h args queue isHost
        · cases bad
        · cases found.symm.trans here
      | some p =>
        obtain ⟨x, o⟩ := p
        subst isS
        refine ⟨fun h => ?_, fun fresh settled A args' queue' isHost' => .inr ?_⟩
        · obtain bad | ⟨mem, here, none, size, att, bare, settled⟩ := h args queue isHost
          · cases bad
          · exact System.replaced_undone T F here none size att bare settled
        · cases isHost.symm.trans isHost'
          obtain ⟨rfl, none, size, att, bare⟩ := System.like_of_undone T F fresh pos wide found A
          exact ⟨x, found, none, size, att, bare, settled args queue true submitted x rfl isHost found⟩

/-- A request with a flag that does not exist is nothing to a mapping that is counted; but a request that is not
submitted leaves its count. -/
theorem failures_undone_iff_two : ∃ s s' t : System, s.core.isPresent 4096 = true ∧
    s.ends (.copyin 4096 64 .other none true true) (.good 8192) = some (s', false) ∧ s.withdrawn.Alike s' ∧
    s.ends (.copyin 4096 64 .create (some 1) true false) (.good 16384) = some (t, false) ∧
      ¬ s.withdrawn.Alike t := by
  obtain ⟨s, h, ⟨present, found, made, hbw, size⟩, other, create⟩ := Machine.exists_reach (M := asyncMachine)
    (g := fun _ _ => True) (P := fun s => (s.core.isPresent 4096 = true ∧ s.core.query 4096 = some (0, 0) ∧
        s.core.made = 1 ∧ (s.core.mem 0).baseHbw = some ⟨0, 8192⟩ ∧ (s.core.mem 0).size = 64) ∧
      (s.ends (.copyin 4096 64 .other none true true) (.good 8192)).any (fun r => !r.2) = true ∧
      (s.ends (.copyin 4096 64 .create (some 1) true false) (.good 16384)).any (fun r => !r.2) = true)
    [.copyin 4096 64 .create none true true, .task (.good 8192)] System.begin_init (by decide +kernel)
  obtain ⟨⟨s', ok⟩, ends, refused⟩ := (any_eq_true _ _).1 other
  obtain ⟨⟨t, ok'⟩, ends', refused'⟩ := (any_eq_true _ _).1 create
  cases ok with
  | true => cases refused
  | false =>
    cases ok' with
    | true => cases refused'
    | false =>
      refine ⟨s, s', t, present, ends, (failures_undone_iff h ends).1 ?_, ends', fun A => ?_⟩
      · unfold System.Harmless
        dsimp only
        rw [found]
        exact .inr (.inr (.inl rfl))
      · have fresh : s.Fresh (.good 16384) := by
          intro mem known b addr has isAddr
          have isZero : mem = 0 := by omega
          subst isZero
          cases hbw.symm.trans has
          cases isAddr
          rw [size]
          decide
        have harmless := (failures_undone_iff h ends').2 fresh nofun A
        unfold System.Harmless at harmless
        dsimp only at harmless
        rw [found] at harmless
        obtain bad | bad | bad | ⟨bad, -⟩ := harmless
        · cases bad
        · cases bad
        · cases bad
        · cases bad

/-- A request for which there is no high-bandwidth memory leaves its address present. -/
theorem failures_undone_iff_not : ¬ ∀ (s s' : System) (a : Label) (env : Env), asyncMachine.Reachable s →
    s.ends a env = some (s', false) → s.withdrawn.Alike s' := by
  intro undone
  obtain ⟨s, h, hs⟩ := Machine.exists_reach (M := asyncMachine) (g := fun _ _ => True)
    (P := fun s => ((s.ends (.copyin 4096 64 .create none true true) ⟨true, none, true, true⟩).any fun r =>
      !r.2 && r.1.core.isPresent 4096 && !s.withdrawn.core.isPresent 4096) = true) [] System.begin_init
        (by decide +kernel)
  obtain ⟨⟨s', ok⟩, ends, facts⟩ := (any_eq_true _ _).1 hs
  rw [Bool.and_eq_true, Bool.and_eq_true] at facts
  obtain ⟨⟨refused, after⟩, before⟩ := facts
  cases ok with
  | true => cases refused
  | false =>
    have same := congrFun (undone s s' _ _ h ends).answers.1 4096
    have after : s'.core.isPresent 4096 = true := after
    rw [same, after] at before
    cases before

end Kupl.Mem
