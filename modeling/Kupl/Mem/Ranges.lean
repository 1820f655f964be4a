import Kupl.Mem.Async

/-!
# Which mapping has an address (`kupl_mem.cpp`)

The lookup of an address is right exactly when no two mappings overlap, and what makes them overlap is a new mapping
that begins before another one and reaches into it.
-/

namespace Kupl.Mem

namespace State
variable (s : State)

/-- No two mappings have an address in common. -/
def Disjoint : Prop :=
  ∀ k mem k' mem', s.rangeMap.lookup k = some mem → s.rangeMap.lookup k' = some mem' → k < k' →
    k + (s.mem mem).size ≤ k'

/-- The mappings are disjoint, an address in one of them leads to its place in high-bandwidth memory, and any other
address leads nowhere. -/
structure Right : Prop where
  disjoint : s.Disjoint
  inside : ∀ ddr k mem, s.rangeMap.lookup k = some mem → k ≤ ddr → ddr < k + (s.mem mem).size →
    s.memQuery ddr = s.hbwAddr mem + (ddr - k)
  outside : ∀ ddr, (∀ k mem, s.rangeMap.lookup k = some mem → ¬ (k ≤ ddr ∧ ddr < k + (s.mem mem).size)) →
    s.memQuery ddr = 0

end State

/-- A step that makes no mapping that overlaps another one; the one that it replaces does not count. -/
def System.Apart (s : System) (a : Label) : Prop :=
  ∀ d n, s.Maps a d n → ∀ k mem, s.core.rangeMap.lookup k = some mem → k ≠ d →
    k + (s.core.mem mem).size ≤ d ∨ d + n ≤ k

variable {s s' : State} {k mem ddr size : Nat}

namespace State

lemma query_inside (I : Inv s) (D : s.Disjoint) (here : s.rangeMap.lookup k = some mem) (low : k ≤ ddr)
    (high : ddr < k + (s.mem mem).size) : s.query ddr = some (mem, ddr - k) := by
  unfold query
  cases exact' : s.addrMap.lookup ddr with
  | some mem' =>
    rw [I.same] at exact'
    obtain rfl | lt := low.eq_or_lt
    · cases here.symm.trans exact'
      rw [Nat.sub_self]
    · have apart := D k mem ddr mem' here exact' lt
      omega
  | none =>
    rw [I.same] at exact'
    obtain ⟨first, mem', last, here', le, above⟩ := OrderedMap.exists_lastLe here low
    have isFirst : k = first := by
      obtain same | lt := above.eq_or_lt
      · exact same
      · have apart := D k mem first mem' here here' lt
        omega
    subst isFirst
    cases here.symm.trans here'
    have ne : k ≠ ddr := by
      rintro rfl
      rw [here] at exact'
      cases exact'
    rw [last]
    dsimp only
    rw [if_pos ⟨by omega, by omega⟩]

lemma right_iff (I : Inv s) : s.Right ↔ s.Disjoint := by
  refine ⟨fun R => R.disjoint, fun D => ⟨D, fun ddr k mem here low high => ?_, fun ddr outside => ?_⟩⟩
  · have pos := (I.range here).1
    rw [memQuery, if_neg (by omega), query_inside I D here low high]
  · rw [memQuery]
    split
    · rfl
    · cases found : s.query ddr with
      | none => rfl
      | some p =>
        obtain ⟨mem, offset⟩ := p
        obtain ⟨k, here, isDdr, lt⟩ := I.query found
        exact absurd ⟨by omega, by omega⟩ (outside k mem here)

lemma Disjoint.mono (D : s.Disjoint) (w : Within s s')
    (fewer : ∀ k mem, s'.rangeMap.lookup k = some mem → s.rangeMap.lookup k = some mem) : s'.Disjoint := by
  intro k mem k' mem' here here' lt
  rw [w.size]
  exact D k mem k' mem' (fewer k mem here) (fewer k' mem' here') lt

lemma map_disjoint (I : Inv s) (D : s.Disjoint) (pos : 0 < size) : (s.map ddr size).Disjoint ↔
    ∀ k mem, s.rangeMap.lookup k = some mem → k ≠ ddr → k + (s.mem mem).size ≤ ddr ∨ ddr + size ≤ k := by
  have new : (s.map ddr size).rangeMap.lookup ddr = some s.made := Finmap.lookup_insert _
  have old {k} (ne : k ≠ ddr) : (s.map ddr size).rangeMap.lookup k = s.rangeMap.lookup k :=
    Finmap.lookup_insert_of_ne _ ne
  have self : (s.map ddr size).mem s.made = ⟨ddr, none, size, false, 0, 0⟩ := Function.update_self ..
  have kept {k mem} (here : s.rangeMap.lookup k = some mem) : (s.map ddr size).mem mem = s.mem mem :=
    Function.update_of_ne (Nat.ne_of_lt (I.base here).2.1) ..
  constructor
  · intro apart k mem here ne
    obtain lt | gt := Nat.lt_or_gt_of_ne ne
    · have le := apart k mem ddr s.made ((old ne).trans here) new lt
      rw [kept here] at le
      exact .inl le
    · have le := apart ddr s.made k mem new ((old ne).trans here) gt
      rw [self] at le
      exact .inr le
  · intro apart k mem k' mem' here here' lt
    by_cases isK : k = ddr
    · subst isK
      have ne : k' ≠ k := Nat.ne_of_gt lt
      cases new.symm.trans here
      rw [old ne] at here'
      rw [self]
      obtain le | le := apart k' mem' here' ne
      · omega
      · exact le
    · rw [old isK] at here
      rw [kept here]
      by_cases isK' : k' = ddr
      · subst isK'
        obtain le | le := apart k mem here isK
        · exact le
        · omega
      · rw [old isK'] at here'
        exact D k mem k' mem' here here' lt

end State

lemma disjoint_step {s s' : System} {a : Label} (T : Tidy s) (D : s.core.Disjoint) (h : s.step a = some s') :
    s'.core.Disjoint ↔ s.Apart a := by
  have vacuous (none : ∀ d n, ¬ s.Maps a d n) : s.Apart a := fun d n maps => absurd maps (none d n)
  cases System.step_does h with
  | stay core pending none =>
    refine ⟨fun _ => vacuous none, fun _ => ?_⟩
    rw [core]
    exact D
  | attach args found core pending none =>
    refine ⟨fun _ => vacuous none, fun _ => ?_⟩
    rw [core]
    apply D.mono .attachTo
    intro k mem
    rw [State.attachTo_maps.1]
    exact id
  | detach args found core pending none =>
    obtain ⟨args', core⟩ := core
    refine ⟨fun _ => vacuous none, fun _ => ?_⟩
    rw [core]
    apply D.mono .detach
    intro k mem
    rw [State.detach_maps.1]
    exact id
  | run t env next pending core others none =>
    refine ⟨fun _ => vacuous none, fun _ => ?_⟩
    rw [core]
    apply D.mono Task.within
    exact fun k mem => Task.run_lookup
  | remap args isMem maps only core pending =>
    have counted : s'.core.Disjoint ↔ (s.core.map args.ddr args.size).Disjoint := by
      rw [core]
      have w : Within (s.core.map args.ddr args.size) ((s.core.map args.ddr args.size).attachTo args).1 := .attachTo
      rw [State.Disjoint, State.attachTo_maps.1]
      constructor
      · intro apart k mem k' mem' here here' lt
        have le := apart k mem k' mem' here here' lt
        rw [w.size] at le
        exact le
      · intro apart k mem k' mem' here here' lt
        rw [w.size]
        exact apart k mem k' mem' here here' lt
    rw [counted, State.map_disjoint T.inv D (T.maps maps).2]
    constructor
    · intro apart d n maps'
      obtain ⟨rfl, rfl⟩ := only d n maps'
      exact apart
    · intro apart
      exact apart args.ddr args.size maps

/-- In every run, on any queues, in which no step makes a mapping that overlaps another one: the mappings are disjoint
and every lookup is right; and the first step that makes an overlapping mapping ends this. -/
theorem lookups_right_iff {s : System} (h : asyncMachine.Reach System.Apart s) :
    s.core.Right ∧ ∀ a s', s.step a = some s' → (s'.core.Right ↔ s.Apart a) := by
  have inv : Tidy s ∧ s.core.Disjoint := by
    apply h.inv
    · intro s init
      refine ⟨.init init, fun k mem _ _ here => ?_⟩
      rw [init.core.rangeMap] at here
      cases here
    · intro s a s' TD apart step
      exact ⟨TD.1.step step, (disjoint_step TD.1 TD.2 step).2 apart⟩
  obtain ⟨T, D⟩ := inv
  refine ⟨(State.right_iff T.inv).2 D, fun a s' step => ?_⟩
  rw [State.right_iff (T.step step).inv]
  exact disjoint_step T D step

/-- Nothing is mapped, and no queue is in the table. -/
def System.start : System := ⟨.start, fun _ => [], [], .idle⟩

lemma System.start_init : System.start.Init := ⟨State.start_init, fun _ => rfl, rfl⟩

/-- One mapping, whose task is still to be done. -/
theorem lookups_right_iff_one : ∃ s : System, s.core.isPresent 4096 = true ∧ s.core.memQuery 4146 = 50 ∧
    s.core.Right ∧ ∀ a s', s.step a = some s' → (s'.core.Right ↔ s.Apart a) := by
  have apart : System.start.Apart (.copyin 4096 100 .create none true true) := by
    intro d n _ k mem here
    have absent : System.start.core.rangeMap.lookup k = none := Finmap.lookup_empty _
    cases absent.symm.trans here
  obtain ⟨s, step⟩ : ∃ s, System.start.step (.copyin 4096 100 .create none true true) = some s := ⟨_, rfl⟩
  have h : asyncMachine.Reach System.Apart s := .step (.init System.start_init) apart step
  have facts : (System.start.step (.copyin 4096 100 .create none true true)).all fun s =>
      decide (s.core.isPresent 4096 = true ∧ s.core.memQuery 4146 = 50) := by decide +kernel
  rw [step] at facts
  obtain ⟨present, place⟩ := of_decide_eq_true facts
  exact ⟨s, present, place, lookups_right_iff h⟩

/-- A mapping that reaches over an earlier one is not found behind the earlier one. -/
theorem lookups_right_iff_not : ¬ ∀ s, asyncMachine.Reachable s → s.core.Right := by
  intro right
  obtain ⟨s, h, here, size, null⟩ := Machine.exists_reach (M := asyncMachine) (g := fun _ _ => True)
    (P := fun s => s.core.rangeMap.lookup 4096 = some 1 ∧ (s.core.mem 1).size = 4096 ∧ s.core.memQuery 4300 = 0)
    [.copyin 4196 10 .create none true true, .task (.good 8192), .copyin 4096 4096 .create none true true,
      .task (.good 16384)] System.start_init (by decide +kernel)
  have place := (right s h).inside 4300 4096 1 here (by omega) (by rw [size]; omega)
  omega

end Kupl.Mem
