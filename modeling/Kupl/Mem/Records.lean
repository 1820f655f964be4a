import Kupl.Mem.Mapping

/-!
# What holds of the records in every run

Both maps have the same entries, an entry is a record that is not deleted, and each piece of high-bandwidth memory is
in one record or was freed once. Every operation of `kupl_mem.cpp` keeps this, in whatever order tasks run.
-/

namespace Kupl.Mem
open Function (update update_of_ne update_self)

/-- The records, the maps and the high-bandwidth memory fit together. -/
structure Inv (s : State) : Prop where
  same : s.addrMap = s.rangeMap
  base : ∀ {k mem}, s.rangeMap.lookup k = some mem → (s.mem mem).baseDdr = k ∧ mem < s.made ∧
    s.deleted mem = false
  range : ∀ {k mem}, s.rangeMap.lookup k = some mem → 0 < k ∧ 0 < (s.mem mem).size
  new : ∀ {mem}, s.made ≤ mem → s.deleted mem = false
  owned : ∀ {mem b}, mem < s.made → (s.mem mem).baseHbw = some b → b.id < s.hbwMade ∧ s.freed b.id = 0
  once : ∀ {mem mem' b b'}, mem < s.made → mem' < s.made → (s.mem mem).baseHbw = some b →
    (s.mem mem').baseHbw = some b' → b.id = b'.id → mem = mem'
  pieces : ∀ id < s.hbwMade, (s.freed id = 0 ∧ ∃ mem < s.made, ∃ b, (s.mem mem).baseHbw = some b ∧
    b.id = id) ∨
    s.freed id = 1
  unused : ∀ {id}, s.hbwMade ≤ id → s.freed id = 0

variable {s s' : State} {mem ddr size offset : Nat} {m : KuplMem} {env : Env}

namespace State

lemma mem_self : (s.setMem mem m).mem mem = m := update_self ..

lemma mem_of_ne {mem' : Nat} (ne : mem' ≠ mem) : (s.setMem mem m).mem mem' = s.mem mem' :=
  update_of_ne ne ..

lemma mem_setMem {mem' : Nat} {β : Type} {f : KuplMem → β} (kept : f m = f (s.mem mem)) :
    f ((s.setMem mem m).mem mem') = f (s.mem mem') := by
  by_cases same : mem' = mem
  · subst same
    rw [mem_self, kept]
  · rw [mem_of_ne same]

end State

namespace Inv

section
variable (I : Inv s)
include I

lemma counted (ddr : m.baseDdr = (s.mem mem).baseDdr) (hbw : m.baseHbw = (s.mem mem).baseHbw)
    (size : m.size = (s.mem mem).size) : Inv (s.setMem mem m) := by
  have bases (mem') : ((s.setMem mem m).mem mem').baseDdr = (s.mem mem').baseDdr :=
    State.mem_setMem (f := (·.baseDdr)) ddr
  have sizes (mem') : ((s.setMem mem m).mem mem').size = (s.mem mem').size := State.mem_setMem (f := (·.size)) size
  have hbws (mem') : ((s.setMem mem m).mem mem').baseHbw = (s.mem mem').baseHbw :=
    State.mem_setMem (f := (·.baseHbw)) hbw
  refine ⟨I.same, fun {k mem'} here => ?_, fun {k mem'} here => ?_, I.new, fun {mem' b} lt has => ?_,
    fun {a a' b b'} lt lt' has has' => ?_, fun id lt => ?_, I.unused⟩
  · rw [bases]
    exact I.base here
  · rw [sizes]
    exact I.range here
  · rw [hbws] at has
    exact I.owned lt has
  · rw [hbws] at has has'
    exact I.once lt lt' has has'
  · obtain ⟨zero, mem', lt', b, has, isId⟩ | one := I.pieces id lt
    · exact .inl ⟨zero, mem', lt', b, (hbws mem').trans has, isId⟩
    · exact .inr one

lemma mapped (pos : 0 < ddr) (some : 0 < size) : Inv (s.map ddr size) := by
  have self : (s.map ddr size).mem s.made = ⟨ddr, none, size, false, 0, 0⟩ := update_self ..
  have old {mem'} (lt : mem' < s.made) : (s.map ddr size).mem mem' = s.mem mem' :=
    update_of_ne (Nat.ne_of_lt lt) ..
  have here {k mem'} (h : (s.rangeMap.insert ddr s.made).lookup k = .some mem') :
      k = ddr ∧ mem' = s.made ∨ k ≠ ddr ∧ s.rangeMap.lookup k = .some mem' := by
    by_cases isK : k = ddr
    · subst isK
      rw [Finmap.lookup_insert] at h
      cases h
      exact .inl ⟨rfl, rfl⟩
    · rw [Finmap.lookup_insert_of_ne _ isK] at h
      exact .inr ⟨isK, h⟩
  have known {mem' b} (lt : mem' < s.made + 1) (has : ((s.map ddr size).mem mem').baseHbw = .some b) :
      mem' < s.made ∧ (s.mem mem').baseHbw = .some b := by
    obtain lt | rfl := Nat.lt_succ_iff_lt_or_eq.1 lt
    · exact ⟨lt, (congrArg KuplMem.baseHbw (old lt)).symm.trans has⟩
    · rw [self] at has
      cases has
  refine ⟨?_, fun {k mem'} h => ?_, fun {k mem'} h => ?_, fun le => I.new
    (Nat.le_of_succ_le le), fun {mem' b} lt has => ?_,
    fun {a a' b b'} lt lt' has has' => ?_, fun id lt => ?_, I.unused⟩
  · show s.addrMap.insert ddr s.made = s.rangeMap.insert ddr s.made
    rw [I.same]
  · obtain ⟨rfl, rfl⟩ | ⟨-, h⟩ := here h
    · rw [self]
      exact ⟨rfl, Nat.lt_succ_self _, I.new le_rfl⟩
    · obtain ⟨base, lt, live⟩ := I.base h
      rw [old lt]
      exact ⟨base, Nat.lt_succ_of_lt lt, live⟩
  · obtain ⟨rfl, rfl⟩ | ⟨-, h⟩ := here h
    · rw [self]
      exact ⟨pos, some⟩
    · rw [old (I.base h).2.1]
      exact I.range h
  · obtain ⟨lt, has⟩ := known lt has
    exact I.owned lt has
  · obtain ⟨lt, has⟩ := known lt has
    obtain ⟨lt', has'⟩ := known lt' has'
    exact I.once lt lt' has has'
  · obtain ⟨zero, mem', lt', b, has, isId⟩ | one := I.pieces id lt
    · exact .inl ⟨zero, mem', Nat.lt_succ_of_lt lt', b, (congrArg KuplMem.baseHbw (old lt')).trans has, isId⟩
    · exact .inr one

lemma unmapped (known : mem < s.made) : Inv (s.unmap mem) := by
  have kept {k mem'} (h : (s.rangeMap.erase (s.mem mem).baseDdr).lookup k = some mem') :
      k ≠ (s.mem mem).baseDdr ∧ s.rangeMap.lookup k = some mem' := by
    have ne : k ≠ (s.mem mem).baseDdr := by
      rintro rfl
      rw [Finmap.lookup_erase] at h
      cases h
    exact ⟨ne, (Finmap.lookup_erase_ne ne).symm.trans h⟩
  refine ⟨?_, fun {k mem'} h => ?_, fun h => I.range (kept h).2, fun {mem'} le => ?_, I.owned, I.once,
    I.pieces, I.unused⟩
  · show s.addrMap.erase _ = s.rangeMap.erase _
    rw [I.same]
  · obtain ⟨ne, h⟩ := kept h
    obtain ⟨base, lt, live⟩ := I.base h
    have other : mem' ≠ mem := by
      rintro rfl
      exact ne base.symm
    exact ⟨base, lt, (update_of_ne other ..).trans live⟩
  · have le : s.made ≤ mem' := le
    exact (update_of_ne (by omega) ..).trans (I.new le)

lemma alloc (known : mem < s.made) (h : s.alloc mem env = some s') : Inv s' := by
  rw [State.alloc] at h
  split at h
  · cases h
    exact I
  rename_i none
  have none := not_not.1 none
  cases isHbw : env.hbw with
  | none =>
    rw [isHbw] at h
    cases h
  | some addr =>
    rw [isHbw] at h
    cases h
    obtain ⟨m, isM⟩ : ∃ m : KuplMem, m = { s.mem mem with
        baseHbw := some ⟨s.hbwMade, addr⟩
        pin := decide (s.threshold ≤ (s.mem mem).size) && env.pinned
        refCnt := 0 } := ⟨_, rfl⟩
    rw [← isM]
    have bases (mem') : ((s.setMem mem m).mem mem').baseDdr = (s.mem mem').baseDdr :=
      State.mem_setMem (f := (·.baseDdr)) (by rw [isM])
    have sizes (mem') : ((s.setMem mem m).mem mem').size = (s.mem mem').size :=
      State.mem_setMem (f := (·.size)) (by rw [isM])
    have self : ((s.setMem mem m).mem mem).baseHbw = some ⟨s.hbwMade, addr⟩ := by
      rw [State.mem_self, isM]
    have has {mem' b} (h : ((s.setMem mem m).mem mem').baseHbw = some b) :
        mem' = mem ∧ b.id = s.hbwMade ∨ mem' ≠ mem ∧ (s.mem mem').baseHbw = some b := by
      by_cases same : mem' = mem
      · subst same
        rw [self] at h
        cases h
        exact .inl ⟨rfl, rfl⟩
      · rw [State.mem_of_ne same] at h
        exact .inr ⟨same, h⟩
    refine ⟨I.same, fun {k mem'} here => ?_, fun {k mem'} here => ?_, I.new, fun {mem' b} lt h => ?_,
      fun {a a' b b'} lt lt' h h' isId => ?_, fun id lt => ?_, fun le => I.unused (Nat.le_of_succ_le le)⟩
    · show ((s.setMem mem m).mem mem').baseDdr = k ∧ _
      rw [bases]
      exact I.base here
    · show 0 < k ∧ 0 < ((s.setMem mem m).mem mem').size
      rw [sizes]
      exact I.range here
    · obtain ⟨-, isId⟩ | ⟨-, old⟩ := has h
      · rw [isId]
        exact ⟨Nat.lt_succ_self _, I.unused le_rfl⟩
      · exact ⟨Nat.lt_succ_of_lt (I.owned lt old).1, (I.owned lt old).2⟩
    · obtain ⟨rfl, isB⟩ | ⟨-, old⟩ := has h
      · obtain ⟨rfl, -⟩ | ⟨-, old'⟩ := has h'
        · rfl
        · have := (I.owned lt' old').1
          omega
      · obtain ⟨rfl, isB⟩ | ⟨-, old'⟩ := has h'
        · have := (I.owned lt old).1
          omega
        · exact I.once lt lt' old old' isId
    · obtain lt | rfl := Nat.lt_succ_iff_lt_or_eq.1 lt
      · obtain ⟨zero, mem', lt', b, old, isId⟩ | one := I.pieces id lt
        · have ne : mem' ≠ mem := by
            rintro rfl
            rw [none] at old
            cases old
          exact .inl ⟨zero, mem', lt', b, (congrArg KuplMem.baseHbw (State.mem_of_ne ne)).trans old, isId⟩
        · exact .inr one
      · exact .inl ⟨I.unused le_rfl, mem, known, _, self, rfl⟩

lemma free (known : mem < s.made) : Inv (s.free mem) := by
  rw [State.free]
  split
  · exact I
  rename_i b isB
  obtain ⟨m, isM⟩ : ∃ m : KuplMem, m = { s.mem mem with baseHbw := none, pin := false, refCnt := 0 } :=
    ⟨_, rfl⟩
  rw [← isM]
  have bases (mem') : ((s.setMem mem m).mem mem').baseDdr = (s.mem mem').baseDdr :=
    State.mem_setMem (f := (·.baseDdr)) (by rw [isM])
  have sizes (mem') : ((s.setMem mem m).mem mem').size = (s.mem mem').size :=
    State.mem_setMem (f := (·.size)) (by rw [isM])
  have has {mem' b'} (h : ((s.setMem mem m).mem mem').baseHbw = some b') :
      mem' ≠ mem ∧ (s.mem mem').baseHbw = some b' := by
    have ne : mem' ≠ mem := by
      rintro rfl
      rw [State.mem_self, isM] at h
      cases h
    exact ⟨ne, (congrArg KuplMem.baseHbw (State.mem_of_ne ne)).symm.trans h⟩
  have zero := (I.owned known isB).2
  have freed {id} (ne : id ≠ b.id) : update s.freed b.id (s.freed b.id + 1) id = s.freed id :=
    update_of_ne ne ..
  have strange {mem' b'} (lt : mem' < s.made) (h : ((s.setMem mem m).mem mem').baseHbw = some b') : b'.id ≠ b.id :=
    fun same => (has h).1 (I.once lt known (has h).2 isB same)
  refine ⟨I.same, fun {k mem'} here => ?_, fun {k mem'} here => ?_, I.new, fun {mem' b'} lt h => ?_,
    fun {a a' b b'} lt lt' h h' isId => ?_, fun id lt => ?_, fun {id} le => ?_⟩
  · show ((s.setMem mem m).mem mem').baseDdr = k ∧ _
    rw [bases]
    exact I.base here
  · show 0 < k ∧ 0 < ((s.setMem mem m).mem mem').size
    rw [sizes]
    exact I.range here
  · have owned := I.owned lt (has h).2
    exact ⟨owned.1, (freed (strange lt h)).trans owned.2⟩
  · exact I.once lt lt' (has h).2 (has h').2 isId
  · by_cases isId : id = b.id
    · refine .inr ?_
      show update s.freed b.id (s.freed b.id + 1) id = 1
      rw [isId, update_self, zero]
    · obtain ⟨none, mem', lt', b', old, isId'⟩ | one := I.pieces id lt
      · have ne : mem' ≠ mem := by
          rintro rfl
          cases isB.symm.trans old
          exact isId isId'.symm
        exact .inl ⟨(freed isId).trans none, mem', lt', b',
          (congrArg KuplMem.baseHbw (State.mem_of_ne ne)).trans old, isId'⟩
      · exact .inr ((freed isId).trans one)
  · have le : s.hbwMade ≤ id := le
    have ne : id ≠ b.id := by
      rintro rfl
      exact absurd (I.owned known isB).1 (Nat.not_lt_of_le le)
    exact (freed ne).trans (I.unused le)

lemma copy : Inv (s.copy mem offset size) :=
  ⟨I.same, I.base, I.range, I.new, I.owned, I.once, I.pieces, I.unused⟩

lemma quiet {issued : List Copy} : Inv { s with issued := issued } :=
  ⟨I.same, I.base, I.range, I.new, I.owned, I.once, I.pieces, I.unused⟩

lemma query (h : s.query ddr = some (mem, offset)) :
    ∃ k, s.rangeMap.lookup k = some mem ∧ ddr = k + offset ∧ offset < (s.mem mem).size := by
  rw [State.query] at h
  cases here : s.addrMap.lookup ddr with
  | some mem' =>
    rw [here] at h
    cases h
    rw [I.same] at here
    exact ⟨ddr, here, rfl, (I.range here).2⟩
  | none =>
    rw [here] at h
    cases last : s.rangeMap.lastLe ddr with
    | none =>
      rw [last] at h
      cases h
    | some p =>
      rw [last] at h
      dsimp only at h
      split at h
      · rename_i inside
        cases h
        exact ⟨p.1, (OrderedMap.lastLe_eq_some.1 last).1, by omega, inside.2⟩
      · cases h

lemma query_known (h : s.query ddr = some (mem, offset)) : mem < s.made := by
  obtain ⟨k, here, -⟩ := I.query h
  exact (I.base here).2.1

lemma attachTo {args : Args CopyinFlag} : Inv (s.attachTo args).1 := by
  rw [State.attachTo]
  cases args.flag with
  | create | copyIn => exact I.counted rfl rfl rfl
  | push | other => exact I

lemma copyinTask {args : Args CopyinFlag} (known : args.mem < s.made) : Inv (s.copyinTask args env).1 := by
  rw [State.copyinTask]
  cases got : s.alloc args.mem env with
  | none => exact I
  | some s' =>
    have J := I.alloc known got
    cases args.flag with
    | create => exact J.counted rfl rfl rfl
    | copyIn =>
      have K : Inv (s'.setMem args.mem { s'.mem args.mem with refCnt := int32 ((s'.mem args.mem).refCnt + 1) }) :=
        J.counted rfl rfl rfl
      dsimp only
      split
      · exact K.copy
      · exact K
    | push => exact J.copy
    | other => exact J

lemma detach {args : Args CopyoutFlag} : Inv (s.detach args).1 := by
  rw [State.detach]
  cases found : s.query args.ddr with
  | none => exact I
  | some p =>
    obtain ⟨mem, offset⟩ := p
    cases args.flag with
    | delete | out | deleteFinalize | outFinalize => exact I.counted rfl rfl rfl
    | pull | other => exact I

end

end Inv

namespace State

@[simp] lemma made_free : (s.free mem).made = s.made := by
  rw [free]
  split <;> rfl

lemma made_attachTo {args : Args CopyinFlag} : (s.attachTo args).1.made = s.made := by
  rw [attachTo]
  cases args.flag <;> rfl

lemma attachTo_ok {args : Args CopyinFlag} : (s.attachTo args).2 = true ↔ args.flag ≠ .other := by
  rw [attachTo]
  cases args.flag <;> simp

lemma made_detach {args : Args CopyoutFlag} : (s.detach args).1.made = s.made := by
  rw [detach]
  cases s.query args.ddr with
  | none => rfl
  | some p => cases args.flag <;> rfl

lemma alloc_mem (h : s.alloc mem env = some s') : (s'.mem mem).baseHbw ≠ none ∧
    (s'.mem mem).size = (s.mem mem).size ∧ s'.made = s.made ∧ s'.issued = s.issued ∧
    s'.rangeMap = s.rangeMap ∧ s'.freed = s.freed ∧ (s'.mem mem).attCnt = (s.mem mem).attCnt ∧
    ((s.mem mem).baseHbw ≠ none ∧ (s'.mem mem).refCnt = (s.mem mem).refCnt ∨
      (s.mem mem).baseHbw = none ∧ env.hbw ≠ none ∧ (s'.mem mem).refCnt = 0) := by
  rw [alloc] at h
  split at h
  · rename_i has
    cases h
    exact ⟨has, rfl, rfl, rfl, rfl, rfl, rfl, .inl ⟨has, rfl⟩⟩
  · rename_i none
    cases isHbw : env.hbw with
    | none =>
      rw [isHbw] at h
      cases h
    | some addr =>
      rw [isHbw] at h
      cases h
      have self {m : KuplMem} : (s.setMem mem m).mem mem = m := mem_self
      rw [self]
      exact ⟨nofun, rfl, rfl, rfl, rfl, rfl, rfl, .inr ⟨not_not.1 none, nofun, rfl⟩⟩

lemma alloc_none (h : s.alloc mem env = none) : (s.mem mem).baseHbw = none ∧ env.hbw = none := by
  rw [alloc] at h
  split at h
  · cases h
  · rename_i none
    cases isHbw : env.hbw with
    | none => exact ⟨not_not.1 none, rfl⟩
    | some addr =>
      rw [isHbw] at h
      cases h

end State

namespace Inv

lemma dealloc (I : Inv s) (known : mem < s.made) : Inv (s.dealloc mem) := by
  have J := I.free known
  rw [State.dealloc]
  split
  · exact J.unmapped (by rw [State.made_free]; exact known)
  · exact J

lemma copyoutTask (I : Inv s) {args : Args CopyoutFlag} (known : args.mem < s.made) :
    Inv (s.copyoutTask args env).1 := by
  have counted (c : Int) : Inv (s.setMem args.mem { s.mem args.mem with refCnt := c }) := I.counted rfl rfl rfl
  rw [State.copyoutTask]
  split
  · exact I
  cases args.flag with
  | pull => exact I.copy
  | delete =>
    dsimp only
    split
    · exact (counted _).dealloc known
    · exact counted _
  | out =>
    dsimp only
    split
    · exact (counted _).copy.dealloc known
    · exact counted _
  | outFinalize => exact (counted _).copy.dealloc known
  | deleteFinalize => exact (counted _).dealloc known
  | other => exact I

end Inv

/-- The count of a mapping after a request that is done with it. -/
def CopyoutFlag.count (flag : CopyoutFlag) (attCnt : Int) : Int :=
  match flag with
  | .delete => int32 (attCnt - 1)
  | .out => int32 (attCnt - 1)
  | .deleteFinalize => 0
  | .outFinalize => 0
  | .pull => attCnt
  | .other => attCnt

namespace State
variable {flag : CopyinFlag}

lemma copyin_bad (bad : ddr = 0 ∨ size = 0) : s.copyin ddr size flag env = (s, false) := by
  rw [copyin, if_pos bad]

/-- A request for a record counts itself and does its task at once. -/
def serve (s : State) (args : Args CopyinFlag) (env : Env) : State × Bool :=
  if (s.attachTo args).2 = true then (s.attachTo args).1.copyinTask args env else ((s.attachTo args).1, false)

lemma copyin_found (good : ¬ (ddr = 0 ∨ size = 0)) (found : s.query ddr = some (mem, offset))
    (used : (s.mem mem).attCnt ≠ 0) : s.copyin ddr size flag env =
      s.serve ⟨mem, ddr, offset, size, flag⟩ env := by
  have attached : (s.attach ⟨0, ddr, 0, size, flag⟩ env.room).getD (s.remap ⟨0, ddr, 0, size, flag⟩ env.room) =
      ((s.attachTo ⟨mem, ddr, offset, size, flag⟩).1, ⟨mem, ddr, offset, size, flag⟩,
        (s.attachTo ⟨mem, ddr, offset, size, flag⟩).2) := by
    unfold attach
    rw [found]
    dsimp only
    rw [if_neg used]
    rfl
  rw [copyin, if_neg good]
  dsimp only
  rw [attached]
  rfl

lemma copyin_new (good : ¬ (ddr = 0 ∨ size = 0))
    (unused : ∀ mem offset, s.query ddr = some (mem, offset) → (s.mem mem).attCnt = 0) :
    s.copyin ddr size flag env =
      if env.room = true then (s.map ddr size).serve ⟨s.made, ddr, 0, size, flag⟩ env else (s, false) := by
  have attached : (s.attach ⟨0, ddr, 0, size, flag⟩ env.room).getD (s.remap ⟨0, ddr, 0, size, flag⟩ env.room) =
      s.remap ⟨0, ddr, 0, size, flag⟩ env.room := by
    unfold attach
    cases found : s.query ddr with
    | none => rfl
    | some p =>
      dsimp only
      rw [if_pos (unused p.1 p.2 found)]
      rfl
  rw [copyin, if_neg good]
  dsimp only
  rw [attached, remap]
  cases env.room with
  | false | true => rfl

lemma copyout_found {flag : CopyoutFlag} (pos : ddr ≠ 0) (found : s.query ddr = some (mem, offset))
    (ne : flag ≠ .other) : s.copyout ddr size flag env =
      (s.setMem mem { s.mem mem with attCnt := flag.count (s.mem mem).attCnt }).copyoutTask
        ⟨mem, ddr, offset, size, flag⟩ env := by
  rw [copyout, if_neg pos, detach]
  rw [found]
  cases flag with
  | other => exact absurd rfl ne
  | delete | out | deleteFinalize | outFinalize => rfl
  | pull =>
    have same : s.setMem mem { s.mem mem with attCnt := CopyoutFlag.pull.count (s.mem mem).attCnt } = s := by
      rw [CopyoutFlag.count, setMem, Function.update_eq_self]
    rw [same]
    rfl

lemma copyout_none {flag : CopyoutFlag} (none : ddr = 0 ∨ s.query ddr = none ∨ flag = .other) :
    s.copyout ddr size flag env = (s, false) := by
  rw [copyout]
  split
  · rfl
  rename_i pos
  rw [detach]
  cases found : s.query ddr with
  | none => rfl
  | some p =>
    obtain null | absent | rfl := none
    · exact absurd null pos
    · cases found.symm.trans absent
    · rfl

end State

namespace Inv

lemma serve (I : Inv s) {args : Args CopyinFlag} (known : args.mem < s.made) : Inv (s.serve args env).1 := by
  rw [State.serve]
  split
  · exact I.attachTo.copyinTask (known.trans_eq State.made_attachTo.symm)
  · exact I.attachTo

lemma copyin (I : Inv s) {flag : CopyinFlag} : Inv (s.copyin ddr size flag env).1 := by
  by_cases bad : ddr = 0 ∨ size = 0
  · rw [State.copyin_bad bad]
    exact I
  by_cases used : ∃ mem offset, s.query ddr = some (mem, offset) ∧ (s.mem mem).attCnt ≠ 0
  · obtain ⟨mem, offset, found, used⟩ := used
    have known : mem < s.made := I.query_known found
    rw [State.copyin_found bad found used]
    apply I.serve
    exact known
  · rw [State.copyin_new bad fun mem offset found => by_contra fun ne => used ⟨mem, offset, found, ne⟩]
    split
    · apply Inv.serve
      · exact I.mapped (by omega) (by omega)
      · exact Nat.lt_succ_self _
    · exact I

lemma copyout (I : Inv s) {flag : CopyoutFlag} : Inv (s.copyout ddr size flag env).1 := by
  by_cases pos : ddr = 0
  · rw [State.copyout_none (.inl pos)]
    exact I
  by_cases other : flag = .other
  · rw [State.copyout_none (.inr (.inr other))]
    exact I
  cases found : s.query ddr with
  | none =>
    rw [State.copyout_none (.inr (.inl found))]
    exact I
  | some p =>
    obtain ⟨mem, offset⟩ := p
    have known : mem < s.made := I.query_known found
    rw [State.copyout_found pos found other]
    apply Inv.copyoutTask
    · exact I.counted rfl rfl rfl
    · exact known

lemma call (I : Inv s) (a : Call) : Inv (s.call a) := by
  cases a with
  | copyin ddr size flag env => exact I.quiet.copyin
  | copyout ddr size flag env => exact I.quiet.copyout

lemma init (h : s.Init) : Inv s := by
  have none {k mem} : s.rangeMap.lookup k ≠ some mem := by
    rw [h.rangeMap]
    nofun
  refine ⟨h.addrMap.trans h.rangeMap.symm, fun here => absurd here none, fun here => absurd here none,
    fun _ => h.deleted _, fun {mem b} lt => ?_, fun {a a' b b'} lt => ?_, fun id lt => ?_, fun _ => h.freed _⟩
  · rw [h.made] at lt
    cases lt
  · rw [h.made] at lt
    cases lt
  · rw [h.hbwMade] at lt
    cases lt

end Inv

lemma inv_of_reachable (h : syncMachine.Reachable s) : Inv s := by
  apply h.inv
  · exact fun _ => .init
  · intro s a s' I _ step
    cases step
    exact I.call a

end Kupl.Mem
