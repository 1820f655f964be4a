import Kupl.Mem.Records

/-!
# The counts of the mappings (`kupl_mem.cpp`)

On synchronous queues the two counts of a mapping agree as long as every request that counts itself gets its memory,
nobody gives a count back that he does not have, and no mapping without a count is replaced while it has memory.
-/

namespace Kupl.Mem

namespace State
variable (s : State)

/-- A piece of high-bandwidth memory belongs to a mapping. -/
def Owns (mem id : Nat) : Prop :=
  (∃ k, s.rangeMap.lookup k = some mem) ∧ ∃ b, (s.mem mem).baseHbw = some b ∧ b.id = id

/-- The counts of every mapping agree and say whether it is present, and every piece of memory belongs to exactly one
mapping or was freed exactly once. -/
structure Balanced : Prop where
  counts : ∀ k mem, s.rangeMap.lookup k = some mem → (s.mem mem).attCnt = (s.mem mem).refCnt ∧
    0 ≤ (s.mem mem).attCnt
  present : ∀ k mem, s.rangeMap.lookup k = some mem → (s.isPresent k = true ↔ 0 < (s.mem mem).attCnt)
  pieces : ∀ id < s.hbwMade, (s.freed id = 0 ∧ ∃! mem, s.Owns mem id) ∨
    (s.freed id = 1 ∧ ∀ mem, ¬ s.Owns mem id)

/-- A call that keeps the counts together: it replaces no mapping without a count that has memory, gets memory when
it counts itself on a new mapping, does not count past the last value of an `int`, and gives no count back where
there is none. -/
def Steady : Call → Prop
  | .copyin ddr size flag env => ddr ≠ 0 → size ≠ 0 →
    (env.room = true → ∀ mem, s.addrMap.lookup ddr = some mem → (s.mem mem).attCnt = 0 →
      (s.mem mem).baseHbw = none) ∧
    (flag = .create ∨ flag = .copyIn →
      (∀ mem offset, s.query ddr = some (mem, offset) → (s.mem mem).attCnt ≠ 2 ^ 31 - 1) ∧
      ((∀ mem offset, s.query ddr = some (mem, offset) → (s.mem mem).attCnt = 0) → env.room = true →
        env.hbw ≠ none))
  | .copyout ddr _ flag _ => ddr ≠ 0 → flag = .delete ∨ flag = .out →
      ∀ mem offset, s.query ddr = some (mem, offset) →
    (s.mem mem).attCnt ≠ 0

end State

/-- The counts of a record agree, and a record that is counted has memory. -/
structure KuplMem.Ok (m : KuplMem) : Prop where
  same : m.attCnt = m.refCnt
  low : 0 ≤ m.attCnt
  high : m.attCnt < 2 ^ 31
  has : 0 < m.attCnt → m.baseHbw ≠ none

/-- Every mapping but one has its counts right, and every piece of memory is in a mapping. -/
structure Almost (s : State) (x : Nat) : Prop where
  inv : Inv s
  counts : ∀ {k mem}, s.rangeMap.lookup k = some mem → mem ≠ x → (s.mem mem).Ok
  kept : ∀ {mem}, mem < s.made → (s.mem mem).baseHbw ≠ none → ∃ k, s.rangeMap.lookup k = some mem

/-- Every mapping has its counts right, and every piece of memory is in a mapping. -/
structure Sound (s : State) : Prop where
  inv : Inv s
  counts : ∀ {k mem}, s.rangeMap.lookup k = some mem → (s.mem mem).Ok
  kept : ∀ {mem}, mem < s.made → (s.mem mem).baseHbw ≠ none → ∃ k, s.rangeMap.lookup k = some mem

variable {s s' : State} {mem x ddr size offset k : Nat} {m : KuplMem} {env : Env}

lemma Sound.almost (S : Sound s) : Almost s x := ⟨S.inv, fun here _ => S.counts here, S.kept⟩

namespace Almost

lemma sound (A : Almost s x) (ok : ∀ {k}, s.rangeMap.lookup k = some x → (s.mem x).Ok) : Sound s := by
  refine ⟨A.inv, fun {k mem} here => ?_, A.kept⟩
  by_cases same : mem = x
  · subst same
    exact ok here
  · exact A.counts here same

lemma counted (A : Almost s x) (ddr : m.baseDdr = (s.mem x).baseDdr) (hbw : m.baseHbw = (s.mem x).baseHbw)
    (size : m.size = (s.mem x).size) : Almost (s.setMem x m) x := by
  refine ⟨A.inv.counted ddr hbw size, fun here ne => ?_, fun {mem} lt has => ?_⟩
  · rw [State.mem_of_ne ne]
    exact A.counts here ne
  · rw [State.mem_setMem (f := (·.baseHbw)) hbw] at has
    exact A.kept lt has

lemma alloc (A : Almost s x) (here : s.rangeMap.lookup k = some x) (h : s.alloc x env = some s') : Almost s' x := by
  have J := A.inv.alloc (A.inv.base here).2.1 h
  rw [State.alloc] at h
  split at h
  · cases h
    exact A
  · cases isHbw : env.hbw with
    | none =>
      rw [isHbw] at h
      cases h
    | some addr =>
      rw [isHbw] at h
      cases h
      refine ⟨J, fun here ne => ?_, fun {mem} lt has => ?_⟩
      · have same := A.counts here ne
        rw [← State.mem_of_ne ne] at same
        exact same
      · by_cases same : mem = x
        · subst same
          exact ⟨k, here⟩
        · exact A.kept lt fun none => has ((congrArg KuplMem.baseHbw (State.mem_of_ne same)).trans none)

lemma copy (A : Almost s x) : Almost (s.copy mem offset size) x := ⟨A.inv.copy, A.counts, A.kept⟩

end Almost

lemma State.free_mem : ((s.free x).mem x).attCnt = (s.mem x).attCnt ∧
    ((s.free x).mem x).baseDdr = (s.mem x).baseDdr ∧
    ((s.free x).mem x).baseHbw = none ∧ (s.free x).rangeMap = s.rangeMap ∧
    ∀ mem, mem ≠ x → (s.free x).mem mem = s.mem mem := by
  rw [State.free]
  split
  · rename_i none
    exact ⟨rfl, rfl, none, rfl, fun _ _ => rfl⟩
  · have self {m : KuplMem} : (s.setMem x m).mem x = m := State.mem_self
    rw [self]
    exact ⟨rfl, rfl, rfl, rfl, fun _ ne => State.mem_of_ne ne⟩

namespace Almost

lemma dealloc (A : Almost s x) (here : s.rangeMap.lookup k = some x) (zero : (s.mem x).attCnt = 0) :
    Sound (s.dealloc x) := by
  obtain ⟨att, base, none, maps, others⟩ := @State.free_mem s x
  have known := (A.inv.base here).2.1
  have J : Inv (s.dealloc x) := A.inv.dealloc known
  rw [State.dealloc, if_pos (att.trans zero)] at J ⊢
  have isK : (s.mem x).baseDdr = k := (A.inv.base here).1
  have kept {k' mem} : ((s.free x).unmap x).rangeMap.lookup k' = some mem ↔
      k' ≠ k ∧ s.rangeMap.lookup k' = some mem := by
    show ((s.free x).rangeMap.erase ((s.free x).mem x).baseDdr).lookup k' = some mem ↔ _
    rw [maps, base, isK]
    by_cases same : k' = k
    · subst same
      rw [Finmap.lookup_erase]
      exact ⟨(by rintro ⟨⟩), fun h => absurd rfl h.1⟩
    · rw [Finmap.lookup_erase_ne same]
      exact ⟨fun h => ⟨same, h⟩, fun h => h.2⟩
  have stranger {k' mem} (ne : k' ≠ k) (h : s.rangeMap.lookup k' = some mem) : mem ≠ x := by
    rintro rfl
    exact ne ((A.inv.base h).1.symm.trans isK)
  refine ⟨J, fun {k' mem} h => ?_, fun {mem} lt has => ?_⟩
  · obtain ⟨ne, h⟩ := kept.1 h
    show ((s.free x).mem mem).Ok
    rw [others mem (stranger ne h)]
    exact A.counts h (stranger ne h)
  · have has : ((s.free x).mem mem).baseHbw ≠ .none := has
    have lt : mem < (s.free x).made := lt
    rw [State.made_free] at lt
    have ne : mem ≠ x := by
      rintro rfl
      exact has none
    rw [others mem ne] at has
    obtain ⟨k', h⟩ := A.kept lt has
    refine ⟨k', kept.2 ⟨?_, h⟩⟩
    rintro rfl
    exact ne (Option.some.inj (h.symm.trans here))

end Almost

namespace Sound

lemma mapped (S : Sound s) (pos : 0 < ddr) (some : 0 < size)
    (bare : ∀ mem, s.rangeMap.lookup ddr = .some mem → (s.mem mem).baseHbw = none) : Sound (s.map ddr size) := by
  have self : (s.map ddr size).mem s.made = ⟨ddr, none, size, false, 0, 0⟩ := Function.update_self ..
  have old {mem} (lt : mem < s.made) : (s.map ddr size).mem mem = s.mem mem :=
    Function.update_of_ne (Nat.ne_of_lt lt) ..
  refine ⟨S.inv.mapped pos some, fun {k mem} here => ?_, fun {mem} lt has => ?_⟩
  · have here : (s.rangeMap.insert ddr s.made).lookup k = .some mem := here
    by_cases isK : k = ddr
    · subst isK
      rw [Finmap.lookup_insert] at here
      cases here
      rw [self]
      exact ⟨rfl, le_rfl, show (0 : Int) < 2 ^ 31 by decide, fun h => absurd h (lt_irrefl _)⟩
    · rw [Finmap.lookup_insert_of_ne _ isK] at here
      rw [old (S.inv.base here).2.1]
      exact S.counts here
  · obtain lt | rfl := Nat.lt_succ_iff_lt_or_eq.1 lt
    · rw [old lt] at has
      obtain ⟨k, here⟩ := S.kept lt has
      refine ⟨k, (Finmap.lookup_insert_of_ne _ ?_).trans here⟩
      rintro rfl
      exact has (bare mem here)
    · rw [self] at has
      exact absurd rfl has

lemma isPresent_iff (S : Sound s) (here : s.rangeMap.lookup k = some mem) :
    s.isPresent k = true ↔ 0 < (s.mem mem).attCnt := by
  have pos := (S.inv.range here).1
  rw [← S.inv.same] at here
  rw [State.isPresent, if_neg (Nat.ne_of_gt pos), State.query, here]
  exact decide_eq_true_iff

lemma balanced (S : Sound s) : s.Balanced := by
  refine ⟨fun k mem here => ⟨(S.counts here).same, (S.counts here).low⟩, fun k mem =>
    S.isPresent_iff, fun id lt => ?_⟩
  obtain ⟨zero, mem, lt', b, has, isId⟩ | one := S.inv.pieces id lt
  · refine .inl ⟨zero, mem, ⟨S.kept lt' (by rw [has]; nofun), b, has, isId⟩, ?_⟩
    rintro mem' ⟨⟨k', here'⟩, b', has', isId'⟩
    exact S.inv.once (S.inv.base here').2.1 lt' has' has (isId'.trans isId.symm)
  · refine .inr ⟨one, ?_⟩
    rintro mem' ⟨⟨k', here'⟩, b', has', rfl⟩
    have zero := (S.inv.owned (S.inv.base here').2.1 has').2
    omega

lemma copy (S : Sound s) : Sound (s.copy mem offset size) := ⟨S.inv.copy, S.counts, S.kept⟩

end Sound

namespace State

lemma copyinTask_frame {args : Args CopyinFlag} : (s.copyinTask args env).1.rangeMap = s.rangeMap ∧
    (s.copyinTask args env).1.freed = s.freed ∧ s.hbwMade ≤ (s.copyinTask args env).1.hbwMade ∧
    (s.copyinTask args env).1.made = s.made ∧ ((s.copyinTask args env).1.mem args.mem).attCnt =
    (s.mem args.mem).attCnt ∧
    ∀ mem, mem ≠ args.mem → (s.copyinTask args env).1.mem mem = s.mem mem := by
  rw [copyinTask]
  cases got : s.alloc args.mem env with
  | none => exact ⟨rfl, rfl, le_rfl, rfl, rfl, fun _ _ => rfl⟩
  | some s' =>
    obtain ⟨-, -, made, -, maps, freed, att, -⟩ := alloc_mem got
    have others : s.hbwMade ≤ s'.hbwMade ∧ ∀ mem, mem ≠ args.mem → s'.mem mem = s.mem mem := by
      rw [alloc] at got
      split at got
      · cases got
        exact ⟨le_rfl, fun _ _ => rfl⟩
      · cases isHbw : env.hbw with
        | none =>
          rw [isHbw] at got
          cases got
        | some addr =>
          rw [isHbw] at got
          cases got
          exact ⟨Nat.le_succ _, fun _ ne => mem_of_ne ne⟩
    have counted (c : Int) : ((s'.setMem args.mem { s'.mem args.mem with refCnt := c }).mem args.mem).attCnt =
        (s.mem args.mem).attCnt := by
      rw [mem_self]
      exact att
    cases args.flag with
    | create => exact ⟨maps, freed, others.1, made, counted _, fun mem ne => (mem_of_ne ne).trans (others.2 mem ne)⟩
    | copyIn =>
      dsimp only
      split
      · exact ⟨maps, freed, others.1, made, counted _, fun mem ne => (mem_of_ne ne).trans (others.2 mem ne)⟩
      · exact ⟨maps, freed, others.1, made, counted _, fun mem ne => (mem_of_ne ne).trans (others.2 mem ne)⟩
    | push | other => exact ⟨maps, freed, others.1, made, att, others.2⟩

lemma serve_frame {args : Args CopyinFlag} : (s.serve args env).1.rangeMap = s.rangeMap ∧
    (s.serve args env).1.freed = s.freed ∧ s.hbwMade ≤ (s.serve args env).1.hbwMade ∧
    (s.serve args env).1.made = s.made ∧ ∀ mem, mem ≠ args.mem → (s.serve args env).1.mem mem = s.mem mem := by
  have attach : (s.attachTo args).1.rangeMap = s.rangeMap ∧ (s.attachTo args).1.freed = s.freed ∧
      (s.attachTo args).1.hbwMade = s.hbwMade ∧ ∀ mem, mem ≠ args.mem →
      (s.attachTo args).1.mem mem = s.mem mem := by
    rw [attachTo]
    cases args.flag with
    | create | copyIn => exact ⟨rfl, rfl, rfl, fun _ ne => mem_of_ne ne⟩
    | push | other => exact ⟨rfl, rfl, rfl, fun _ _ => rfl⟩
  obtain ⟨maps, freed, hbw, others⟩ := attach
  rw [serve]
  split
  · obtain ⟨maps', freed', hbw', made', -, others'⟩ := @copyinTask_frame (s.attachTo args).1 env args
    exact ⟨maps'.trans maps, freed'.trans freed, hbw.symm.trans_le hbw', made'.trans made_attachTo,
      fun mem ne => (others' mem ne).trans (others mem ne)⟩
  · exact ⟨maps, freed, hbw.ge, made_attachTo, others⟩

end State

variable {flag : CopyinFlag}

lemma counted_sound (A : Almost s x) (here : s.rangeMap.lookup k = some x) (got : s.alloc x env = some s')
    (counts : flag = .create ∨ flag = .copyIn) (att : (s.mem x).attCnt = (s'.mem x).refCnt + 1)
    (low : 0 < (s.mem x).attCnt) (high : (s.mem x).attCnt < 2 ^ 31) :
    Sound (s.copyinTask ⟨x, ddr, offset, size, flag⟩ env).1 := by
  obtain ⟨has, -, -, -, -, -, same, -⟩ := State.alloc_mem got
  have S : Sound (s'.setMem x { s'.mem x with refCnt := int32 ((s'.mem x).refCnt + 1) }) := by
    apply Almost.sound
    · apply Almost.counted (A.alloc here got) <;> rfl
    · intro k _
      rw [State.mem_self]
      refine ⟨?_, ?_, ?_, fun _ => has⟩
      · show (s'.mem x).attCnt = int32 ((s'.mem x).refCnt + 1)
        rw [same, ← att, int32_eq (by omega) high]
      · exact (le_of_lt low).trans_eq same.symm
      · exact same.trans_lt high
  rw [State.copyinTask, got]
  obtain rfl | rfl := counts
  · exact S
  · dsimp only
    split
    · exact S.copy
    · exact S

lemma Sound.copyin (S : Sound s) (steady : s.Steady (.copyin ddr size flag env)) :
    Sound (s.copyin ddr size flag env).1 := by
  by_cases bad : ddr = 0 ∨ size = 0
  · rw [State.copyin_bad bad]
    exact S
  have pos : 0 < ddr ∧ 0 < size := by omega
  obtain ⟨bare, may⟩ := steady (Nat.ne_of_gt pos.1) (Nat.ne_of_gt pos.2)
  by_cases used : ∃ mem offset, s.query ddr = some (mem, offset) ∧ (s.mem mem).attCnt ≠ 0
  · obtain ⟨mem, offset, found, used⟩ := used
    obtain ⟨k, here, -⟩ := S.inv.query found
    have ok := S.counts here
    have low := ok.low
    have has := ok.has (by omega)
    rw [State.copyin_found bad found used]
    have counts (isCount : flag = .create ∨ flag = .copyIn) :
        Sound ((s.setMem mem { s.mem mem with attCnt := int32 ((s.mem mem).attCnt + 1) }).copyinTask
          ⟨mem, ddr, offset, size, flag⟩ env).1 := by
      have high := ok.high
      have below := (may isCount).1 mem offset found
      have next : int32 ((s.mem mem).attCnt + 1) = (s.mem mem).attCnt + 1 := int32_eq (by omega) (by omega)
      obtain ⟨u, isU⟩ : ∃ u, u = s.setMem mem { s.mem mem with attCnt := int32 ((s.mem mem).attCnt + 1) } :=
        ⟨_, rfl⟩
      have isMem : u.mem mem = { s.mem mem with attCnt := (s.mem mem).attCnt + 1 } := by
        rw [isU, State.mem_self, next]
      have A : Almost u mem := by
        rw [isU]
        apply Almost.counted S.almost <;> rfl
      have here : u.rangeMap.lookup k = some mem := by
        rw [isU]
        exact here
      have got : u.alloc mem env = some u := by
        rw [State.alloc, if_pos]
        rw [isMem]
        exact has
      rw [← isU]
      apply counted_sound A here got isCount
      · rw [isMem]
        show (s.mem mem).attCnt + 1 = (s.mem mem).refCnt + 1
        rw [ok.same]
      · rw [isMem]
        show 0 < (s.mem mem).attCnt + 1
        omega
      · rw [isMem]
        show (s.mem mem).attCnt + 1 < 2 ^ 31
        omega
    cases flag with
    | create => exact counts (.inl rfl)
    | copyIn => exact counts (.inr rfl)
    | push =>
      have alloc : s.alloc mem env = some s := if_pos has
      show Sound (s.copyinTask ⟨mem, ddr, offset, size, .push⟩ env).1
      rw [State.copyinTask, alloc]
      exact S.copy
    | other => exact S
  · have unused (mem offset) (found : s.query ddr = some (mem, offset)) : (s.mem mem).attCnt = 0 :=
      by_contra fun ne => used ⟨mem, offset, found, ne⟩
    rw [State.copyin_new bad unused]
    cases isRoom : env.room with
    | false => exact S
    | true =>
      obtain ⟨t, isT⟩ : ∃ t, t = s.map ddr size := ⟨_, rfl⟩
      have T : Sound t := by
        rw [isT]
        apply S.mapped pos.1 pos.2
        intro mem here
        rw [← S.inv.same] at here
        apply bare isRoom mem here
        exact unused mem 0 (by rw [State.query, here])
      have here : t.rangeMap.lookup ddr = some s.made := by
        rw [isT]
        exact Finmap.lookup_insert _
      have self : t.mem s.made = ⟨ddr, none, size, false, 0, 0⟩ := by
        rw [isT]
        exact Function.update_self ..
      have one : int32 (0 + 1) = 1 := by decide
      have counts (isCount : flag = .create ∨ flag = .copyIn) :
          Sound ((t.setMem s.made { t.mem s.made with attCnt := int32 ((t.mem s.made).attCnt + 1) }).copyinTask
            ⟨s.made, ddr, 0, size, flag⟩ env).1 := by
        obtain ⟨addr, isAddr⟩ := Option.ne_none_iff_exists'.1 ((may isCount).2 unused isRoom)
        obtain ⟨u, isU⟩ : ∃ u, u = t.setMem s.made
          { t.mem s.made with attCnt := int32 ((t.mem s.made).attCnt + 1) } :=
          ⟨_, rfl⟩
        have isMem : u.mem s.made = ⟨ddr, none, size, false, 0, 1⟩ := by
          rw [isU, State.mem_self, self, one]
        have A : Almost u s.made := by
          rw [isU]
          apply Almost.counted T.almost <;> rfl
        have here : u.rangeMap.lookup ddr = some s.made := by
          rw [isU]
          exact here
        rw [← isU]
        cases got : u.alloc s.made env with
        | none =>
          have none := (State.alloc_none got).2
          rw [isAddr] at none
          cases none
        | some v =>
          obtain ⟨-, -, -, -, -, -, -, ⟨has, -⟩ | ⟨-, -, zero⟩⟩ := State.alloc_mem got
          · rw [isMem] at has
            exact absurd rfl has
          · apply counted_sound A here got isCount
            · rw [isMem, zero]
              rfl
            · rw [isMem]
              exact Int.one_pos
            · rw [isMem]
              show (1 : Int) < 2 ^ 31
              decide
      rw [isT] at T counts
      cases flag with
      | create => exact counts (.inl rfl)
      | copyIn => exact counts (.inr rfl)
      | other => exact T
      | push =>
        show Sound ((s.map ddr size).copyinTask ⟨s.made, ddr, 0, size, .push⟩ env).1
        rw [← isT] at T ⊢
        rw [State.copyinTask]
        cases got : t.alloc s.made env with
        | none => exact T
        | some v =>
          obtain ⟨-, -, -, -, -, -, att, ⟨has, -⟩ | ⟨-, -, zero⟩⟩ := State.alloc_mem got
          · rw [self] at has
            exact absurd rfl has
          · apply Sound.copy
            apply (T.almost.alloc here got).sound
            intro k _
            have none : (v.mem s.made).attCnt = 0 := by
              rw [att, self]
            refine ⟨none.trans zero.symm, none.ge, ?_, fun h => ?_⟩
            · rw [none]
              decide
            · rw [none] at h
              exact absurd h (lt_irrefl _)

lemma lost (S : Sound s) (here : s.rangeMap.lookup ddr = some mem) (has : (s.mem mem).baseHbw ≠ none) (pos : 0 < ddr)
    (some : 0 < size) : ¬ ((s.map ddr size).serve ⟨s.made, ddr, 0, size, flag⟩ env).1.Balanced := by
  intro B
  obtain ⟨b, isB⟩ := Option.ne_none_iff_exists'.1 has
  obtain ⟨isDdr, known, -⟩ := S.inv.base here
  have live := S.inv.owned known isB
  obtain ⟨maps, freed, hbw, made, others⟩ := @State.serve_frame (s.map ddr size) env
    ⟨s.made, ddr, 0, size, flag⟩
  have J : Inv ((s.map ddr size).serve ⟨s.made, ddr, 0, size, flag⟩ env).1 :=
    (S.inv.mapped pos some).serve (Nat.lt_succ_self _)
  obtain ⟨t, isT⟩ : ∃ t, t = ((s.map ddr size).serve ⟨s.made, ddr, 0, size, flag⟩ env).1 := ⟨_, rfl⟩
  rw [← isT] at B maps freed hbw made others J
  have made : t.made = s.made + 1 := made
  have old : t.mem mem = s.mem mem :=
    (others mem (Nat.ne_of_lt known)).trans (Function.update_of_ne (Nat.ne_of_lt known) ..)
  have lookup (k : Nat) : t.rangeMap.lookup k = (s.rangeMap.insert ddr s.made).lookup k := by
    rw [maps]
    rfl
  obtain ⟨-, mem', ⟨⟨k, here'⟩, b', has', isId⟩, -⟩ | ⟨one, -⟩ :=
    B.pieces b.id (lt_of_lt_of_le live.1 hbw)
  · obtain ⟨isK, known', -⟩ := J.base here'
    rw [← old] at isB
    have same : mem' = mem := J.once known' (by omega) has' isB isId
    -- the new record has taken the address of the old one
    rw [same, old, isDdr] at isK
    rw [lookup, ← isK, Finmap.lookup_insert] at here'
    have isMade := Option.some.inj here'
    omega
  · rw [freed] at one
    have zero : (s.map ddr size).freed b.id = 0 := live.2
    omega

lemma copyin_steady (S : Sound s) (B : (s.copyin ddr size flag env).1.Balanced) :
    s.Steady (.copyin ddr size flag env) := by
  intro pos some
  have good : ¬ (ddr = 0 ∨ size = 0) := not_or.2 ⟨pos, some⟩
  refine ⟨fun isRoom mem here zero => ?_, fun isCount =>
    ⟨fun mem offset found last => ?_, fun unused isRoom refused => ?_⟩⟩
  · by_contra has
    have found : s.query ddr = .some (mem, 0) := by
      unfold State.query
      rw [here]
    have unused (mem' offset) (found' : s.query ddr = .some (mem', offset)) : (s.mem mem').attCnt = 0 := by
      cases found.symm.trans found'
      exact zero
    rw [S.inv.same] at here
    rw [State.copyin_new good unused, if_pos isRoom] at B
    exact lost S here has (Nat.pos_of_ne_zero pos) (Nat.pos_of_ne_zero some) B
  · obtain ⟨k, here, -⟩ := S.inv.query found
    have used : (s.mem mem).attCnt ≠ 0 := by omega
    rw [State.copyin_found good found used] at B
    obtain ⟨maps, -⟩ := @State.serve_frame s env ⟨mem, ddr, offset, size, flag⟩
    have low := (B.counts k mem (by rw [maps]; exact here)).2
    -- the count has become the least `int`
    have att : ((s.serve ⟨mem, ddr, offset, size, flag⟩ env).1.mem mem).attCnt = -2 ^ 31 := by
      have counted : s.serve ⟨mem, ddr, offset, size, flag⟩ env =
          (s.setMem mem { s.mem mem with attCnt := int32 ((s.mem mem).attCnt + 1) }).copyinTask
            ⟨mem, ddr, offset, size, flag⟩ env := by
        obtain rfl | rfl := isCount <;> rfl
      rw [counted]
      obtain ⟨-, -, -, -, att, -⟩ := @State.copyinTask_frame
        (s.setMem mem { s.mem mem with attCnt := int32 ((s.mem mem).attCnt + 1) }) env
          ⟨mem, ddr, offset, size, flag⟩
      rw [att, State.mem_self, last]
      exact int32_max
    rw [att] at low
    exact absurd low (by decide)
  · rw [State.copyin_new good unused, if_pos isRoom] at B
    obtain ⟨t, isT⟩ : ∃ t, t = (s.map ddr size).setMem s.made
      { (s.map ddr size).mem s.made with attCnt := int32 (((s.map ddr size).mem s.made).attCnt + 1) } := ⟨_, rfl⟩
    have self : (s.map ddr size).mem s.made = ⟨ddr, none, size, false, 0, 0⟩ := Function.update_self ..
    have isMem : t.mem s.made = ⟨ddr, none, size, false, 0, 1⟩ := by
      rw [isT, State.mem_self, self]
      rfl
    have counted : (s.map ddr size).serve ⟨s.made, ddr, 0, size, flag⟩ env = (t, false) := by
      have served : (s.map ddr size).serve ⟨s.made, ddr, 0, size, flag⟩ env =
          t.copyinTask ⟨s.made, ddr, 0, size, flag⟩ env := by
        rw [isT]
        obtain rfl | rfl := isCount <;> rfl
      have none : t.alloc s.made env = none := by
        rw [State.alloc, if_neg (by rw [isMem]; exact fun h => h rfl), refused]
      rw [served, State.copyinTask, none]
    rw [counted] at B
    have here : t.rangeMap.lookup ddr = .some s.made := by
      rw [isT]
      exact Finmap.lookup_insert _
    have same := (B.counts ddr s.made here).1
    rw [isMem] at same
    cases same

section Copyout
variable {flag : CopyoutFlag}

lemma State.copyoutTask_none {args : Args CopyoutFlag} (none : (s.mem args.mem).baseHbw = none) :
    s.copyoutTask args env = (s, false) := by
  rw [copyoutTask]
  rw [if_pos none]

lemma given_sound (A : Almost s x) (here : s.rangeMap.lookup k = some x) (has : (s.mem x).baseHbw ≠ none)
    (counts : flag = .delete ∨ flag = .out) (att : (s.mem x).attCnt = (s.mem x).refCnt - 1)
    (low : 0 ≤ (s.mem x).attCnt)
    (high : (s.mem x).attCnt < 2 ^ 31) : Sound (s.copyoutTask ⟨x, ddr, offset, size, flag⟩ env).1 := by
  obtain ⟨m, isM⟩ : ∃ m, m = { s.mem x with refCnt := int32 ((s.mem x).refCnt - 1) } := ⟨_, rfl⟩
  have B : Almost (s.setMem x m) x := by
    rw [isM]
    apply A.counted <;> rfl
  have self : (s.setMem x m).mem x = m := State.mem_self
  have next : int32 ((s.mem x).refCnt - 1) = (s.mem x).attCnt := by
    rw [← att]
    exact int32_eq (by omega) high
  have more (ne : (s.mem x).refCnt ≠ 1) : Sound (s.setMem x m) := by
    apply B.sound
    intro _ _
    rw [self, isM]
    exact ⟨next.symm, low, high, fun _ => has⟩
  have last (one : (s.mem x).refCnt = 1) : ((s.setMem x m).mem x).attCnt = 0 := by
    rw [self, isM]
    show (s.mem x).attCnt = 0
    omega
  rw [State.copyoutTask]
  rw [if_neg has, ← isM]
  obtain rfl | rfl := counts
  · dsimp only
    split
    · rename_i one
      exact B.dealloc here (last one)
    · rename_i ne
      exact more ne
  · dsimp only
    split
    · rename_i one
      exact B.copy.dealloc here (last one)
    · rename_i ne
      exact more ne

lemma Sound.copyout (S : Sound s) (steady : s.Steady (.copyout ddr size flag env)) :
    Sound (s.copyout ddr size flag env).1 := by
  by_cases pos : ddr = 0
  · rw [State.copyout_none (.inl pos)]
    exact S
  by_cases other : flag = .other
  · rw [State.copyout_none (.inr (.inr other))]
    exact S
  cases found : s.query ddr with
  | none =>
    rw [State.copyout_none (.inr (.inl found))]
    exact S
  | some p =>
    obtain ⟨mem, offset⟩ := p
    obtain ⟨k, here, -⟩ := S.inv.query found
    have ok := S.counts here
    obtain ⟨u, isU⟩ : ∃ u, u = s.setMem mem { s.mem mem with attCnt := flag.count (s.mem mem).attCnt } :=
      ⟨_, rfl⟩
    have isMem : u.mem mem = { s.mem mem with attCnt := flag.count (s.mem mem).attCnt } := by
      rw [isU, State.mem_self]
    have A : Almost u mem := by
      rw [isU]
      apply Almost.counted S.almost <;> rfl
    have here : u.rangeMap.lookup k = some mem := by
      rw [isU]
      exact here
    have low := ok.low
    have high := ok.high
    rw [State.copyout_found pos found other, ← isU]
    have given (isCount : flag = .delete ∨ flag = .out) :
      Sound (u.copyoutTask ⟨mem, ddr, offset, size, flag⟩ env).1 := by
      have used := steady pos isCount mem offset found
      have next : flag.count (s.mem mem).attCnt = (s.mem mem).attCnt - 1 := by
        obtain rfl | rfl := isCount <;> exact int32_eq (by omega) (by omega)
      rw [next] at isMem
      apply given_sound A here _ isCount
      · rw [isMem]
        show (s.mem mem).attCnt - 1 = (s.mem mem).refCnt - 1
        rw [ok.same]
      · rw [isMem]
        show 0 ≤ (s.mem mem).attCnt - 1
        omega
      · rw [isMem]
        show (s.mem mem).attCnt - 1 < 2 ^ 31
        omega
      · rw [isMem]
        exact ok.has (by omega)
    -- a request that takes the mapping away, whatever its count is
    have final (zero : flag.count (s.mem mem).attCnt = 0) (none : (u.mem mem).baseHbw = none) : Sound u := by
      apply A.sound
      intro _ _
      rw [isMem] at none ⊢
      have uncounted : ¬ 0 < (s.mem mem).attCnt := fun h => ok.has h none
      rw [zero]
      refine ⟨?_, le_rfl, show (0 : Int) < 2 ^ 31 by decide, fun h => absurd h (lt_irrefl _)⟩
      show (0 : Int) = (s.mem mem).refCnt
      have := ok.same
      omega
    have counted (c : Int) : Almost (u.setMem mem { u.mem mem with refCnt := c }) mem := by
      apply A.counted <;> rfl
    have isZero (c : Int) (zero : flag.count (s.mem mem).attCnt = 0) :
        ((u.setMem mem { u.mem mem with refCnt := c }).mem mem).attCnt = 0 := by
      rw [State.mem_self, isMem]
      exact zero
    cases flag with
    | delete => exact given (.inl rfl)
    | out => exact given (.inr rfl)
    | other => exact absurd rfl other
    | pull =>
      have same : u = s := by
        rw [isU, State.setMem, CopyoutFlag.count, Function.update_eq_self]
      rw [same, State.copyoutTask]
      split
      · exact S
      · exact S.copy
    | deleteFinalize =>
      by_cases none : (u.mem mem).baseHbw = none
      · rw [State.copyoutTask_none none]
        exact final rfl none
      · rw [State.copyoutTask]
        rw [if_neg none]
        exact (counted 0).dealloc here (isZero 0 rfl)
    | outFinalize =>
      by_cases none : (u.mem mem).baseHbw = none
      · rw [State.copyoutTask_none none]
        exact final rfl none
      · rw [State.copyoutTask]
        rw [if_neg none]
        exact (counted 0).copy.dealloc here (isZero 0 rfl)

lemma copyout_steady (S : Sound s) (B : (s.copyout ddr size flag env).1.Balanced) :
    s.Steady (.copyout ddr size flag env) := by
  intro pos isCount mem offset found zero
  obtain ⟨k, here, -⟩ := S.inv.query found
  have ok := S.counts here
  have other : flag ≠ .other := by
    rintro rfl
    obtain h | h := isCount <;> cases h
  have next : flag.count (s.mem mem).attCnt = -1 := by
    rw [zero]
    obtain rfl | rfl := isCount <;> rfl
  rw [State.copyout_found pos found other, next] at B
  obtain ⟨u, isU⟩ : ∃ u, u = s.setMem mem { s.mem mem with attCnt := -1 } := ⟨_, rfl⟩
  have isMem : u.mem mem = { s.mem mem with attCnt := -1 } := by
    rw [isU, State.mem_self]
  rw [← isU] at B
  -- the reference count was zero as well, and so the mapping stays
  have stays : ((u.copyoutTask ⟨mem, ddr, offset, size, flag⟩ env).1.mem mem).attCnt = -1 ∧
      (u.copyoutTask ⟨mem, ddr, offset, size, flag⟩ env).1.rangeMap = s.rangeMap := by
    have maps : u.rangeMap = s.rangeMap := by
      rw [isU]
      rfl
    by_cases none : (u.mem mem).baseHbw = none
    · rw [State.copyoutTask_none none, isMem]
      exact ⟨rfl, maps⟩
    · have ref : (u.mem mem).refCnt ≠ 1 := by
        rw [isMem]
        show (s.mem mem).refCnt ≠ 1
        rw [← ok.same, zero]
        decide
      rw [State.copyoutTask]
      rw [if_neg none]
      obtain rfl | rfl := isCount
      · rw [if_neg ref, State.mem_self, isMem]
        exact ⟨rfl, maps⟩
      · dsimp only
        rw [if_neg ref, State.mem_self, isMem]
        exact ⟨rfl, maps⟩
  have low := (B.counts k mem (by rw [stays.2]; exact here)).2
  rw [stays.1] at low
  exact absurd low (by decide)

end Copyout

lemma Sound.quiet (S : Sound s) {issued : List Copy} : Sound { s with issued := issued } :=
  ⟨S.inv.quiet, S.counts, S.kept⟩

lemma Sound.call_iff (S : Sound s) (a : Call) :
    (s.Steady a → Sound (s.call a)) ∧ ((s.call a).Balanced → s.Steady a) := by
  cases a with
  | copyin ddr size flag env =>
    refine ⟨fun steady => S.quiet.copyin steady, fun B => ?_⟩
    have steady : State.Steady { s with issued := [] } (.copyin ddr size flag env) := copyin_steady S.quiet B
    exact steady
  | copyout ddr size flag env =>
    refine ⟨fun steady => S.quiet.copyout steady, fun B => ?_⟩
    have steady : State.Steady { s with issued := [] } (.copyout ddr size flag env) := copyout_steady S.quiet B
    exact steady

/-- In every run of steady calls the counts are balanced after every call, and the first call that is not steady
unbalances them. -/
theorem balanced_iff (h : syncMachine.Reach State.Steady s) :
    s.Balanced ∧ ∀ a, (s.call a).Balanced ↔ s.Steady a := by
  have S : Sound s := by
    apply h.inv
    · intro s init
      refine ⟨.init init, fun {k mem} here => ?_, fun {mem} lt => ?_⟩
      · rw [init.rangeMap] at here
        cases here
      · rw [init.made] at lt
        cases lt
    · intro s a s' S steady step
      cases step
      exact (S.call_iff a).1 steady
  exact ⟨S.balanced, fun a => ⟨(S.call_iff a).2, fun steady => ((S.call_iff a).1 steady).balanced⟩⟩

/-- One mapping that is counted once. -/
theorem balanced_iff_one : ∃ s : State, s.isPresent 4096 = true ∧ (s.mem 0).refCnt = 1 ∧ s.Balanced ∧
    ∀ a, (s.call a).Balanced ↔ s.Steady a := by
  have none : State.start.query 4096 = none := by decide +kernel
  have absent : State.start.addrMap.lookup 4096 = .none := Finmap.lookup_empty _
  have steady : State.start.Steady (.copyin 4096 100 .copyIn (.good 8192)) := by
    refine fun _ _ => ⟨fun _ mem here => ?_, fun _ => ⟨fun mem offset found => ?_, fun _ _ => nofun⟩⟩
    · cases absent.symm.trans here
    · cases none.symm.trans found
  have h : syncMachine.Reach State.Steady (State.start.call (.copyin 4096 100 .copyIn (.good 8192))) :=
    .step (.init State.start_init) steady rfl
  exact ⟨_, by decide +kernel, by decide +kernel, balanced_iff h⟩

/-- After a push to an address without a mapping, a delete leaves a count below zero. -/
theorem balanced_iff_not : ¬ ∀ s, syncMachine.Reachable s → s.Balanced := by
  intro balanced
  obtain ⟨s, h, here, att⟩ := Machine.exists_reach (M := syncMachine) (g := fun _ _ => True)
    (P := fun s => s.rangeMap.lookup 4096 = some 0 ∧ (s.mem 0).attCnt = -1)
    [.copyin 4096 100 .push (.good 8192), .copyout 4096 100 .delete (.good 0)] State.start_init (by decide +kernel)
  have low := ((balanced s h).counts 4096 0 here).2
  rw [att] at low
  exact absurd low (by decide)

end Kupl.Mem
