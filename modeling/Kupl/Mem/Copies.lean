import Kupl.Mem.Records

/-!
# Where the copies of a request lie (`kupl_mem.cpp`)

What a request copies begins where its address lies in the mapping that is found and has the length of the request,
which nobody compares with the length of the mapping.
-/

namespace Kupl.Mem

/-- The task of a request for high-bandwidth memory copies. -/
def KuplMem.CopiesIn (m : KuplMem) (flag : CopyinFlag) (env : Env) : Prop :=
  (m.baseHbw = none → env.hbw ≠ none) ∧ (flag = .push ∨ flag = .copyIn ∧ (m.baseHbw = none ∨ m.refCnt = 0))

/-- The task of a request that is done with high-bandwidth memory copies. -/
def KuplMem.CopiesOut (m : KuplMem) (flag : CopyoutFlag) : Prop :=
  m.baseHbw ≠ none ∧ (flag = .pull ∨ flag = .out ∧ m.refCnt = 1 ∨ flag = .outFinalize)

/-- A request that copies for a mapping in use does not go past the end of the mapping. -/
def State.Fits (s : State) : Call → Prop
  | .copyin ddr size flag env => ddr ≠ 0 → size ≠ 0 → ∀ mem offset, s.query ddr = some (mem, offset) →
    (s.mem mem).attCnt ≠ 0 → (s.mem mem).CopiesIn flag env → offset + size ≤ (s.mem mem).size
  | .copyout ddr size flag _ => ddr ≠ 0 → ∀ mem offset, s.query ddr = some (mem, offset) →
    (s.mem mem).CopiesOut flag → offset + size ≤ (s.mem mem).size

variable {s s' : State} {mem ddr size offset : Nat} {m : KuplMem} {env : Env}

namespace State

/-- The copies that are issued when there were none. -/
def AllInside (s : State) : Prop := ∀ c ∈ s.issued, c.Inside

lemma issued_free : (s.free mem).issued = s.issued := by
  rw [free]
  split <;> rfl

lemma issued_dealloc : (s.dealloc mem).issued = s.issued := by
  rw [dealloc]
  split
  · exact issued_free
  · exact issued_free

lemma issued_attachTo {args : Args CopyinFlag} : (s.attachTo args).1.issued = s.issued := by
  rw [attachTo]
  cases args.flag <;> rfl

lemma copy_allInside (I : Inv s) (known : mem < s.made) (has : (s.mem mem).baseHbw ≠ none) (quiet : s.issued = []) :
    (s.copy mem offset size).AllInside ↔ offset + size ≤ (s.mem mem).size := by
  obtain ⟨b, isB⟩ := Option.ne_none_iff_exists'.1 has
  have freed := (I.owned known isB).2
  have issued : (s.copy mem offset size).issued = [⟨some b, offset, size, (s.mem mem).size, 0⟩] := by
    rw [copy, isB, quiet]
    dsimp only [Option.map, Option.getD]
    rw [freed]
  rw [AllInside, issued, List.forall_mem_singleton]
  exact ⟨fun h => h.1, fun le => ⟨le, nofun, rfl⟩⟩

lemma allInside_nil (quiet : s.issued = []) : s.AllInside := by
  rw [AllInside, quiet]
  nofun

lemma copyinTask_allInside (I : Inv s) {args : Args CopyinFlag} (known : args.mem < s.made) (quiet : s.issued = []) :
    (s.copyinTask args env).1.AllInside ↔
      ((s.mem args.mem).CopiesIn args.flag env → args.offset + args.size ≤ (s.mem args.mem).size) := by
  rw [copyinTask]
  cases got : s.alloc args.mem env with
  | none =>
    obtain ⟨none, refused⟩ := alloc_none got
    exact ⟨fun _ copies => absurd refused (copies.1 none), fun _ => allInside_nil quiet⟩
  | some s' =>
    obtain ⟨has, isSize, made, issued, -, -, -, ref⟩ := alloc_mem got
    have J := I.alloc known got
    rw [← made] at known
    rw [quiet] at issued
    have may : (s.mem args.mem).baseHbw = none → env.hbw ≠ none := by
      intro none
      obtain ⟨some, -⟩ | ⟨-, some, -⟩ := ref
      · exact absurd none some
      · exact some
    cases isFlag : args.flag with
    | create | other =>
      refine ⟨fun _ copies => ?_, fun _ => allInside_nil issued⟩
      obtain isPush | ⟨isIn, -⟩ := copies.2
      · cases isPush
      · cases isIn
    | push =>
      rw [copy_allInside J known has issued, isSize]
      exact ⟨fun le _ => le, fun le => le ⟨may, .inl rfl⟩⟩
    | copyIn =>
      have first : (s'.mem args.mem).refCnt = 0 ↔ (s.mem args.mem).baseHbw = none ∨
        (s.mem args.mem).refCnt = 0 := by
        obtain ⟨some, same⟩ | ⟨none, -, zero⟩ := ref
        · rw [same]
          exact ⟨.inr, fun h => h.resolve_left some⟩
        · exact ⟨fun _ => .inl none, fun _ => zero⟩
      obtain ⟨m, isM⟩ : ∃ m, m = { s'.mem args.mem with refCnt := int32 ((s'.mem args.mem).refCnt + 1) } :=
        ⟨_, rfl⟩
      have K : Inv (s'.setMem args.mem m) := J.counted (by rw [isM]) (by rw [isM]) (by rw [isM])
      dsimp only
      rw [← isM]
      split
      · rename_i zero
        rw [copy_allInside K known (by rw [mem_self, isM]; exact has) issued, mem_self, isM]
        rw [isSize]
        exact ⟨fun le _ => le, fun le => le ⟨may, .inr ⟨rfl, first.1 zero⟩⟩⟩
      · rename_i later
        refine ⟨fun _ copies => ?_, fun _ => allInside_nil issued⟩
        obtain isPush | ⟨-, zero⟩ := copies.2
        · cases isPush
        · exact absurd (first.2 zero) later

lemma copyoutTask_allInside (I : Inv s) (args : Args CopyoutFlag) (env : Env) (known : args.mem < s.made)
    (quiet : s.issued = []) : (s.copyoutTask args env).1.AllInside ↔
      ((s.mem args.mem).CopiesOut args.flag → args.offset + args.size ≤ (s.mem args.mem).size) := by
  have counted (c : Int) : Inv (s.setMem args.mem { s.mem args.mem with refCnt := c }) := I.counted rfl rfl rfl
  have size (c : Int) : ((s.setMem args.mem { s.mem args.mem with refCnt := c }).mem args.mem).size =
      (s.mem args.mem).size := by
    rw [mem_self]
  -- what is issued before the record goes is what is issued
  have gone {t : State} : (t.dealloc args.mem).AllInside ↔ t.AllInside := by
    rw [AllInside, issued_dealloc, AllInside]
  rw [copyoutTask]
  split
  · rename_i none
    exact ⟨fun _ copies => absurd none copies.1, fun _ => allInside_nil quiet⟩
  rename_i has
  have still (c : Int) : ((s.setMem args.mem { s.mem args.mem with refCnt := c }).mem args.mem).baseHbw ≠ none := by
    rw [mem_self]
    exact has
  cases isFlag : args.flag with
  | pull =>
    rw [copy_allInside I known has quiet]
    exact ⟨fun le _ => le, fun le => le ⟨has, .inl rfl⟩⟩
  | delete =>
    have none : ¬ (s.mem args.mem).CopiesOut .delete := by
      rintro ⟨-, isPull | ⟨isOut, -⟩ | isFinal⟩
      · cases isPull
      · cases isOut
      · cases isFinal
    refine ⟨fun _ copies => absurd copies none, fun _ => ?_⟩
    dsimp only
    split
    · exact gone.2 (allInside_nil quiet)
    · exact allInside_nil quiet
  | out =>
    dsimp only
    split
    · rename_i last
      rw [gone, copy_allInside (counted _) known (still _) quiet, size]
      exact ⟨fun le _ => le, fun le => le ⟨has, .inr (.inl ⟨rfl, last⟩)⟩⟩
    · rename_i early
      refine ⟨fun _ copies => ?_, fun _ => allInside_nil quiet⟩
      obtain ⟨-, isPull | ⟨-, last⟩ | isFinal⟩ := copies
      · cases isPull
      · exact absurd last early
      · cases isFinal
  | outFinalize =>
    rw [gone, copy_allInside (counted _) known (still _) quiet, size]
    exact ⟨fun le _ => le, fun le => le ⟨has, .inr (.inr rfl)⟩⟩
  | deleteFinalize =>
    have none : ¬ (s.mem args.mem).CopiesOut .deleteFinalize := by
      rintro ⟨-, isPull | ⟨isOut, -⟩ | isFinal⟩
      · cases isPull
      · cases isOut
      · cases isFinal
    exact ⟨fun _ copies => absurd copies none, fun _ => gone.2 (allInside_nil quiet)⟩
  | other =>
    have none : ¬ (s.mem args.mem).CopiesOut .other := by
      rintro ⟨-, isPull | ⟨isOut, -⟩ | isFinal⟩
      · cases isPull
      · cases isOut
      · cases isFinal
    exact ⟨fun _ copies => absurd copies none, fun _ => allInside_nil quiet⟩

lemma attachTo_mem {args : Args CopyinFlag} : ((s.attachTo args).1.mem args.mem).size = (s.mem args.mem).size ∧
    ((s.attachTo args).1.mem args.mem).baseHbw = (s.mem args.mem).baseHbw ∧
    ((s.attachTo args).1.mem args.mem).refCnt = (s.mem args.mem).refCnt := by
  rw [attachTo]
  cases args.flag with
  | create | copyIn =>
    rw [mem_self]
    exact ⟨rfl, rfl, rfl⟩
  | push | other => exact ⟨rfl, rfl, rfl⟩

lemma serve_allInside (I : Inv s) {args : Args CopyinFlag} (known : args.mem < s.made) (quiet : s.issued = []) :
    (s.serve args env).1.AllInside ↔
      ((s.mem args.mem).CopiesIn args.flag env → args.offset + args.size ≤ (s.mem args.mem).size) := by
  obtain ⟨isSize, isHbw, isRef⟩ := @attachTo_mem s args
  rw [serve]
  split
  · rw [copyinTask_allInside I.attachTo (by rw [made_attachTo]; exact known) (issued_attachTo.trans quiet)]
    rw [KuplMem.CopiesIn, isSize, isHbw, isRef, ← KuplMem.CopiesIn]
  · rename_i refused
    have isOther : args.flag = .other := by
      apply Decidable.of_not_not
      exact fun ne => refused (attachTo_ok.2 ne)
    refine ⟨fun _ copies => ?_, fun _ => allInside_nil (issued_attachTo.trans quiet)⟩
    obtain isPush | ⟨isIn, -⟩ := copies.2
    · cases isOther.symm.trans isPush
    · cases isOther.symm.trans isIn

end State

lemma copyin_allInside (I : Inv s) {flag : CopyinFlag} (quiet : s.issued = []) :
    (s.copyin ddr size flag env).1.AllInside ↔ s.Fits (.copyin ddr size flag env) := by
  by_cases bad : ddr = 0 ∨ size = 0
  · rw [State.copyin_bad bad]
    refine ⟨fun _ pos some => ?_, fun _ => State.allInside_nil quiet⟩
    exact (bad.elim pos some).elim
  have pos : 0 < ddr ∧ 0 < size := by omega
  by_cases used : ∃ mem offset, s.query ddr = some (mem, offset) ∧ (s.mem mem).attCnt ≠ 0
  · obtain ⟨mem, offset, found, used⟩ := used
    have known : mem < s.made := I.query_known found
    have fits : s.Fits (.copyin ddr size flag env) ↔
        ((s.mem mem).CopiesIn flag env → offset + size ≤ (s.mem mem).size) := by
      constructor
      · exact fun h => h (Nat.ne_of_gt pos.1) (Nat.ne_of_gt pos.2) mem offset found used
      · intro h _ _ mem' offset' found' _
        cases found.symm.trans found'
        exact h
    rw [fits, State.copyin_found bad found used]
    exact @State.serve_allInside s env I ⟨mem, ddr, offset, size, flag⟩ known quiet
  · have unused (mem offset) (found : s.query ddr = some (mem, offset)) : (s.mem mem).attCnt = 0 :=
      by_contra fun ne => used ⟨mem, offset, found, ne⟩
    rw [State.copyin_new bad unused]
    refine ⟨fun _ _ _ mem offset found ne => absurd (unused mem offset found) ne, fun _ => ?_⟩
    split
    · -- the record has the length of the request
      have J : Inv (s.map ddr size) := I.mapped pos.1 pos.2
      apply (State.serve_allInside J (Nat.lt_succ_self _) quiet).2
      intro _
      have self : (s.map ddr size).mem s.made = ⟨ddr, none, size, false, 0, 0⟩ := Function.update_self ..
      rw [self]
      exact (Nat.zero_add size).le
    · exact State.allInside_nil quiet

lemma copyout_allInside (I : Inv s) {flag : CopyoutFlag} (quiet : s.issued = []) :
    (s.copyout ddr size flag env).1.AllInside ↔ s.Fits (.copyout ddr size flag env) := by
  by_cases pos : ddr = 0
  · rw [State.copyout_none (.inl pos)]
    exact ⟨fun _ ne => absurd pos ne, fun _ => State.allInside_nil quiet⟩
  by_cases other : flag = .other
  · rw [State.copyout_none (.inr (.inr other))]
    refine ⟨fun _ _ mem offset _ copies => ?_, fun _ => State.allInside_nil quiet⟩
    obtain ⟨-, isPull | ⟨isOut, -⟩ | isFinal⟩ := copies
    · cases other.symm.trans isPull
    · cases other.symm.trans isOut
    · cases other.symm.trans isFinal
  cases found : s.query ddr with
  | none =>
    rw [State.copyout_none (.inr (.inl found))]
    refine ⟨fun _ _ mem offset h => ?_, fun _ => State.allInside_nil quiet⟩
    cases found.symm.trans h
  | some p =>
    obtain ⟨mem, offset⟩ := p
    have fits : s.Fits (.copyout ddr size flag env) ↔
        ((s.mem mem).CopiesOut flag → offset + size ≤ (s.mem mem).size) := by
      constructor
      · exact fun h => h pos mem offset found
      · intro h _ mem' offset' found'
        cases found.symm.trans found'
        exact h
    obtain ⟨m, isM⟩ : ∃ m, m = { s.mem mem with attCnt := flag.count (s.mem mem).attCnt } := ⟨_, rfl⟩
    have J : Inv (s.setMem mem m) := I.counted (by rw [isM]) (by rw [isM]) (by rw [isM])
    have K := State.copyoutTask_allInside J ⟨mem, ddr, offset, size, flag⟩ env (I.query_known found) quiet
    rw [fits, State.copyout_found pos found other, ← isM, K, State.mem_self, isM]
    exact Iff.rfl

/-- After every sequence of synchronous calls, whatever they named: all copies of the next call lie in memory of
their mapping that is allocated, if and only if the call does not copy past the end of the mapping it finds. -/
theorem copies_inside_iff (h : syncMachine.Reachable s) (a : Call) :
    (∀ c ∈ (s.call a).issued, c.Inside) ↔ s.Fits a := by
  have I := inv_of_reachable h
  cases a with
  | copyin ddr size flag env => exact copyin_allInside I.quiet rfl
  | copyout ddr size flag env => exact copyout_allInside I.quiet rfl

/-- The second half of a mapping is copied back. -/
theorem copies_inside_iff_two : ∃ s : State, s.memQuery 4146 = 8242 ∧ (s.mem 0).size = 100 ∧
    ∀ c ∈ (s.call (.copyout 4146 50 .pull (.good 0))).issued, c.Inside := by
  obtain ⟨s, h, here, size, found⟩ := Machine.exists_reach (M := syncMachine) (g := fun _ _ => True)
    (P := fun s => s.memQuery 4146 = 8242 ∧ (s.mem 0).size = 100 ∧ s.query 4146 = some (0, 50))
    [.copyin 4096 100 .copyIn (.good 8192)] State.start_init (by decide +kernel)
  refine ⟨s, here, size, (copies_inside_iff h _).2 fun _ mem offset same _ => ?_⟩
  cases found.symm.trans same
  exact size.ge

/-- A second request for the same address with twice the length copies past the end. -/
theorem copies_inside_iff_not : ¬ ∀ s, syncMachine.Reachable s → ∀ a, ∀ c ∈ (s.call a).issued, c.Inside := by
  intro inside
  obtain ⟨s, h, here⟩ := Machine.exists_reach (M := syncMachine) (g := fun _ _ => True)
    (P := fun s => ⟨some ⟨0, 8192⟩, 0, 200, 100, 0⟩ ∈ (s.call (.copyin 4096 200 .push (.good 0))).issued)
    [.copyin 4096 100 .copyIn (.good 8192)] State.start_init (by decide +kernel)
  exact absurd (inside s h _ _ here) (by decide)

end Kupl.Mem
