import Kupl.Mem.Async

/-!
# What holds of every record on its own (`kupl_mem.cpp`)

A record without memory has no references and is not pinned, and its count is an `int`. Tasks do not count: only
requests do, before their tasks run.
-/

namespace Kupl.Mem

lemma int32_mod (x : Int) : int32 x % 2 ^ 32 = x % 2 ^ 32 := Int.bmod_emod ..

lemma int32_congr {x y : Int} (same : x % 2 ^ 32 = y % 2 ^ 32) : int32 x = int32 y := by
  rw [int32, Int.bmod_def, int32, Int.bmod_def]
  have same : x % ((2 ^ 32 : Nat) : Int) = y % ((2 ^ 32 : Nat) : Int) := same
  rw [same]

lemma int32_int32 (x : Int) : int32 (int32 x) = int32 x := int32_congr (int32_mod x)

lemma int32_succ_ne (k : Int) : int32 k ≠ int32 (k + 1) := by
  intro same
  have := int32_mod k
  rw [same, int32_mod] at this
  omega

lemma int32_nat (k : Int) : int32 k = int32 ((k % 2 ^ 32).toNat : Nat) := by
  apply int32_congr
  omega

/-- A record without memory has no references and is not pinned, and the count is a C++ `int`. -/
structure KuplMem.Fit (m : KuplMem) : Prop where
  none : m.baseHbw = none → m.refCnt = 0 ∧ m.pin = false
  att : int32 m.attCnt = m.attCnt

/-- What a task does to the records. -/
structure Uncounted (s s' : State) : Prop where
  att : ∀ mem, (s'.mem mem).attCnt = (s.mem mem).attCnt
  fit : ∀ mem, (s.mem mem).Fit → (s'.mem mem).Fit

variable {s s' : State} {mem : Nat} {m : KuplMem} {env : Env}

namespace Uncounted

lemma refl : Uncounted s s := ⟨fun _ => rfl, fun _ fit => fit⟩

lemma trans {s''} (u : Uncounted s s') (u' : Uncounted s' s'') : Uncounted s s'' :=
  ⟨fun mem => (u'.att mem).trans (u.att mem), fun mem fit => u'.fit mem (u.fit mem fit)⟩

lemma setMem (att : m.attCnt = (s.mem mem).attCnt) (none : m.baseHbw = none → m.refCnt = 0 ∧ m.pin = false) :
    Uncounted s (s.setMem mem m) := by
  refine ⟨fun _ => State.mem_setMem (f := (·.attCnt)) att, fun x fit => ?_⟩
  by_cases same : x = mem
  · subst same
    rw [State.mem_self]
    exact ⟨none, by rw [att]; exact fit.att⟩
  · rw [State.mem_of_ne same]
    exact fit

lemma counted (has : (s.mem mem).baseHbw ≠ none) (c : Int) :
    Uncounted s (s.setMem mem { s.mem mem with refCnt := c }) :=
  setMem rfl fun none => absurd none has

lemma free : Uncounted s (s.free mem) := by
  rw [State.free]
  split
  · exact refl
  · have u : Uncounted s (s.setMem mem { s.mem mem with baseHbw := none, pin := false, refCnt := 0 }) :=
      setMem rfl fun _ => ⟨rfl, rfl⟩
    exact ⟨u.att, u.fit⟩

lemma dealloc : Uncounted s (s.dealloc mem) := by
  have u : Uncounted s (s.free mem) := free
  rw [State.dealloc]
  split
  · exact ⟨u.att, u.fit⟩
  · exact u

lemma copy {offset size : Nat} (u : Uncounted s s') : Uncounted s (s'.copy mem offset size) := ⟨u.att, u.fit⟩

lemma alloc (h : s.alloc mem env = some s') : Uncounted s s' := by
  rw [State.alloc] at h
  split at h
  · cases h
    exact refl
  cases isHbw : env.hbw with
  | none =>
    rw [isHbw] at h
    cases h
  | some addr =>
    rw [isHbw] at h
    cases h
    have u : Uncounted s (s.setMem mem { s.mem mem with
        baseHbw := some ⟨s.hbwMade, addr⟩
        pin := decide (s.threshold ≤ (s.mem mem).size) && env.pinned
        refCnt := 0 }) := setMem rfl (by rintro ⟨⟩)
    exact ⟨u.att, u.fit⟩

end Uncounted

lemma State.copyinTask_uncounted {args : Args CopyinFlag} : Uncounted s (s.copyinTask args env).1 := by
  rw [State.copyinTask]
  cases got : s.alloc args.mem env with
  | none => exact .refl
  | some s' =>
    have u := Uncounted.alloc got
    have counted (c : Int) : Uncounted s (s'.setMem args.mem { s'.mem args.mem with refCnt := c }) :=
      u.trans (.counted (State.alloc_mem got).1 c)
    cases args.flag with
    | create => exact counted _
    | copyIn =>
      dsimp only
      split
      · exact (counted _).copy
      · exact counted _
    | push => exact u.copy
    | other => exact u

lemma State.copyoutTask_uncounted {args : Args CopyoutFlag} : Uncounted s (s.copyoutTask args env).1 := by
  rw [State.copyoutTask]
  split
  · exact .refl
  rename_i has
  have counted (c : Int) : Uncounted s (s.setMem args.mem { s.mem args.mem with refCnt := c }) := .counted has c
  cases args.flag with
  | pull => exact Uncounted.refl.copy
  | delete =>
    dsimp only
    split
    · exact (counted _).trans .dealloc
    · exact counted _
  | out =>
    dsimp only
    split
    · exact (counted _).copy.trans .dealloc
    · exact counted _
  | outFinalize => exact (counted _).copy.trans .dealloc
  | deleteFinalize => exact (counted _).trans .dealloc
  | other => exact .refl

def State.AllFit (s : State) : Prop := ∀ mem < s.made, (s.mem mem).Fit

lemma KuplMem.Fit.count (fit : m.Fit) {c : Int} (isC : int32 c = c) : KuplMem.Fit { m with attCnt := c } :=
  ⟨fit.none, isC⟩

namespace State.AllFit
variable (F : s.AllFit)
include F

lemma setMem (fit : m.Fit) : (s.setMem mem m).AllFit := by
  intro x known
  by_cases same : x = mem
  · rw [same, State.mem_self]
    exact fit
  · rw [State.mem_of_ne same]
    exact F x known

lemma attachTo {args : Args CopyinFlag} (known : args.mem < s.made) : (s.attachTo args).1.AllFit := by
  have counted := (F args.mem known).count (int32_int32 ((s.mem args.mem).attCnt + 1))
  rw [State.attachTo]
  cases args.flag with
  | create | copyIn => exact F.setMem counted
  | push | other => exact F

lemma map {ddr size : Nat} : (s.map ddr size).AllFit := by
  intro x known
  show KuplMem.Fit (Function.update s.mem s.made ⟨ddr, none, size, false, 0, 0⟩ x)
  by_cases same : x = s.made
  · rw [same, Function.update_self]
    exact ⟨fun _ => ⟨rfl, rfl⟩, rfl⟩
  · have known : x < s.made + 1 := known
    rw [Function.update_of_ne same]
    exact F x (by omega)

lemma detach (I : Inv s) {args : Args CopyoutFlag} : (s.detach args).1.AllFit := by
  rw [State.detach]
  cases found : s.query args.ddr with
  | none => exact F
  | some p =>
    have fit := F p.1 (I.query_known found)
    cases args.flag with
    | delete | out => exact F.setMem (fit.count (int32_int32 _))
    | pull | other => exact F
    | deleteFinalize | outFinalize => exact F.setMem (fit.count rfl)

lemma run (t : Task) : (t.run s env).AllFit := by
  intro x known
  rw [Task.within.made] at known
  cases t with
  | copyin args => exact State.copyinTask_uncounted.fit x (F x known)
  | copyout args => exact State.copyoutTask_uncounted.fit x (F x known)

end State.AllFit

lemma Tidy.fits {s s' : System} {a : Label} (T : Tidy s) (F : s.core.AllFit) (h : s.step a = some s') :
    s'.core.AllFit := by
  cases System.step_does h with
  | stay core pending none =>
    rw [core]
    exact F
  | attach args found core pending none =>
    rw [core]
    exact F.attachTo (T.inv.query_known found)
  | remap args isMem maps only core pending =>
    rw [core]
    exact F.map.attachTo (isMem.trans_lt (Nat.lt_succ_self _))
  | detach args found core pending none =>
    obtain ⟨args', core⟩ := core
    rw [core]
    exact F.detach T.inv
  | run t env next pending core others none =>
    rw [core]
    exact F.run t

lemma tidy_of_reachable {s : System} (h : asyncMachine.Reachable s) : Tidy s ∧ s.core.AllFit := by
  apply h.inv
  · intro s init
    refine ⟨.init init, fun mem known => ?_⟩
    rw [init.core.made] at known
    omega
  · exact fun s a s' ⟨T, F⟩ _ step => ⟨T.step step, T.fits F step⟩

end Kupl.Mem
