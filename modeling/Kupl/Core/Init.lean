import Kupl.Machine.Run

/-!
# Initialisation at the first call (`kupl_core.cpp`)

Every function of the interface first passes a guard: if `g_core_inited` is not set, it calls `kupl_init`. This tries to
take a mutex, and returns at once if somebody else has it; who has it initialises one module after another, finalises
those that it has initialised when one of them fails, and releases the mutex when it returns. Calls that the
initialising thread makes meanwhile pass the guard and change nothing; they are left out.

| source | here |
|---|---|
| `g_core_inited`, `g_utils_inited`, `g_tools_inited` | `inited`, `utilsInited`, `toolsInited` |
| `g_mtx` | `owner` |
| `if (!g_core_inited && kupl_init() == KUPL_ERROR)`: the flag | `call` |
| `kupl_init`: `try_to_lock` | `tryLock` |
| `kupl_init`: a module; the flag; the labels `err_...`; the return | `run` at `init`, `undo`, `leave` |
-/

namespace Kupl.Core
open Function (update update_of_ne update_self)

/-- The modules that `kupl_init` initialises. -/
inductive Module where
  | utils | places | tools | sdma | memory | dm | mt | executor | pf
deriving DecidableEq

def modules : List Module := [.utils, .places, .tools, .sdma, .memory, .dm, .mt, .executor, .pf]

/-- Where a thread is: `init k` and `undo k` with `k` modules that are initialised, `leave` with the value that it
returns; `past` the guard, or `failed`. -/
inductive Pc where
  | out
  | enter
  | init (k : Nat)
  | undo (k : Nat)
  | leave (ok : Bool)
  | past
  | failed

/-- The flags, the mutex, which modules are initialised, and the threads. `wins` counts the initialisations that have
succeeded, and `passed` records who has passed the guard. -/
structure State where
  inited : Bool
  utilsInited : Bool
  toolsInited : Bool
  owner : Option Nat
  up : Module → Bool
  pc : Nat → Pc
  wins : Nat
  passed : Nat → Bool

/-- A thread begins a call, tries to take the mutex, or goes on in `kupl_init`, where the module that it comes to can be
initialised or not. -/
inductive Label where
  | call (t : Nat)
  | tryLock (t : Nat)
  | run (t : Nat) (ok : Bool)

def State.goto (s : State) (t : Nat) (pc : Pc) : State := { s with pc := update s.pc t pc }

def State.pass (s : State) (t : Nat) : State := { s.goto t .past with passed := update s.passed t true }

/-- Modules with a flag that says that they are initialised. -/
def State.skips (s : State) : Module → Bool
  | .utils => s.utilsInited
  | .tools => s.toolsInited
  | _ => false

/-- (C++ `kupl_utils_init`, ..., `kupl_pf_init`). -/
def State.start (s : State) (m : Module) : State :=
  { s with
    up := update s.up m true
    utilsInited := s.utilsInited || m == .utils
    toolsInited := s.toolsInited || m == .tools }

/-- (C++ `kupl_utils_fini`, ..., `kupl_executor_module_fini`); `kupl_tools_fini` keeps the flag. -/
def State.stop (s : State) (m : Module) : State :=
  { s with
    up := update s.up m false
    utilsInited := s.utilsInited && m != .utils }

def step (s : State) : Label → Option State
  | .call t =>
    match s.pc t with
    | .out | .past | .failed => if s.inited then some (s.pass t) else some (s.goto t .enter)
    | _ => none
  | .tryLock t =>
    match s.pc t with
    | .enter =>
      match s.owner with
      | none => some ({ s with owner := some t }.goto t (.init 0))
      | some _ => some (s.pass t)
    | _ => none
  | .run t ok =>
    match s.pc t with
    | .init k =>
      match modules[k]? with
      | some m =>
        if s.skips m then some (s.goto t (.init (k + 1)))
        else if ok then some ((s.start m).goto t (.init (k + 1)))
        else some (s.goto t (.undo k))
      | none => some ({ s with inited := true, wins := s.wins + 1 }.goto t (.leave true))
    | .undo k =>
      match k with
      | 0 => some (s.goto t (.leave false))
      | k + 1 =>
        match modules[k]? with
        | some m => some ((s.stop m).goto t (.undo k))
        | none => none
    | .leave true => some ({ s with owner := none }.pass t)
    | .leave false => some ({ s with owner := none }.goto t .failed)
    | _ => none

/-- Nothing is initialised at first, but for the first module (C++ `kupl_shm_init`). -/
def machine : Machine State Label where
  init s := s.inited = false ∧ s.toolsInited = false ∧ s.owner = none ∧
    (∀ m, m ≠ .utils → s.up m = false) ∧
    s.up .utils = s.utilsInited ∧ (∀ t, s.pc t = .out) ∧ s.wins = 0 ∧ ∀ t, s.passed t = false
  step := step

def State.AllUp (s : State) : Prop := ∀ m, s.up m = true

/-- A thread tries to take the mutex in time: if it is free, then no initialisation has succeeded, and none has failed
after that of the tools; and if somebody has it, then all modules are initialised. -/
def InTime (s : State) : Label → Prop
  | .tryLock _ =>
    match s.owner with
    | none => s.inited = false ∧ (s.toolsInited = true → s.up .tools = true)
    | some _ => s.AllUp
  | _ => True

/-- Who has passed the guard finds all modules initialised; when an initialisation fails, nobody has passed the guard;
and at most one initialisation succeeds. -/
structure Ready (s : State) : Prop where
  passed : ∀ t, s.passed t = true → s.AllUp
  failed : ∀ t, (∃ k, s.pc t = .undo k) ∨ s.pc t = .leave false → ∀ u, s.passed u = false
  once : s.wins ≤ 1

variable {s s' : State} {t u k : Nat} {m m' : Module} {pc : Pc} {a : Label} {ok : Bool}

/-! ## The order of the modules -/

def Module.index : Module → Nat
  | .utils => 0
  | .places => 1
  | .tools => 2
  | .sdma => 3
  | .memory => 4
  | .dm => 5
  | .mt => 6
  | .executor => 7
  | .pf => 8

lemma modules_index (at_k : modules[k]? = some m) : m.index = k := by
  obtain ⟨lt, at_k⟩ := List.getElem?_eq_some_iff.1 at_k
  have lt : k < 9 := lt
  subst at_k
  match k, lt with
  | 0, _ | 1, _ | 2, _ | 3, _ | 4, _ | 5, _ | 6, _ | 7, _ | 8, _ => rfl

lemma index_lt : m.index < modules.length := by
  cases m <;> decide

lemma index_inj (same : m.index = m'.index) : m = m' := by
  cases m <;> cases m' <;> first | rfl | exact absurd same (by decide)

/-! ## The invariant -/

/-- A thread has the mutex. -/
def Pc.Owns : Pc → Prop
  | .init _ | .undo _ | .leave _ => True
  | _ => False

/-- No initialisation has succeeded, and nobody has passed the guard. -/
structure Down (s : State) : Prop where
  inited : s.inited = false
  wins : s.wins = 0
  passed : ∀ t, s.passed t = false

/-- An initialisation has succeeded. -/
structure Won (s : State) : Prop where
  inited : s.inited = true
  wins : s.wins = 1
  up : s.AllUp

/-- The first `k` modules are initialised. -/
structure Begun (s : State) (k : Nat) : Prop where
  inited : s.inited = false
  wins : s.wins = 0
  passed : ∀ t, s.passed t = true → s.AllUp
  below : ∀ m : Module, m.index < k → s.up m = true
  above : ∀ m : Module, k ≤ m.index → m ≠ .utils → s.up m = false
  tools : s.toolsInited = true → s.up .tools = true

/-- What holds while the thread with the mutex is there. -/
def Fits (s : State) : Pc → Prop
  | .init k => Begun s k
  | .undo k => Down s ∧ k < modules.length ∧ ∀ m : Module, k ≤ m.index → s.up m = false
  | .leave false => Down s ∧ ∀ m, s.up m = false
  | .leave true => Won s
  | _ => False

/-- Each owner is the one that the mutex names, and the state fits where it is; while the mutex is free, either an
initialisation has succeeded or no module is initialised but the first one. -/
structure Inv (s : State) : Prop where
  utils : s.up .utils = s.utilsInited
  own : ∀ t, (s.pc t).Owns → s.owner = some t
  rest : s.owner = none → (Down s ∧ ∀ m, m ≠ .utils → s.up m = false) ∨ Won s
  fits : ∀ t, s.owner = some t → Fits s (s.pc t)

lemma Fits.owns (F : Fits s pc) : pc.Owns := by
  cases pc with
  | init | undo | leave => trivial
  | out | enter | past | failed => exact F.elim

lemma Down.not (D : Down s) : s.passed t ≠ true := by
  rw [D.passed t]
  exact Bool.false_ne_true

lemma Inv.phase (I : Inv s) : Won s ∨ Down s ∨ ∃ k, Begun s k := by
  cases owner : s.owner with
  | none =>
    obtain ⟨D, -⟩ | W := I.rest owner
    · exact .inr (.inl D)
    · exact .inl W
  | some t =>
    have F := I.fits t owner
    cases at_t : s.pc t with
    | init k =>
      rw [at_t] at F
      exact .inr (.inr ⟨k, F⟩)
    | undo k =>
      rw [at_t] at F
      exact .inr (.inl F.1)
    | leave ok =>
      rw [at_t] at F
      cases ok with
      | false => exact .inr (.inl F.1)
      | true => exact .inl F
    | out | enter | past | failed =>
      rw [at_t] at F
      exact F.elim

lemma Inv.won (I : Inv s) (inited : s.inited = true) : Won s := by
  obtain W | D | ⟨k, B⟩ := I.phase
  · exact W
  · exact absurd (inited.symm.trans D.inited) Bool.noConfusion
  · exact absurd (inited.symm.trans B.inited) Bool.noConfusion

lemma Inv.ready (I : Inv s) : Ready s := by
  constructor
  case passed =>
    intro t passed
    obtain W | D | ⟨k, B⟩ := I.phase
    · exact W.up
    · exact absurd passed D.not
    · exact B.passed t passed
  case failed =>
    intro t at_t u
    obtain ⟨k, at_t⟩ | at_t := at_t
    · have F := I.fits t (I.own t (by rw [at_t]; trivial))
      rw [at_t] at F
      exact F.1.passed u
    · have F := I.fits t (I.own t (by rw [at_t]; trivial))
      rw [at_t] at F
      exact F.1.passed u
  case once =>
    obtain W | D | ⟨k, B⟩ := I.phase
    · exact Nat.le_of_eq W.wins
    · rw [D.wins]
      exact Nat.zero_le 1
    · rw [B.wins]
      exact Nat.zero_le 1

/-! ## What a step keeps -/

lemma goto_self : (s.goto t pc).pc t = pc := update_self ..

lemma goto_ne (ne : u ≠ t) : (s.goto t pc).pc u = s.pc u := update_of_ne ne ..

lemma Inv.others (I : Inv s) (owner : s.owner = some t ∨ s.owner = none) (ne : u ≠ t) : ¬ (s.pc u).Owns := by
  intro owns
  have is := I.own u owns
  obtain owner | owner := owner
  · exact ne (Option.some.inj (is.symm.trans owner))
  · cases is.symm.trans owner

lemma Down.goto (D : Down s) : Down (s.goto t pc) := ⟨D.inited, D.wins, D.passed⟩

lemma Won.goto (W : Won s) : Won (s.goto t pc) := ⟨W.inited, W.wins, W.up⟩

lemma Begun.goto (B : Begun s k) : Begun (s.goto t pc) k := ⟨B.inited, B.wins, B.passed, B.below, B.above, B.tools⟩

lemma Fits.goto {at_u : Pc} (F : Fits s at_u) : Fits (s.goto t pc) at_u := by
  cases at_u with
  | init k => exact Begun.goto F
  | undo k => exact ⟨F.1.goto, F.2⟩
  | leave ok =>
    cases ok with
    | false => exact ⟨F.1.goto, F.2⟩
    | true => exact Won.goto F
  | out | enter | past | failed => exact F.elim

lemma Fits.pass {at_u : Pc} (F : Fits s at_u) (up : s.AllUp) : Fits (s.pass t) at_u := by
  have not {m : Module} {P : Prop} (down : s.up m = false) : P := absurd ((up m).symm.trans down) Bool.noConfusion
  cases at_u with
  | init k => exact ⟨F.inited, F.wins, fun _ _ => up, F.below, F.above, F.tools⟩
  | undo k =>
    have last : k ≤ Module.pf.index := Nat.le_of_lt_succ F.2.1
    exact not (F.2.2 .pf last)
  | leave ok =>
    cases ok with
    | false => exact not (F.2 .pf)
    | true => exact ⟨F.inited, F.wins, F.up⟩
  | out | enter | past | failed => exact F.elim

lemma Inv.ne (I : Inv s) (was : ¬ (s.pc t).Owns) (owner : s.owner = some u) : u ≠ t := by
  rintro rfl
  exact was (I.fits u owner).owns

lemma Inv.aside (I : Inv s) (was : ¬ (s.pc t).Owns) (now : ¬ pc.Owns) : Inv (s.goto t pc) := by
  constructor
  case utils => exact I.utils
  case own =>
    intro u owns
    by_cases same : u = t
    · rw [same, goto_self] at owns
      exact absurd owns now
    · rw [goto_ne same] at owns
      exact I.own u owns
  case rest =>
    intro free
    obtain ⟨D, up⟩ | W := I.rest free
    · exact .inl ⟨D.goto, up⟩
    · exact .inr W.goto
  case fits =>
    intro u owner
    rw [goto_ne (I.ne was owner)]
    exact (I.fits u owner).goto

lemma Inv.pass (I : Inv s) (was : ¬ (s.pc t).Owns) (up : s.AllUp) : Inv (s.pass t) := by
  have J : Inv (s.goto t .past) := I.aside was id
  constructor
  case utils => exact J.utils
  case own => exact J.own
  case rest =>
    intro free
    obtain ⟨D, down⟩ | W := I.rest free
    · exact absurd ((up .pf).symm.trans (down .pf nofun)) Bool.noConfusion
    · exact .inr ⟨W.inited, W.wins, W.up⟩
  case fits =>
    intro u owner
    have F := (I.fits u owner).pass up (t := t)
    have stays : (s.goto t .past).pc _ = s.pc _ := goto_ne (I.ne was owner)
    rw [← stays] at F
    exact F

lemma Inv.mine (others : ∀ u, u ≠ t → ¬ (s.pc u).Owns) (owner : s.owner = some t)
    (utils : s.up .utils = s.utilsInited) (F : Fits s pc) : Inv (s.goto t pc) := by
  constructor
  case utils => exact utils
  case own =>
    intro u owns
    by_cases same : u = t
    · rw [same]
      exact owner
    · rw [goto_ne same] at owns
      exact absurd owns (others u same)
  case rest =>
    intro free
    cases owner.symm.trans free
  case fits =>
    intro u is
    cases owner.symm.trans is
    rw [goto_self]
    exact F.goto

lemma Inv.release (others : ∀ u, u ≠ t → ¬ (s.pc u).Owns) (utils : s.up .utils = s.utilsInited)
    (now : ¬ pc.Owns)
    (rest : (Down s ∧ ∀ m, m ≠ .utils → s.up m = false) ∨ Won s) :
      Inv ({ s with owner := none }.goto t pc) := by
  constructor
  case utils => exact utils
  case own =>
    intro u owns
    by_cases same : u = t
    · rw [same, goto_self] at owns
      exact absurd owns now
    · rw [goto_ne same] at owns
      exact absurd owns (others u same)
  case rest =>
    intro _
    obtain ⟨D, up⟩ | W := rest
    · exact .inl ⟨⟨D.inited, D.wins, D.passed⟩, up⟩
    · exact .inr ⟨W.inited, W.wins, W.up⟩
  case fits =>
    intro u is
    cases is

/-! ## The modules -/

lemma Begun.skip (B : Begun s k) (utils : s.up .utils = s.utilsInited) (at_k : modules[k]? = some m)
    (skips : s.skips m = true) : Begun s (k + 1) := by
  have index := modules_index at_k
  have up : s.up m = true := by
    cases m with
    | utils => exact utils.trans skips
    | tools => exact B.tools skips
    | places | sdma | memory | dm | mt | executor | pf => cases skips
  refine ⟨B.inited, B.wins, B.passed, fun m' lt => ?_, fun m' le => B.above m' (Nat.le_of_succ_le le), B.tools⟩
  obtain lt | same := Nat.lt_or_eq_of_le (Nat.le_of_lt_succ lt)
  · exact B.below m' lt
  · rw [index_inj (same.trans index.symm)]
    exact up

lemma Begun.next (B : Begun s k) (at_k : modules[k]? = some m) : Begun (s.start m) (k + 1) := by
  have index := modules_index at_k
  have stays {m'} (up : s.up m' = true) : (s.start m).up m' = true := by
    by_cases same : m' = m
    · rw [same]
      exact update_self ..
    · exact (update_of_ne same true s.up).trans up
  refine ⟨B.inited, B.wins, fun t passed m' => stays (B.passed t passed m'), fun m' lt => ?_, fun m' le ne => ?_,
    fun inited => ?_⟩
  · obtain lt | same := Nat.lt_or_eq_of_le (Nat.le_of_lt_succ lt)
    · exact stays (B.below m' lt)
    · rw [index_inj (same.trans index.symm)]
      exact update_self ..
  · have other : m' ≠ m := by
      rintro rfl
      omega
    exact (update_of_ne other true s.up).trans (B.above m' (Nat.le_of_succ_le le) ne)
  · have inited : (s.toolsInited || m == .tools) = true := inited
    obtain inited | same := Bool.or_eq_true_iff.1 inited
    · exact stays (B.tools inited)
    · rw [eq_of_beq same]
      exact update_self Module.tools true s.up

lemma Begun.fail (B : Begun s k) (utils : s.up .utils = s.utilsInited) (at_k : modules[k]? = some m)
    (skips : s.skips m = false) : Down s ∧ k < modules.length ∧ ∀ m : Module, k ≤ m.index →
      s.up m = false := by
  have index := modules_index at_k
  have down m' (le : k ≤ m'.index) : s.up m' = false := by
    by_cases is : m' = .utils
    · have zero : m.index = 0 := by
        rw [is] at le
        exact index.trans (Nat.le_zero.1 le)
      have first : m = .utils := index_inj zero
      rw [first] at skips
      rw [is]
      exact utils.trans skips
    · exact B.above m' le is
  refine ⟨⟨B.inited, B.wins, fun t => ?_⟩, ?_, down⟩
  · apply Bool.eq_false_iff.2
    intro passed
    exact absurd ((B.passed t passed m).symm.trans (down m (Nat.le_of_eq index.symm))) Bool.noConfusion
  · rw [← index]
    exact index_lt

lemma undo_next (D : Down s) (lt : k + 1 < modules.length) (down : ∀ m : Module, k + 1 ≤ m.index → s.up m = false)
    (at_k : modules[k]? = some m) : Fits (s.stop m) (.undo k) := by
  refine ⟨⟨D.inited, D.wins, D.passed⟩, Nat.lt_of_succ_lt lt, fun m' le => ?_⟩
  by_cases same : m' = m
  · rw [same]
    exact update_self ..
  · have ne : m'.index ≠ k := fun is => same (index_inj (is.trans (modules_index at_k).symm))
    exact (update_of_ne same false s.up).trans (down m' (by omega))

lemma start_utils (utils : s.up .utils = s.utilsInited) : (s.start m).up .utils = (s.start m).utilsInited := by
  cases m <;> simp [State.start, utils]

lemma stop_utils (utils : s.up .utils = s.utilsInited) : (s.stop m).up .utils = (s.stop m).utilsInited := by
  cases m <;> simp [State.stop, utils]

/-! ## Runs -/

lemma Inv.step (I : Inv s) (time : InTime s a) (st : step s a = some s') : Inv s' := by
  cases a with
  | call t =>
    have called (was : ¬ (s.pc t).Owns)
        (st : (if s.inited then some (s.pass t) else some (s.goto t .enter)) = some s') : Inv s' := by
      split at st
      case isTrue inited =>
        cases st
        exact I.pass was (I.won inited).up
      case isFalse =>
        cases st
        exact I.aside was id
    cases at_t : s.pc t with
    | out | past | failed =>
      simp only [Core.step, at_t] at st
      refine called ?_ st
      rw [at_t]
      exact id
    | enter | init | undo | leave =>
      simp only [Core.step, at_t, reduceCtorEq] at st
  | tryLock t =>
    cases at_t : s.pc t with
    | enter =>
      have was : ¬ (s.pc t).Owns := by
        rw [at_t]
        exact id
      cases owner : s.owner with
      | none =>
        simp only [Core.step, at_t, owner, Option.some.injEq] at st
        subst st
        simp only [InTime, owner] at time
        obtain ⟨D, up⟩ | W := I.rest owner
        · refine Inv.mine (s := { s with owner := some t }) (fun u ne => I.others (.inr owner) ne) rfl I.utils ?_
          exact ⟨D.inited, D.wins, fun u passed => absurd passed D.not, fun m lt => absurd lt (Nat.not_lt_zero _),
            fun m _ => up m, time.2⟩
        · cases time.1.symm.trans W.inited
      | some u =>
        simp only [Core.step, at_t, owner, Option.some.injEq] at st
        subst st
        simp only [InTime, owner] at time
        exact I.pass was time
    | out | init | undo | leave | past | failed =>
      simp only [Core.step, at_t, reduceCtorEq] at st
  | run t ok =>
    have mine (owns : (s.pc t).Owns) : s.owner = some t ∧ ∀ u, u ≠ t → ¬ (s.pc u).Owns :=
      ⟨I.own t owns, fun u ne => I.others (.inl (I.own t owns)) ne⟩
    cases at_t : s.pc t with
    | init k =>
      obtain ⟨owner, others⟩ := mine (by rw [at_t]; trivial)
      have B : Begun s k := by
        have F := I.fits t owner
        rw [at_t] at F
        exact F
      cases at_k : modules[k]? with
      | some m =>
        simp only [Core.step, at_t, at_k] at st
        cases skips : s.skips m with
        | true =>
          rw [skips] at st
          cases st
          exact Inv.mine others owner I.utils (show Fits s (.init (k + 1)) from B.skip I.utils at_k skips)
        | false =>
          rw [skips] at st
          cases ok with
          | true =>
            cases st
            exact Inv.mine (s := s.start m) others owner (start_utils I.utils)
              (show Fits (s.start m) (.init (k + 1)) from B.next at_k)
          | false =>
            cases st
            exact Inv.mine others owner I.utils (show Fits s (.undo k) from B.fail I.utils at_k skips)
      | none =>
        simp only [Core.step, at_t, at_k, Option.some.injEq] at st
        subst st
        have le := List.getElem?_eq_none_iff.1 at_k
        refine Inv.mine (s := { s with inited := true, wins := s.wins + 1 }) others owner I.utils ?_
        show Fits _ (.leave true)
        exact ⟨rfl, congrArg (· + 1) B.wins, fun m => B.below m (Nat.lt_of_lt_of_le index_lt le)⟩
    | undo k =>
      obtain ⟨owner, others⟩ := mine (by rw [at_t]; trivial)
      have F := I.fits t owner
      rw [at_t] at F
      obtain ⟨D, lt, down⟩ := F
      cases k with
      | zero =>
        simp only [Core.step, at_t, Option.some.injEq] at st
        subst st
        exact Inv.mine others owner I.utils (show Fits s (.leave false) from ⟨D, fun m => down m (Nat.zero_le _)⟩)
      | succ k =>
        cases at_k : modules[k]? with
        | some m =>
          simp only [Core.step, at_t, at_k, Option.some.injEq] at st
          subst st
          exact Inv.mine (s := s.stop m) others owner (stop_utils I.utils) (undo_next D lt down at_k)
        | none => simp only [Core.step, at_t, at_k, reduceCtorEq] at st
    | leave ok =>
      obtain ⟨owner, others⟩ := mine (by rw [at_t]; trivial)
      have F := I.fits t owner
      rw [at_t] at F
      cases ok with
      | false =>
        simp only [Core.step, at_t, Option.some.injEq] at st
        subst st
        exact Inv.release others I.utils id (.inl ⟨F.1, fun m _ => F.2 m⟩)
      | true =>
        simp only [Core.step, at_t, Option.some.injEq] at st
        subst st
        exact Inv.release (s := { s with passed := update s.passed t true }) others I.utils id
          (.inr ⟨F.inited, F.wins, F.up⟩)
    | out | enter | past | failed =>
      simp only [Core.step, at_t, reduceCtorEq] at st

/-- The invariant holds as long as all calls are in time. -/
lemma Inv.reach (h : machine.Reach InTime s) : Inv s := by
  refine Machine.Reach.inv h (fun s start => ?_) fun s a s' I time st => I.step time st
  obtain ⟨inited, tools, owner, up, utils, pc, wins, passed⟩ := start
  constructor
  case utils => exact utils
  case own =>
    intro t owns
    rw [pc] at owns
    exact owns.elim
  case rest => exact fun _ => .inl ⟨⟨inited, wins, passed⟩, up⟩
  case fits =>
    intro t is
    cases owner.symm.trans is

/-- In every run whose threads try to take the mutex in time, whoever passes the guard finds all modules initialised, no
failed initialisation has let anybody pass, and at most one initialisation succeeds. -/
theorem init_ready (h : machine.Reach InTime s) : Ready s := (Inv.reach h).ready

instance {a : Label} : Decidable (InTime s a) :=
  match a with
  | .tryLock _ =>
    match owner : s.owner with
    | none => decidable_of_iff (s.inited = false ∧ (s.toolsInited = true → s.up .tools = true))
        (by simp [InTime, owner])
    | some _ => decidable_of_iff (∀ m ∈ modules, s.up m = true) (by
        simp only [InTime, owner, State.AllUp]
        refine ⟨fun all m => all m ?_, fun all m _ => all m⟩
        cases m <;> decide)
  | .call _ => isTrue trivial
  | .run _ _ => isTrue trivial

/-- Nothing has happened yet. -/
def start : State := ⟨false, false, false, none, fun _ => false, fun _ => .out, 0, fun _ => false⟩

lemma start_init : machine.init start :=
  ⟨rfl, rfl, rfl, fun _ _ => rfl, rfl, fun _ => rfl, rfl, fun _ => rfl⟩

/-- One thread initialises all modules after another one has failed to initialise the first, and both pass the guard. -/
theorem init_ready_two : ∃ s, machine.Reach InTime s ∧ (s.passed 0 = true ∧ s.passed 1 = true) ∧ Ready s := by
  refine Machine.shown_and ([.call 0, .call 1, .tryLock 0, .run 0 false, .run 0 true, .run 0 true, .tryLock 1] ++
    List.replicate 10 (.run 1 true) ++ [.call 0, .run 1 true]) start_init (by decide +kernel) fun s h _ => ?_
  exact init_ready h

/-- A thread that finds the mutex taken passes the guard before any module is initialised. -/
theorem init_not_ready : ∃ s, machine.Reachable s ∧ ¬ Ready s := by
  refine Machine.shown (P := fun s => s.passed 1 = true ∧ s.up .utils = false)
    [.call 0, .call 1, .tryLock 0, .tryLock 1] start_init (by decide +kernel) fun s h is R => ?_
  cases (R.passed 1 is.1 .utils).symm.trans is.2

end Kupl.Core
