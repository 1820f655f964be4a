import Kupl.Text.Strtol
import Mathlib.Data.List.Induction

/-!
# The configuration (`kupl_config.cpp`)

| source | here |
|---|---|
| `KUPL_CONFIG_INT` and `KUPL_CONFIG_STR` in `kupl_config_var.inc` | `intVars`, `strVars` |
| `get_env_int` | `getEnvInt` |
| `get_env_str` | `getEnvStr` |
| `kupl_config_load` | `kuplConfigLoad` |

Of `errno` it matters whether it is `ERANGE`: nobody clears it, `strtol` sets it, and a message that cannot be printed
sets it to something else. The variables are read in the order of the file.
-/

namespace Kupl.Config
open Text List

/-- The integer variables. -/
inductive IntName where
  | enableVerbose
  | enableHardwareVerbose
  | logLevel
  | displayAffinity
  | enablePriority
  | schedQueueLength
  | executorCount
  | enableYield
  | yieldCount
  | traceTaskbase
  | memcpyMtThreshold
  | memcpySdmaThreshold
  | coresPerSdma
  | kernelConcurrency
  | maxActiveLevels
  | bcastTopoSplit
  | ptraceThreadBufferSize
  | enableHugepages
  | mpoolAlignSize
  deriving DecidableEq

/-- The text variables. -/
inductive StrName where
  | schedPolicy
  | executorWaitPolicy
  | executorBackend
  | procBind
  | places
  | shmType
  | schedMqPlaceqAffinity
  | barrierAlgorithm
  | shmFenceAlgorithm
  | shmBcastAlgorithm
  | shmAllreduceAlgorithm
  | shmAlltoallAlgorithm
  | ptracePath
  | profLevel
  | shmOnPackage
  | shmEnableHugepage
  | enableMpool
  deriving DecidableEq

/-- (C++ `cfg_int`). -/
structure IntVar where
  name : IntName
  defValue : Int
  lower : Int
  upper : Int

/-- (C++ `cfg_str`). -/
structure StrVar where
  name : StrName
  defValue : String

def intVars : List IntVar :=
  [⟨.enableVerbose, 0, 0, 1⟩, ⟨.enableHardwareVerbose, 0, 0, 1⟩, ⟨.logLevel, 2, 0, 4⟩,
    ⟨.displayAffinity, 0, 0, 1⟩,
    ⟨.enablePriority, 0, 0, 1⟩, ⟨.schedQueueLength, 512, 64, 102400⟩, ⟨.executorCount, 0, 0, 1024⟩,
    ⟨.enableYield, 1, 0, 1⟩, ⟨.yieldCount, 2147483647, 1, 2147483647⟩, ⟨.traceTaskbase, 1, 0, 1⟩,
    ⟨.memcpyMtThreshold, 524288, 0, 2147483647⟩, ⟨.memcpySdmaThreshold, 524288, 0, 2147483647⟩,
    ⟨.coresPerSdma, 152, 1, 200⟩, ⟨.kernelConcurrency, 0, 0, 1024⟩, ⟨.maxActiveLevels, 1, 1, 2⟩,
    ⟨.bcastTopoSplit, 16, 1, 512⟩, ⟨.ptraceThreadBufferSize, 3355443, 1, 10000000⟩,
    ⟨.enableHugepages, 0, 0, 1⟩,
    ⟨.mpoolAlignSize, 8, 2, 2048⟩]

def strVars : List StrVar :=
  [⟨.schedPolicy, ""⟩, ⟨.executorWaitPolicy, "active"⟩, ⟨.executorBackend, "omp"⟩, ⟨.procBind, "true"⟩,
    ⟨.places, "cores"⟩, ⟨.shmType, "posix"⟩, ⟨.schedMqPlaceqAffinity, "0-1023"⟩,
    ⟨.barrierAlgorithm, ""⟩,
    ⟨.shmFenceAlgorithm, ""⟩, ⟨.shmBcastAlgorithm, ""⟩, ⟨.shmAllreduceAlgorithm, ""⟩,
    ⟨.shmAlltoallAlgorithm, ""⟩,
    ⟨.ptracePath, "./ptrace/"⟩, ⟨.profLevel, ""⟩, ⟨.shmOnPackage, "n"⟩, ⟨.shmEnableHugepage, "n"⟩,
    ⟨.enableMpool, "n"⟩]

/-- The texts of the environment, whether the message about a variable can be printed, and whether there is memory for
the copy of a text. -/
structure Env where
  getInt : IntName → Option (List Char)
  getStr : StrName → Option (List Char)
  printf : IntName → Bool
  strdup : StrName → Bool

/-- The values that were loaded, whether `errno` is `ERANGE`, and whether there was a load (C++ `g_kupl_config_kv`,
`g_config_inited`). -/
structure State where
  int : IntName → Int
  str : StrName → List Char
  erange : Bool
  inited : Bool

/-- The value of an integer variable, which has its default before, and whether `errno` is `ERANGE`. -/
def getEnvInt (env : Env) (cfg : IntVar) (value : Int) (erange : Bool) : Int × Bool :=
  match env.getInt cfg.name with
  | none => (value, erange)
  | some vStr =>
    let v := strtol vStr
    let erange := erange || v.erange
    if v.rest = vStr ∨ v.rest ≠ [] ∨ erange = true then (value, erange && env.printf cfg.name)
    else if v.value > cfg.upper ∨ v.value < cfg.lower then (value, erange && env.printf cfg.name)
    else (v.value, erange)

/-- The value of a text variable, which has its default before. -/
def getEnvStr (env : Env) (cfg : StrVar) : List Char :=
  match env.getStr cfg.name with
  | none => cfg.defValue.toList
  | some vStr => if env.strdup cfg.name then vStr else cfg.defValue.toList

/-- One of the lines of `KUPL_CONFIG_INT`. -/
def configInt (env : Env) (s : State) (cfg : IntVar) : State :=
  let (value, erange) := getEnvInt env cfg cfg.defValue s.erange
  { s with int := Function.update s.int cfg.name value, erange := erange }

/-- One of the lines of `KUPL_CONFIG_STR`. -/
def configStr (env : Env) (s : State) (cfg : StrVar) : State :=
  { s with str := Function.update s.str cfg.name (getEnvStr env cfg) }

/-- A load; only the first one reads the environment. -/
def kuplConfigLoad (env : Env) (s : State) : State :=
  if s.inited then s else { strVars.foldl (configStr env) (intVars.foldl (configInt env) s) with inited := true }

/-! ### What a variable is to have -/

/-- The number that the text of a variable is, if it is in bounds, and its default otherwise. -/
def IntVar.own (cfg : IntVar) (text : Option (List Char)) : Int :=
  match text with
  | none => cfg.defValue
  | some s =>
    match numeral s with
    | some (n, []) => if cfg.lower ≤ n ∧ n ≤ cfg.upper then n else cfg.defValue
    | _ => cfg.defValue

/-- The bounds are numbers that `strtol` can return. -/
def IntVar.Bounded (cfg : IntVar) : Prop := longMin ≤ cfg.lower ∧ cfg.upper ≤ longMax

instance (cfg : IntVar) : Decidable cfg.Bounded := inferInstanceAs (Decidable (_ ∧ _))

lemma intVars_bounded : ∀ cfg ∈ intVars, cfg.Bounded := by decide

lemma intVars_nodup : (intVars.map IntVar.name).Nodup := by decide

namespace Env
variable (env : Env) (cfg : IntVar)

/-- The text of a variable begins with a number that is no `long`. -/
def OutOfRange : Prop := ∃ s, env.getInt cfg.name = some s ∧ Text.OutOfRange s

/-- No message about a variable, or it can be printed. -/
def Quiet : Prop := env.getInt cfg.name = none ∨ env.printf cfg.name = true

/-- `errno` is `ERANGE` behind some variables: it was before them, or one of them is out of range, and no message has
changed it since. -/
def Poisoned (erange : Bool) (cfgs : List IntVar) : Prop :=
  (erange = true ∧ ∀ cfg ∈ cfgs, env.Quiet cfg) ∨
    ∃ before cfg behind, cfgs = before ++ cfg :: behind ∧ env.OutOfRange cfg ∧
      ∀ cfg' ∈ cfg :: behind, env.Quiet cfg'

end Env

section Variable
variable {env : Env} {cfg : IntVar} {value n : Int} {erange : Bool} {text : List Char}

lemma own_of_bounds (is : numeral text = some (n, [])) (low : cfg.lower ≤ n) (high : n ≤ cfg.upper) :
    cfg.own (some text) = n := by
  rw [IntVar.own]
  rw [is]
  exact if_pos ⟨low, high⟩

lemma own_of_not (not : ∀ n, numeral text = some (n, []) → ¬ (cfg.lower ≤ n ∧ n ≤ cfg.upper)) :
    cfg.own (some text) = cfg.defValue := by
  rw [IntVar.own]
  split
  · rename_i n is
    exact if_neg (not n is)
  · rfl

lemma getEnvInt_value (B : cfg.Bounded) :
    (getEnvInt env cfg cfg.defValue erange).1 = if erange =
      true then cfg.defValue else cfg.own (env.getInt cfg.name) := by
  unfold getEnvInt
  cases env.getInt cfg.name with
  | none => exact (ite_self _).symm
  | some text =>
    dsimp only
    cases erange with
    | true => rw [Bool.true_or, if_pos (.inr (.inr rfl)), if_pos rfl]
    | false =>
      rw [Bool.false_or, if_neg Bool.false_ne_true]
      by_cases good : ∃ n, numeral text = some (n, []) ∧ cfg.lower ≤ n ∧ n ≤ cfg.upper
      · obtain ⟨n, is, low, high⟩ := good
        have long : strtol text = ⟨n, [], false⟩ := strtol_long is (B.1.trans low) (high.trans B.2)
        have some : ¬ ([] = text ∨ ([] : List Char) ≠ [] ∨ false = true) := by
          rintro (same | no | no)
          · exact (numeral_iff.1 is).rest_ne same
          · exact no rfl
          · cases no
        have inside : ¬ (n > cfg.upper ∨ n < cfg.lower) := by omega
        rw [own_of_bounds is low high, long]
        rw [if_neg some, if_neg inside]
      · rw [own_of_not fun n is inside => good ⟨n, is, inside⟩]
        split
        · rfl
        · rename_i read
          push Not at read
          have is := strtol_whole read.1 read.2.1 read.2.2
          split
          · rfl
          · rename_i inside
            push Not at inside
            exact absurd ⟨_, is, inside.2, inside.1⟩ good

lemma getEnvInt_erange :
    (getEnvInt env cfg value erange).2 = true ↔ (erange = true ∨ env.OutOfRange cfg) ∧ env.Quiet cfg := by
  unfold getEnvInt Env.OutOfRange Env.Quiet
  cases isText : env.getInt cfg.name with
  | none => simp
  | some text =>
    have out : (∃ s, some text = some s ∧ OutOfRange s) ↔ (strtol text).erange = true := by
      rw [strtol_erange]
      constructor
      · rintro ⟨s, is, out⟩
        obtain rfl := Option.some.inj is
        exact out
      · exact fun out => ⟨text, rfl, out⟩
    have quiet : (some text = none ∨ env.printf cfg.name = true) ↔ env.printf cfg.name = true :=
      or_iff_right (Option.some_ne_none text)
    rw [out, quiet, ← Bool.or_eq_true, ← Bool.and_eq_true]
    dsimp only
    split
    · rfl
    · rename_i read
      push Not at read
      have none : (erange || (strtol text).erange) = false := eq_false_of_ne_true read.2.2
      split
      · rfl
      · rw [none, Bool.false_and]

end Variable

section Order
variable {env : Env} {s : State} {cfg : IntVar} {cfgs before behind : List IntVar} {name : IntName} {erange : Bool}

lemma poisoned_nil : env.Poisoned erange [] ↔ erange = true := by
  constructor
  · rintro (⟨is, -⟩ | ⟨before, cfg, behind, is, -⟩)
    · exact is
    · exact absurd is.symm (append_ne_nil_of_right_ne_nil before (cons_ne_nil cfg behind))
  · exact fun is => .inl ⟨is, fun _ mem => absurd mem not_mem_nil⟩

lemma poisoned_concat :
    env.Poisoned erange (cfgs ++ [cfg]) ↔ (env.Poisoned erange cfgs ∨ env.OutOfRange cfg) ∧ env.Quiet cfg := by
  constructor
  · rintro (⟨is, quiet⟩ | ⟨before, cfg', behind, is, out, quiet⟩)
    · refine ⟨.inl (.inl ⟨is, fun c mem => quiet c (mem_append_left _ mem)⟩), quiet cfg ?_⟩
      exact mem_append_right _ mem_cons_self
    · obtain rfl | ⟨behind', last, rfl⟩ := eq_nil_or_concat behind
      · obtain ⟨-, same⟩ := append_inj' is rfl
        obtain rfl := head_eq_of_cons_eq same
        exact ⟨.inr out, quiet cfg mem_cons_self⟩
      · rw [concat_eq_append, ← cons_append, ← append_assoc] at is
        obtain ⟨rfl, same⟩ := append_inj' is rfl
        obtain rfl := head_eq_of_cons_eq same
        rw [concat_eq_append, ← cons_append] at quiet
        refine ⟨.inl (.inr ⟨before, cfg', behind', rfl, out, fun c mem => ?_⟩), quiet cfg ?_⟩
        · exact quiet c (mem_append_left _ mem)
        · exact mem_append_right _ mem_cons_self
  · rintro ⟨(⟨is, quiet⟩ | ⟨before, cfg', behind, rfl, out, quiet⟩) | out, last⟩
    · refine .inl ⟨is, fun c mem => ?_⟩
      obtain old | new := mem_append.1 mem
      · exact quiet c old
      · rw [mem_singleton.1 new]
        exact last
    · refine .inr ⟨before, cfg', behind ++ [cfg], by rw [append_assoc, cons_append], out, fun c mem => ?_⟩
      rw [← cons_append] at mem
      obtain old | new := mem_append.1 mem
      · exact quiet c old
      · rw [mem_singleton.1 new]
        exact last
    · refine .inr ⟨cfgs, cfg, [], rfl, out, fun c mem => ?_⟩
      rw [mem_singleton.1 mem]
      exact last

lemma foldl_erange : (cfgs.foldl (configInt env) s).erange = true ↔ env.Poisoned s.erange cfgs := by
  induction cfgs using List.reverseRecOn with
  | nil => exact poisoned_nil.symm
  | append_singleton cfgs cfg ih =>
    rw [foldl_append, foldl_cons, foldl_nil, poisoned_concat, ← ih]
    exact getEnvInt_erange

lemma foldl_of_ne (ne : name ∉ cfgs.map IntVar.name) : (cfgs.foldl (configInt env) s).int name = s.int name := by
  induction cfgs generalizing s with
  | nil => rfl
  | cons cfg cfgs ih =>
    rw [map_cons, mem_cons, not_or] at ne
    rw [foldl_cons, ih ne.2]
    exact Function.update_of_ne ne.1 _ _

lemma foldl_str {l : List StrVar} : (l.foldl (configStr env) s).int = s.int := by
  induction l generalizing s with
  | nil => rfl
  | cons cfg l ih => exact ih

lemma load_int (fresh : s.inited = false) : (kuplConfigLoad env s).int = (intVars.foldl (configInt env) s).int := by
  rw [kuplConfigLoad, fresh, if_neg Bool.false_ne_true]
  exact foldl_str

lemma load_value (env : Env) (fresh : s.inited = false) (place : intVars = before ++ cfg :: behind) :
    (env.Poisoned s.erange before → (kuplConfigLoad env s).int cfg.name = cfg.defValue) ∧
      (¬ env.Poisoned s.erange before → (kuplConfigLoad env s).int cfg.name = cfg.own (env.getInt cfg.name)) := by
  have bounded := intVars_bounded cfg (by rw [place]; exact mem_append_right _ mem_cons_self)
  have once := intVars_nodup
  rw [place, map_append, map_cons] at once
  have later : cfg.name ∉ behind.map IntVar.name := (nodup_cons.1 (nodup_append.1 once).2.1).1
  have value : (kuplConfigLoad env s).int cfg.name =
      (getEnvInt env cfg cfg.defValue (before.foldl (configInt env) s).erange).1 := by
    rw [load_int fresh, place, foldl_append, foldl_cons, foldl_of_ne later]
    exact Function.update_self ..
  rw [value, getEnvInt_value bounded, ← foldl_erange]
  exact ⟨fun poisoned => if_pos poisoned, fun clean => if_neg clean⟩

end Order

/-- A variable gets what its own text says exactly if `errno` is not `ERANGE` when it is read or it is to have its
default anyway; and what two environments that agree on it give it is the same exactly if `errno` is the same. -/
theorem ints_own_iff {env : Env} {s : State} {before behind : List IntVar} {cfg : IntVar} (fresh : s.inited = false)
    (place : intVars = before ++ cfg :: behind) :
    ((kuplConfigLoad env s).int cfg.name = cfg.own (env.getInt cfg.name) ↔
      ¬ env.Poisoned s.erange before ∨ cfg.own (env.getInt cfg.name) = cfg.defValue) ∧
    (∀ text n, env.getInt cfg.name = some text → Numeral text n [] → cfg.lower ≤ n → n ≤ cfg.upper →
      ((kuplConfigLoad env s).int cfg.name = n ↔ ¬ env.Poisoned s.erange before ∨ n = cfg.defValue)) ∧
    ∀ env' s', s'.inited = false → env'.getInt cfg.name = env.getInt cfg.name →
      ((kuplConfigLoad env s).int cfg.name = (kuplConfigLoad env' s').int cfg.name ↔
        (env.Poisoned s.erange before ↔ env'.Poisoned s'.erange before) ∨
          cfg.own (env.getInt cfg.name) = cfg.defValue) := by
  have own : (kuplConfigLoad env s).int cfg.name = cfg.own (env.getInt cfg.name) ↔
      ¬ env.Poisoned s.erange before ∨ cfg.own (env.getInt cfg.name) = cfg.defValue := by
    obtain ⟨bad, good⟩ := load_value env fresh place
    by_cases poisoned : env.Poisoned s.erange before
    · rw [bad poisoned]
      exact ⟨fun is => .inr is.symm, fun h => (h.resolve_left (not_not.2 poisoned)).symm⟩
    · exact ⟨fun _ => .inl poisoned, fun _ => good poisoned⟩
  refine ⟨own, fun text n isText N low high => ?_, fun env' s' fresh' same => ?_⟩
  · rw [isText, own_of_bounds N.numeral_eq low high] at own
    exact own
  · obtain ⟨bad, good⟩ := load_value env fresh place
    obtain ⟨bad', good'⟩ := load_value env' fresh' place
    rw [same] at good'
    by_cases poisoned : env.Poisoned s.erange before
    · rw [bad poisoned]
      by_cases poisoned' : env'.Poisoned s'.erange before
      · rw [bad' poisoned']
        exact ⟨fun _ => .inl (iff_of_true poisoned poisoned'), fun _ => rfl⟩
      · rw [good' poisoned']
        exact ⟨fun is => .inr is.symm, fun h => (h.resolve_left fun iff => poisoned' (iff.1 poisoned)).symm⟩
    · rw [good poisoned]
      by_cases poisoned' : env'.Poisoned s'.erange before
      · rw [bad' poisoned']
        exact ⟨.inr, fun h => h.resolve_left fun iff => poisoned (iff.2 poisoned')⟩
      · rw [good' poisoned']
        exact ⟨fun _ => .inl (iff_of_false poisoned poisoned'), fun _ => rfl⟩

/-- The number of executors as the only variable of the environment, and others before it. -/
def executorEnv (other : Option (List Char)) : Env where
  getInt name := if name = .executorCount then some [' ', '8'] else if name = .enableVerbose then other else none
  getStr _ := none
  printf _ := true
  strdup _ := true

/-- No load yet. -/
def State.start : State := ⟨fun _ => 0, fun _ => [], false, false⟩

/-- A number that is out of bounds does no harm. -/
theorem ints_own_iff_bounds : (kuplConfigLoad (executorEnv (some ['7'])) .start).int .executorCount = 8 ∧
    (kuplConfigLoad (executorEnv (some ['7'])) .start).int .executorCount =
      (kuplConfigLoad (executorEnv none) .start).int .executorCount := by
  have clean {env : Env} (is : ((intVars.take 6).foldl (configInt env) .start).erange = false) :
      ¬ env.Poisoned State.start.erange (intVars.take 6) := by
    rw [← foldl_erange, is]
    exact Bool.false_ne_true
  have bounds : ¬ (executorEnv (some ['7'])).Poisoned _ _ := clean (by decide +kernel)
  have none : ¬ (executorEnv none).Poisoned _ _ := clean (by decide +kernel)
  obtain ⟨-, number, same⟩ := @ints_own_iff (executorEnv (some ['7'])) .start (intVars.take 6) (intVars.drop 7)
    ⟨.executorCount, 0, 0, 1024⟩ rfl rfl
  have N : Numeral [' ', '8'] 8 [] := numeral_iff.1 (by decide +kernel)
  exact ⟨(number [' ', '8'] 8 rfl N (by decide) (by decide)).2 (.inl bounds),
    (same (executorEnv .none) .start rfl rfl).2 (.inl (iff_of_false bounds none))⟩

/-- A number that is out of range for `long` takes the number of executors away. -/
theorem ints_own_not : (kuplConfigLoad (executorEnv none) .start).int .executorCount = 8 ∧
    (kuplConfigLoad (executorEnv (some (List.replicate 20 '9'))) .start).int .executorCount = 0 := by
  decide +kernel

end Kupl.Config
