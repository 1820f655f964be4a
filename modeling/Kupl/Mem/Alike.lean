import Kupl.Mem.Async

/-!
# Mappings that nobody can tell apart

What a program sees of its mappings are the answers of `kupl_mem_is_present` and `kupl_mem_query`, what its requests
return, and the copies that are made. Two systems are alike when every run from one is a run from the other in which
all of this is the same (`Alike`).

Records have no names outside: when the records of a system are renumbered (`Renamed`), nobody can tell
(`alike_of_renamed`).
-/

namespace Kupl.Mem
open Option
open Function (Injective update update_of_ne update_self)

/-! ### What a program sees -/

/-- What a task returns to a request that does it at once (C++ `mem_args->ret`). -/
def Task.result (t : Task) (s : State) (env : Env) : Bool :=
  match t with
  | .copyin args => (s.copyinTask args env).2
  | .copyout args => (s.copyoutTask args env).2

namespace System
variable (s : System)

/-- What a request returns once its mapping is known: nothing yet where the host has the task to do. -/
def answered (ok : Bool) (queue : Option Nat) (submitted : Bool) : Option Bool :=
  if ok then queue.map fun _ => submitted else some false

/-- What a request that ends with a step returns (C++ `kupl_mem_copyin`, `kupl_mem_copyout`). -/
def returned : Label → Option Bool
  | .copyin ddr size flag queue room submitted =>
    if ddr = 0 ∨ size = 0 then some false
    else (s.core.attach ⟨0, ddr, 0, size, flag⟩ room).bind fun r => answered r.2.2 queue submitted
  | .copyout ddr size flag queue submitted =>
    if ddr = 0 then some false else answered (s.core.detach ⟨0, ddr, 0, size, flag⟩).2.2 queue submitted
  | .resume room submitted =>
    match s.host with
    | .wait args queue => answered (s.core.remap args room).2.2 queue submitted
    | _ => none
  | .task env =>
    match s.host with
    | .task t => some (t.result s.core env)
    | _ => none
  | .run .. => none

/-- The copies so far do not matter. -/
def quiet : System := { s with core := { s.core with issued := [] } }

/-- What is seen of a run from one system is seen of it from the other. -/
def AlikeFor : List Label → System → System → Prop
  | [], s, t => s.core.isPresent = t.core.isPresent ∧ s.core.memQuery = t.core.memQuery
  | a :: w, s, t => s.quiet.returned a = t.quiet.returned a ∧
    Option.Rel (fun s' t' => s'.core.issued = t'.core.issued ∧ AlikeFor w s' t') (s.quiet.step a) (t.quiet.step a)

/-- Nobody can tell two systems apart. -/
def Alike (t : System) : Prop := ∀ w, AlikeFor w s t

variable {s}

lemma alikeFor_self (w : List Label) : AlikeFor w s s := by
  induction w generalizing s with
  | nil => exact ⟨rfl, rfl⟩
  | cons a w ih =>
    refine ⟨rfl, ?_⟩
    cases s.quiet.step a with
    | none => exact .none
    | some s' => exact .some ⟨rfl, ih⟩

lemma alike_of_quiet {t : System} (same : s.quiet = t.quiet) : s.Alike t := by
  intro w
  cases w with
  | nil =>
    show s.quiet.core.isPresent = t.quiet.core.isPresent ∧ s.quiet.core.memQuery = t.quiet.core.memQuery
    rw [same]
    exact ⟨rfl, rfl⟩
  | cons a w =>
    have self := alikeFor_self (s := s) (a :: w)
    unfold AlikeFor at self ⊢
    rw [← same]
    exact self

end System

/-! ### Records that are renumbered -/

/-- The arguments of a task whose record has another number. -/
def Args.rename {F : Type} (ρ : Nat → Nat) (args : Args F) : Args F := { args with mem := ρ args.mem }

/-- The records of one state are those of another, under other numbers. -/
structure Renamed (ρ : Nat → Nat) (s t : State) : Prop where
  threshold : t.threshold = s.threshold
  mem : ∀ m < s.made, t.mem (ρ m) = s.mem m
  made : ∀ m, s.made ≤ m → ρ m = t.made + (m - s.made)
  deleted : ∀ m, t.deleted (ρ m) = s.deleted m
  addrMap : ∀ k, t.addrMap.lookup k = (s.addrMap.lookup k).map ρ
  rangeMap : ∀ k, t.rangeMap.lookup k = (s.rangeMap.lookup k).map ρ
  hbwMade : t.hbwMade = s.hbwMade
  freed : t.freed = s.freed
  issued : t.issued = s.issued

/-- The outcomes of a task. -/
structure RenamedPair (ρ : Nat → Nat) (r r' : State × Bool) : Prop where
  state : Renamed ρ r.1 r'.1
  ok : r'.2 = r.2

/-- The outcomes of the first part of a request. -/
structure RenamedTriple {F : Type} (ρ : Nat → Nat) (r r' : State × Args F × Bool) : Prop where
  state : Renamed ρ r.1 r'.1
  ok : r'.2.2 = r.2.2
  args : r.2.2 = true → r'.2.1 = r.2.1.rename ρ

variable {ρ : Nat → Nat} {s t : State} {mem ddr size offset : Nat} {m : KuplMem} {env : Env}

namespace Renamed
variable (R : Renamed ρ s t)
include R

lemma query (I : Inv s) (ddr : Nat) : t.query ddr = (s.query ddr).map fun p => (ρ p.1, p.2) := by
  unfold State.query
  rw [R.addrMap, OrderedMap.lastLe_map R.rangeMap]
  cases s.addrMap.lookup ddr with
  | some mem => rfl
  | none =>
    dsimp only [map_none]
    cases last : s.rangeMap.lastLe ddr with
    | none => rfl
    | some p =>
      have known := (I.base (OrderedMap.lastLe_eq_some.1 last).1).2.1
      dsimp only [map_some]
      rw [R.mem p.2 known]
      split <;> rfl

lemma answers (I : Inv s) : t.isPresent = s.isPresent ∧ t.memQuery = s.memQuery := by
  constructor
  · funext ddr
    unfold State.isPresent
    rw [R.query I]
    cases found : s.query ddr with
    | none => rfl
    | some p =>
      dsimp only [map_some]
      rw [R.mem p.1 (I.query_known found)]
  · funext ddr
    unfold State.memQuery State.hbwAddr
    rw [R.query I]
    cases found : s.query ddr with
    | none => rfl
    | some p =>
      dsimp only [map_some]
      rw [R.mem p.1 (I.query_known found)]

lemma quiet : Renamed ρ { s with issued := [] } { t with issued := [] } :=
  ⟨R.threshold, R.mem, R.made, R.deleted, R.addrMap, R.rangeMap, R.hbwMade, R.freed, rfl⟩

variable (inj : Injective ρ)
include inj

lemma setMem (mem : Nat) (m : KuplMem) : Renamed ρ (s.setMem mem m) (t.setMem (ρ mem) m) := by
  refine ⟨R.threshold, fun x hx => ?_, R.made, R.deleted, R.addrMap, R.rangeMap, R.hbwMade, R.freed, R.issued⟩
  show update t.mem (ρ mem) m (ρ x) = update s.mem mem m x
  by_cases same : x = mem
  · rw [same, update_self, update_self]
  · rw [update_of_ne same, update_of_ne fun h => same (inj h)]
    exact R.mem x hx

lemma map (ddr size : Nat) : Renamed ρ (s.map ddr size) (t.map ddr size) := by
  have new : ρ s.made = t.made := by
    rw [R.made _ le_rfl]
    omega
  have insert {a b : OrderedMap Nat Nat} (same : ∀ k, b.lookup k = (a.lookup k).map ρ) (k : Nat) :
      (b.insert ddr t.made).lookup k = ((a.insert ddr s.made).lookup k).map ρ := by
    by_cases isK : k = ddr
    · subst isK
      rw [Finmap.lookup_insert, Finmap.lookup_insert, map_some, new]
    · rw [Finmap.lookup_insert_of_ne _ isK, Finmap.lookup_insert_of_ne _ isK]
      exact same k
  refine ⟨R.threshold, fun x hx => ?_, fun x hx => ?_, R.deleted, insert R.addrMap, insert R.rangeMap, R.hbwMade,
    R.freed, R.issued⟩
  · show update t.mem t.made _ (ρ x) = update s.mem s.made _ x
    by_cases same : x = s.made
    · rw [same, new, update_self, update_self]
    · rw [update_of_ne same, update_of_ne fun h => same (inj (h.trans new.symm))]
      have : x < s.made + 1 := hx
      exact R.mem x (by omega)
  · have hx : s.made + 1 ≤ x := hx
    show ρ x = t.made + 1 + (x - (s.made + 1))
    rw [R.made x (by omega)]
    omega

lemma unmap (known : mem < s.made) : Renamed ρ (s.unmap mem) (t.unmap (ρ mem)) := by
  have erase {a b : OrderedMap Nat Nat} (same : ∀ k, b.lookup k = (a.lookup k).map ρ) (k : Nat) :
      (b.erase (t.mem (ρ mem)).baseDdr).lookup k = ((a.erase (s.mem mem).baseDdr).lookup k).map ρ := by
    rw [R.mem mem known]
    by_cases isK : k = (s.mem mem).baseDdr
    · rw [isK, Finmap.lookup_erase, Finmap.lookup_erase]
      rfl
    · rw [Finmap.lookup_erase_ne isK, Finmap.lookup_erase_ne isK]
      exact same k
  refine ⟨R.threshold, R.mem, R.made, fun x => ?_, erase R.addrMap, erase R.rangeMap, R.hbwMade, R.freed, R.issued⟩
  show update t.deleted (ρ mem) true (ρ x) = update s.deleted mem true x
  by_cases same : x = mem
  · rw [same, update_self, update_self]
  · rw [update_of_ne same, update_of_ne fun h => same (inj h)]
    exact R.deleted x

lemma alloc (env : Env) (known : mem < s.made) : Option.Rel (Renamed ρ) (s.alloc mem env) (t.alloc (ρ mem) env) := by
  unfold State.alloc
  rw [R.mem mem known]
  split
  · exact .some R
  · cases env.hbw with
    | none => exact .none
    | some addr =>
      have W := R.setMem inj mem { s.mem mem with
        baseHbw := some ⟨s.hbwMade, addr⟩
        pin := decide (s.threshold ≤ (s.mem mem).size) && env.pinned
        refCnt := 0 }
      refine .some ?_
      rw [R.hbwMade, R.threshold]
      exact ⟨W.threshold, W.mem, W.made, W.deleted, W.addrMap, W.rangeMap, rfl, W.freed, W.issued⟩

lemma free (known : mem < s.made) : Renamed ρ (s.free mem) (t.free (ρ mem)) := by
  unfold State.free
  rw [R.mem mem known]
  split
  · exact R
  · have W := R.setMem inj mem { s.mem mem with baseHbw := none, pin := false, refCnt := 0 }
    rw [R.freed]
    exact ⟨W.threshold, W.mem, W.made, W.deleted, W.addrMap, W.rangeMap, W.hbwMade, rfl, W.issued⟩

omit inj in
lemma copy (known : mem < s.made) : Renamed ρ (s.copy mem offset size) (t.copy (ρ mem) offset size) := by
  refine ⟨R.threshold, R.mem, R.made, R.deleted, R.addrMap, R.rangeMap, R.hbwMade, R.freed, ?_⟩
  unfold State.copy
  rw [R.mem mem known, R.freed, R.issued]

lemma dealloc (known : mem < s.made) : Renamed ρ (s.dealloc mem) (t.dealloc (ρ mem)) := by
  have F := R.free inj known
  have known' : mem < (s.free mem).made := known.trans_eq State.made_free.symm
  unfold State.dealloc
  dsimp only
  rw [F.mem mem known']
  split
  · exact F.unmap inj known'
  · exact F

lemma attachTo (args : Args CopyinFlag) (known : args.mem < s.made) :
    RenamedPair ρ (s.attachTo args) (t.attachTo (args.rename ρ)) := by
  have flag : (args.rename ρ).flag = args.flag := rfl
  have mem : (args.rename ρ).mem = ρ args.mem := rfl
  unfold State.attachTo
  rw [flag, mem, R.mem args.mem known]
  cases args.flag with
  | create | copyIn => exact ⟨R.setMem inj _ _, rfl⟩
  | push | other => exact ⟨R, rfl⟩

lemma remap (args : Args CopyinFlag) (room : Bool) : RenamedTriple ρ (s.remap args room) (t.remap args room) := by
  have new : ρ s.made = t.made := by
    rw [R.made _ le_rfl]
    omega
  cases room with
  | false => exact ⟨R, rfl, nofun⟩
  | true =>
    have A := (R.map inj args.ddr args.size).attachTo inj { args with mem := s.made, offset := 0 }
      (Nat.lt_succ_self s.made)
    have renamed : Args.rename ρ { args with mem := s.made, offset := 0 } =
        { args with mem := t.made, offset := 0 } := by
      rw [Args.rename, new]
    rw [renamed] at A
    exact ⟨A.state, A.ok, fun _ => renamed.symm⟩

lemma attach (I : Inv s) (args : Args CopyinFlag) (room : Bool) :
    Option.Rel (RenamedTriple ρ) (s.attach args room) (t.attach args room) := by
  unfold State.attach
  rw [R.query I]
  cases found : s.query args.ddr with
  | none => exact .some (R.remap inj args room)
  | some p =>
    have known := I.query_known found
    dsimp only [map_some]
    rw [R.mem p.1 known]
    split
    · exact .none
    · have A := R.attachTo inj { args with mem := p.1, offset := p.2 } known
      exact .some ⟨A.state, A.ok, fun _ => rfl⟩

lemma detach (I : Inv s) (args : Args CopyoutFlag) : RenamedTriple ρ (s.detach args) (t.detach args) := by
  unfold State.detach
  rw [R.query I]
  cases found : s.query args.ddr with
  | none => exact ⟨R, rfl, nofun⟩
  | some p =>
    have known := I.query_known found
    dsimp only [map_some]
    rw [R.mem p.1 known]
    cases args.flag with
    | delete | out | deleteFinalize | outFinalize => exact ⟨R.setMem inj _ _, rfl, fun _ => rfl⟩
    | pull => exact ⟨R, rfl, fun _ => rfl⟩
    | other => exact ⟨R, rfl, nofun⟩

lemma copyinTask (args : Args CopyinFlag) (env : Env) (known : args.mem < s.made) :
    RenamedPair ρ (s.copyinTask args env) (t.copyinTask (args.rename ρ) env) := by
  unfold State.copyinTask
  dsimp only [Args.rename]
  obtain ⟨no, no'⟩ | ⟨s', t', got, got', W⟩ := rel_cases (R.alloc inj env known)
  · rw [no, no']
    exact ⟨R, rfl⟩
  · rw [got, got']
    have known' : args.mem < s'.made := known.trans_eq (State.alloc_mem got).2.2.1.symm
    dsimp only
    rw [W.mem args.mem known']
    cases args.flag with
    | create => exact ⟨W.setMem inj _ _, rfl⟩
    | copyIn =>
      dsimp only
      split
      · exact ⟨(W.setMem inj _ _).copy known', rfl⟩
      · exact ⟨W.setMem inj _ _, rfl⟩
    | push => exact ⟨W.copy known', rfl⟩
    | other => exact ⟨W, rfl⟩

lemma copyoutTask (args : Args CopyoutFlag) (env : Env) (known : args.mem < s.made) :
    RenamedPair ρ (s.copyoutTask args env) (t.copyoutTask (args.rename ρ) env) := by
  unfold State.copyoutTask
  dsimp only [Args.rename]
  rw [R.mem args.mem known]
  split
  · exact ⟨R, rfl⟩
  have W (c : Int) := R.setMem inj args.mem { s.mem args.mem with refCnt := c }
  cases args.flag with
  | pull => exact ⟨R.copy known, rfl⟩
  | delete =>
    dsimp only
    split
    · exact ⟨(W _).dealloc inj known, rfl⟩
    · exact ⟨W _, rfl⟩
  | out =>
    dsimp only
    split
    · exact ⟨((W _).copy known).dealloc inj known, rfl⟩
    · exact ⟨W _, rfl⟩
  | outFinalize => exact ⟨((W _).copy known).dealloc inj known, rfl⟩
  | deleteFinalize => exact ⟨(W _).dealloc inj known, rfl⟩
  | other => exact ⟨R, rfl⟩

end Renamed

def Task.rename (ρ : Nat → Nat) : Task → Task
  | .copyin args => .copyin (args.rename ρ)
  | .copyout args => .copyout (args.rename ρ)

/-- What the host has to do, with records under other numbers. A request that waits has no record. -/
def Host.rename (ρ : Nat → Nat) : Host → Host
  | .idle => .idle
  | .wait args queue => .wait args queue
  | .task t => .task (t.rename ρ)

/-- The records of one system are those of another, under other numbers. -/
structure RenamedSystem (ρ : Nat → Nat) (s t : System) : Prop where
  core : Renamed ρ s.core t.core
  queues : ∀ q, t.queues q = (s.queues q).map (Task.rename ρ)
  table : t.table = s.table
  host : t.host = s.host.rename ρ

lemma Renamed.run (R : Renamed ρ s t) (inj : Injective ρ) {todo : Task} (known : todo.mem < s.made) :
    Renamed ρ (todo.run s env) ((todo.rename ρ).run t env) ∧ (todo.rename ρ).result t env = todo.result s env := by
  cases todo with
  | copyin args =>
    have C := R.copyinTask inj args env known
    exact ⟨C.state, C.ok⟩
  | copyout args =>
    have C := R.copyoutTask inj args env known
    exact ⟨C.state, C.ok⟩

lemma Task.mem_rename (todo : Task) : (todo.rename ρ).mem = ρ todo.mem := by
  cases todo with
  | copyin args | copyout args => rfl

namespace RenamedSystem
variable {s t : System} {todo : Task} {queue : Option Nat} {submitted : Bool} {a : Label}

lemma quiet (R : RenamedSystem ρ s t) : RenamedSystem ρ s.quiet t.quiet :=
  ⟨R.core.quiet, R.queues, R.table, R.host⟩

lemma submit (R : RenamedSystem ρ s t) (todo : Task) :
    RenamedSystem ρ (s.submit todo queue submitted) (t.submit (todo.rename ρ) queue submitted) := by
  cases queue with
  | none => exact ⟨R.core, R.queues, R.table, rfl⟩
  | some q =>
    cases submitted with
    | false => exact ⟨R.core, R.queues, R.table, rfl⟩
    | true =>
      refine ⟨R.core, fun q' => ?_, R.table, rfl⟩
      show update t.queues q (t.queues q ++ [todo.rename ρ]) q' =
        (update s.queues q (s.queues q ++ [todo]) q').map (Task.rename ρ)
      by_cases same : q' = q
      · rw [same, update_self, update_self, R.queues, List.map_append]
        rfl
      · rw [update_of_ne same, update_of_ne same, R.queues]

lemma counted (R : RenamedSystem ρ s t) {r r' : State × Args CopyinFlag × Bool} (rr : RenamedTriple ρ r r') :
    RenamedSystem ρ (s.counted r queue submitted) (t.counted r' queue submitted) := by
  unfold System.counted
  cases ok : r.2.2 with
  | false =>
    rw [rr.ok, ok]
    exact ⟨rr.state, R.queues, R.table, rfl⟩
  | true =>
    have W : RenamedSystem ρ { s with core := r.1 } { t with core := r'.1 } :=
      ⟨rr.state, R.queues, R.table, R.host⟩
    rw [rr.ok, ok, rr.args ok]
    exact W.submit (.copyin r.2.1)

variable (R : RenamedSystem ρ s t) (inj : Injective ρ)
include R inj

lemma copyin (T : Tidy s) {ddr size : Nat} {flag : CopyinFlag} {room : Bool} :
    Option.Rel (RenamedSystem ρ) (s.copyin ddr size flag queue room submitted)
      (t.copyin ddr size flag queue room submitted) := by
  unfold System.copyin
  rw [R.host]
  cases s.host with
  | wait args queue | task todo => exact .none
  | idle =>
    dsimp only [Host.rename]
    split
    · exact .some R
    obtain ⟨no, no'⟩ | ⟨r, r', got, got', rr⟩ :=
      rel_cases (R.core.attach inj T.inv ⟨0, ddr, 0, size, flag⟩ room)
    · rw [no, no']
      exact .some ⟨R.core, R.queues, R.table, rfl⟩
    · rw [got, got']
      exact .some (R.counted rr)

lemma resume {room : Bool} : Option.Rel (RenamedSystem ρ) (s.resume room submitted) (t.resume room submitted) := by
  unfold System.resume
  rw [R.host]
  cases s.host with
  | idle | task todo => exact .none
  | wait args queue =>
    have empty : (∀ q ∈ t.table, t.queues q = []) ↔ ∀ q ∈ s.table, s.queues q = [] := by
      simp only [R.table, R.queues, List.map_eq_nil_iff]
    dsimp only [Host.rename]
    split
    · rename_i all
      rw [if_pos (empty.2 all)]
      exact .some (R.counted (R.core.remap inj args room))
    · rename_i some
      rw [if_neg (mt empty.1 some)]
      exact .none

lemma copyout (T : Tidy s) {ddr size : Nat} {flag : CopyoutFlag} :
    Option.Rel (RenamedSystem ρ) (s.copyout ddr size flag queue submitted)
      (t.copyout ddr size flag queue submitted) := by
  unfold System.copyout
  rw [R.host]
  cases s.host with
  | wait args queue | task todo => exact .none
  | idle =>
    dsimp only [Host.rename]
    split
    · exact .some R
    have D := R.core.detach inj T.inv ⟨0, ddr, 0, size, flag⟩
    cases ok : (s.core.detach ⟨0, ddr, 0, size, flag⟩).2.2 with
    | false =>
      rw [D.ok, ok]
      exact .some ⟨D.state, R.queues, R.table, rfl⟩
    | true =>
      have W : RenamedSystem ρ { s with core := (s.core.detach ⟨0, ddr, 0, size, flag⟩).1 }
        { t with core := (t.core.detach ⟨0, ddr, 0, size, flag⟩).1 } := ⟨D.state, R.queues, R.table, R.host⟩
      rw [D.ok, ok, D.args ok]
      exact .some (W.submit (.copyout (s.core.detach ⟨0, ddr, 0, size, flag⟩).2.1))

lemma step (T : Tidy s) : Option.Rel (RenamedSystem ρ) (s.step a) (t.step a) := by
  cases a with
  | copyin ddr size flag queue room submitted => exact R.copyin inj T
  | copyout ddr size flag queue submitted => exact R.copyout inj T
  | resume room submitted => exact R.resume inj
  | task env =>
    show Option.Rel _ (s.task env) (t.task env)
    unfold System.task
    rw [R.host]
    cases isHost : s.host with
    | idle | wait args queue => exact .none
    | task todo =>
      have known := T.known todo (.inl isHost)
      dsimp only [Host.rename]
      rw [Task.mem_rename, R.core.deleted]
      split
      · exact .none
      · exact .some ⟨(R.core.run inj known).1, R.queues, R.table, rfl⟩
  | run queue env =>
    show Option.Rel _ (s.run queue env) (t.run queue env)
    unfold System.run
    rw [R.queues]
    cases isQueue : s.queues queue with
    | nil => exact .none
    | cons todo ts =>
      have here : todo ∈ s.queues queue := by
        rw [isQueue]
        exact List.mem_cons_self
      have known := T.known todo (.inr ⟨queue, here⟩)
      rw [List.map_cons]
      dsimp only
      rw [Task.mem_rename, R.core.deleted]
      split
      · exact .none
      refine .some ⟨(R.core.run inj known).1, fun q => ?_, R.table, R.host⟩
      show update t.queues queue (ts.map (Task.rename ρ)) q = (update s.queues queue ts q).map (Task.rename ρ)
      by_cases same : q = queue
      · rw [same, update_self, update_self]
      · rw [update_of_ne same, update_of_ne same, R.queues]

lemma returned (T : Tidy s) : t.returned a = s.returned a := by
  cases a with
  | copyin ddr size flag queue room submitted =>
    unfold System.returned
    dsimp only
    split
    · rfl
    obtain ⟨no, no'⟩ | ⟨r, r', got, got', rr⟩ :=
      rel_cases (R.core.attach inj T.inv ⟨0, ddr, 0, size, flag⟩ room)
    · rw [no, no']
    · rw [got, got']
      dsimp only [bind_some]
      rw [rr.ok]
  | copyout ddr size flag queue submitted =>
    unfold System.returned
    dsimp only
    rw [(R.core.detach inj T.inv _).ok]
  | resume room submitted =>
    unfold System.returned
    rw [R.host]
    cases s.host with
    | idle | task todo => rfl
    | wait args queue =>
      dsimp only [Host.rename]
      rw [(R.core.remap inj args room).ok]
  | task env =>
    unfold System.returned
    rw [R.host]
    cases isHost : s.host with
    | idle | wait args queue => rfl
    | task todo =>
      dsimp only [Host.rename]
      rw [(R.core.run inj (T.known todo (.inl isHost))).2]
  | run queue env => rfl

end RenamedSystem

lemma Tidy.quiet {s : System} (T : Tidy s) : Tidy s.quiet := ⟨T.inv.quiet, T.known, T.waits⟩

/-- Nobody can tell numbers of records apart. -/
theorem alike_of_renamed {s t : System} (R : RenamedSystem ρ s t) (inj : Injective ρ) (T : Tidy s) : s.Alike t := by
  intro w
  induction w generalizing s t with
  | nil => exact ⟨(R.core.answers T.inv).1.symm, (R.core.answers T.inv).2.symm⟩
  | cons a w ih =>
    refine ⟨(R.quiet.returned inj T.quiet).symm, ?_⟩
    obtain ⟨no, no'⟩ | ⟨s', t', got, got', R'⟩ := rel_cases (R.quiet.step inj T.quiet (a := a))
    · rw [no, no']
      exact .none
    · rw [got, got']
      exact .some ⟨R'.core.issued.symm, ih R' (T.quiet.step got)⟩

end Kupl.Mem
