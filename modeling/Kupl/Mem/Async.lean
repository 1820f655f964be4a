import Kupl.Mem.Records

/-!
# Requests on asynchronous queues (`kupl_mem.cpp`)

| source | here |
|---|---|
| `kupl_mem_copyin`, `kupl_mem_copyout` | `Label.copyin`, `Label.copyout` |
| the rest of `mem_attach` after `kupl_queue_wait_all` | `Label.resume` |
| `copyin_task`, `copyout_task` on the host, on a queue | `Label.task`, `Label.run` |

The host thread looks a mapping up and counts it, and the tasks run later, those of one queue in order and those of
different queues in any order. `kupl_queue_wait_all` waits for the queues of `g_queue_table` only, the ones that were
made with `kupl_queue_acquire`. A task whose record is deleted has no behaviour.
-/

namespace Kupl.Mem
open Function (update update_of_ne update_self)

inductive Task where
  | copyin (args : Args CopyinFlag)
  | copyout (args : Args CopyoutFlag)

namespace Task

/-- The record that a task works on. -/
def mem : Task → Nat
  | .copyin args => args.mem
  | .copyout args => args.mem

/-- What a task does. -/
def run (t : Task) (s : State) (env : Env) : State :=
  match t with
  | .copyin args => (s.copyinTask args env).1
  | .copyout args => (s.copyoutTask args env).1

def Deletes (t : Task) (s : State) : Prop :=
  match t with
  | .copyin _ => False
  | .copyout args => (s.mem args.mem).baseHbw ≠ none ∧ (s.mem args.mem).attCnt = 0 ∧
    ((args.flag = .delete ∨ args.flag = .out) ∧ (s.mem args.mem).refCnt = 1 ∨
      args.flag = .deleteFinalize ∨ args.flag = .outFinalize)

end Task

/-- What the host thread does: nothing, it waits for all queues within a request, or it has a task to do itself. -/
inductive Host where
  | idle
  | wait (args : Args CopyinFlag) (queue : Option Nat)
  | task (t : Task)

/-- The records, the queues with their tasks, the queues in the table, and the host thread. -/
structure System where
  core : State
  queues : Nat → List Task
  table : List Nat
  host : Host

/-- What the host thread or a queue does. A request on no queue, or on a synchronous one, is a task of the host
itself; a request on a queue may fail to be submitted. -/
inductive Label where
  | copyin (ddr size : Nat) (flag : CopyinFlag) (queue : Option Nat) (room submitted : Bool)
  | copyout (ddr size : Nat) (flag : CopyoutFlag) (queue : Option Nat) (submitted : Bool)
  | resume (room submitted : Bool)
  | task (env : Env)
  | run (queue : Nat) (env : Env)

namespace System
variable (s : System)

/-- The task of a request goes to the host or to its queue. -/
def submit (t : Task) (queue : Option Nat) (submitted : Bool) : System :=
  match queue with
  | none => { s with host := .task t }
  | some q =>
    if submitted then { s with host := .idle, queues := update s.queues q (s.queues q ++ [t]) }
    else { s with host := .idle }

def counted (r : State × Args CopyinFlag × Bool) (queue : Option Nat) (submitted : Bool) : System :=
  if r.2.2 then { s with core := r.1 }.submit (.copyin r.2.1) queue submitted
  else { s with core := r.1, host := .idle }

/-- A request of the host thread (C++ `kupl_mem_copyin`). -/
def copyin (ddr size : Nat) (flag : CopyinFlag) (queue : Option Nat) (room submitted : Bool) : Option System :=
  match s.host with
  | .idle =>
    if ddr = 0 ∨ size = 0 then some s
    else
      match s.core.attach ⟨0, ddr, 0, size, flag⟩ room with
      | none => some { s with host := .wait ⟨0, ddr, 0, size, flag⟩ queue }
      | some r => some (s.counted r queue submitted)
  | _ => none

/-- All queues of the table are empty, and the request goes on. -/
def resume (room submitted : Bool) : Option System :=
  match s.host with
  | .wait args queue =>
    if ∀ q ∈ s.table, s.queues q = [] then some (s.counted (s.core.remap args room) queue submitted) else none
  | _ => none

/-- A request of the host thread (C++ `kupl_mem_copyout`). -/
def copyout (ddr size : Nat) (flag : CopyoutFlag) (queue : Option Nat) (submitted : Bool) : Option System :=
  match s.host with
  | .idle =>
    if ddr = 0 then some s
    else
      let r := s.core.detach ⟨0, ddr, 0, size, flag⟩
      if r.2.2 then some ({ s with core := r.1 }.submit (.copyout r.2.1) queue submitted)
      else some { s with core := r.1 }
  | _ => none

def task (env : Env) : Option System :=
  match s.host with
  | .task t => if s.core.deleted t.mem then none else some { s with core := t.run s.core env, host := .idle }
  | _ => none

/-- A queue does its first task. -/
def run (queue : Nat) (env : Env) : Option System :=
  match s.queues queue with
  | [] => none
  | t :: ts =>
    if s.core.deleted t.mem then none
    else some { s with core := t.run s.core env, queues := update s.queues queue ts }

def step (s : System) : Label → Option System
  | .copyin ddr size flag queue room submitted => s.copyin ddr size flag queue room submitted
  | .copyout ddr size flag queue submitted => s.copyout ddr size flag queue submitted
  | .resume room submitted => s.resume room submitted
  | .task env => s.task env
  | .run queue env => s.run queue env

/-- Nothing is mapped, and no task is waiting. -/
structure Init : Prop where
  core : s.core.Init
  queues : ∀ q, s.queues q = []
  host : s.host = .idle

end System

/-- Runs of a host thread and its queues. -/
def asyncMachine : Machine System Label where
  init := System.Init
  step := System.step

variable {s s' : State} {mem k : Nat} {env : Env} {t : Task}

/-- What a task, or a request that is done with its mapping, leaves of the maps. -/
structure Within (s s' : State) : Prop where
  made : s'.made = s.made
  size : ∀ mem, (s'.mem mem).size = (s.mem mem).size
  base : ∀ mem, (s'.mem mem).baseDdr = (s.mem mem).baseDdr

namespace Within

lemma refl : Within s s := ⟨rfl, fun _ => rfl, fun _ => rfl⟩

lemma trans {s''} (w : Within s s') (w' : Within s' s'') : Within s s'' :=
  ⟨w'.made.trans w.made, fun mem => (w'.size mem).trans (w.size mem), fun mem => (w'.base mem).trans (w.base mem)⟩

lemma setMem {m : KuplMem} (size : m.size = (s.mem mem).size) (base : m.baseDdr = (s.mem mem).baseDdr) :
    Within s (s.setMem mem m) :=
  ⟨rfl, fun _ => State.mem_setMem (f := (·.size)) size, fun _ => State.mem_setMem (f := (·.baseDdr)) base⟩

lemma copy {offset size : Nat} (w : Within s s') : Within s (s'.copy mem offset size) := ⟨w.made, w.size, w.base⟩

lemma free : Within s (s.free mem) := by
  rw [State.free]
  split
  · exact refl
  · exact ⟨rfl, fun _ => State.mem_setMem (f := (·.size)) rfl, fun _ => State.mem_setMem (f := (·.baseDdr)) rfl⟩

lemma dealloc : Within s (s.dealloc mem) := by
  have w : Within s (s.free mem) := free
  rw [State.dealloc]
  split
  · exact ⟨w.made, w.size, w.base⟩
  · exact w

lemma alloc (h : s.alloc mem env = some s') : Within s s' := by
  rw [State.alloc] at h
  split at h
  · cases h
    exact refl
  · cases isHbw : env.hbw with
    | none =>
      rw [isHbw] at h
      cases h
    | some addr =>
      rw [isHbw] at h
      cases h
      exact ⟨rfl, fun _ => State.mem_setMem (f := (·.size)) rfl, fun _ => State.mem_setMem (f := (·.baseDdr)) rfl⟩

lemma attachTo {args : Args CopyinFlag} : Within s (s.attachTo args).1 := by
  rw [State.attachTo]
  cases args.flag with
  | create | copyIn => exact setMem rfl rfl
  | push | other => exact refl

lemma detach {args : Args CopyoutFlag} : Within s (s.detach args).1 := by
  rw [State.detach]
  cases s.query args.ddr with
  | none => exact refl
  | some p =>
    cases args.flag with
    | delete | out | deleteFinalize | outFinalize => exact setMem rfl rfl
    | pull | other => exact refl

end Within

namespace State

lemma dealloc_maps (has : (s.mem mem).attCnt = 0) : (s.dealloc mem).rangeMap = s.rangeMap.erase (s.mem mem).baseDdr ∧
    (s.dealloc mem).deleted = update s.deleted mem true := by
  have free : ((s.free mem).mem mem).attCnt = (s.mem mem).attCnt ∧
      ((s.free mem).mem mem).baseDdr = (s.mem mem).baseDdr ∧ (s.free mem).rangeMap = s.rangeMap ∧
      (s.free mem).deleted = s.deleted := by
    rw [State.free]
    split
    · exact ⟨rfl, rfl, rfl, rfl⟩
    · have self {m : KuplMem} : (s.setMem mem m).mem mem = m := mem_self
      rw [self]
      exact ⟨rfl, rfl, rfl, rfl⟩
  obtain ⟨att, base, maps, deleted⟩ := free
  rw [dealloc, if_pos (att.trans has)]
  refine ⟨?_, ?_⟩
  · show (s.free mem).rangeMap.erase ((s.free mem).mem mem).baseDdr = _
    rw [maps, base]
  · show update (s.free mem).deleted mem true = _
    rw [deleted]

lemma dealloc_stays (ne : (s.mem mem).attCnt ≠ 0) :
    (s.dealloc mem).rangeMap = s.rangeMap ∧ (s.dealloc mem).deleted = s.deleted := by
  have free : ((s.free mem).mem mem).attCnt = (s.mem mem).attCnt ∧ (s.free mem).rangeMap = s.rangeMap ∧
      (s.free mem).deleted = s.deleted := by
    rw [State.free]
    split
    · exact ⟨rfl, rfl, rfl⟩
    · have self {m : KuplMem} : (s.setMem mem m).mem mem = m := mem_self
      rw [self]
      exact ⟨rfl, rfl, rfl⟩
  obtain ⟨att, maps, deleted⟩ := free
  rw [dealloc, if_neg (by rw [att]; exact ne)]
  exact ⟨maps, deleted⟩

end State

namespace Task

lemma within : Within s (t.run s env) := by
  cases t with
  | copyin args =>
    show Within s (s.copyinTask args env).1
    rw [State.copyinTask]
    cases got : s.alloc args.mem env with
    | none => exact .refl
    | some s' =>
      have w := Within.alloc got
      have counted (c : Int) : Within s (s'.setMem args.mem { s'.mem args.mem with refCnt := c }) :=
        w.trans (.setMem rfl rfl)
      cases args.flag with
      | create => exact counted _
      | copyIn =>
        dsimp only
        split
        · exact (counted _).copy
        · exact counted _
      | push => exact w.copy
      | other => exact w
  | copyout args =>
    have counted (c : Int) : Within s (s.setMem args.mem { s.mem args.mem with refCnt := c }) := .setMem rfl rfl
    show Within s (s.copyoutTask args env).1
    rw [State.copyoutTask]
    split
    · exact .refl
    cases args.flag with
    | pull => exact Within.refl.copy
    | delete =>
      dsimp only
      split
      · exact (counted _).trans .dealloc
      · exact counted _
    | out =>
      dsimp only
      split
      · exact (counted _).copy.trans .dealloc
      · exact counted _
    | outFinalize => exact (counted _).copy.trans .dealloc
    | deleteFinalize => exact (counted _).trans .dealloc
    | other => exact .refl

lemma run_stays (env : Env) (stays : ¬ t.Deletes s) : (t.run s env).rangeMap = s.rangeMap ∧
    (t.run s env).deleted = s.deleted := by
  cases t with
  | copyin args =>
    show (s.copyinTask args env).1.rangeMap = _ ∧ (s.copyinTask args env).1.deleted = _
    rw [State.copyinTask]
    cases got : s.alloc args.mem env with
    | none => exact ⟨rfl, rfl⟩
    | some s' =>
      have maps : s'.rangeMap = s.rangeMap ∧ s'.deleted = s.deleted := by
        rw [State.alloc] at got
        split at got
        · cases got
          exact ⟨rfl, rfl⟩
        · cases isHbw : env.hbw with
          | none =>
            rw [isHbw] at got
            cases got
          | some addr =>
            rw [isHbw] at got
            cases got
            exact ⟨rfl, rfl⟩
      cases args.flag with
      | create | push | other => exact maps
      | copyIn =>
        dsimp only
        split
        · exact maps
        · exact maps
  | copyout args =>
    show (s.copyoutTask args env).1.rangeMap = _ ∧ (s.copyoutTask args env).1.deleted = _
    rw [State.copyoutTask]
    split
    · exact ⟨rfl, rfl⟩
    rename_i has
    have counted (c : Int) (last : (args.flag = .delete ∨ args.flag = .out) ∧ (s.mem args.mem).refCnt = 1 ∨
        args.flag = .deleteFinalize ∨ args.flag = .outFinalize) :
        ((s.setMem args.mem { s.mem args.mem with refCnt := c }).mem args.mem).attCnt ≠ 0 := by
      rw [State.mem_self]
      exact fun zero => stays ⟨has, zero, last⟩
    cases isFlag : args.flag with
    | pull | other => exact ⟨rfl, rfl⟩
    | delete =>
      dsimp only
      split
      · rename_i one
        exact State.dealloc_stays (counted _ (.inl ⟨.inl isFlag, one⟩))
      · exact ⟨rfl, rfl⟩
    | out =>
      dsimp only
      split
      · rename_i one
        exact State.dealloc_stays (counted _ (.inl ⟨.inr isFlag, one⟩))
      · exact ⟨rfl, rfl⟩
    | outFinalize => exact State.dealloc_stays (counted _ (.inr (.inr isFlag)))
    | deleteFinalize => exact State.dealloc_stays (counted _ (.inr (.inl isFlag)))

lemma run_deletes (env : Env) (gone : t.Deletes s) : (t.run s env).rangeMap = s.rangeMap.erase (s.mem t.mem).baseDdr ∧
    (t.run s env).deleted = update s.deleted t.mem true := by
  cases t with
  | copyin args => exact gone.elim
  | copyout args =>
    obtain ⟨has, zero, last⟩ := gone
    have counted (c : Int) : ((s.setMem args.mem { s.mem args.mem with refCnt := c }).mem args.mem).attCnt = 0 ∧
        ((s.setMem args.mem { s.mem args.mem with refCnt := c }).mem args.mem).baseDdr = (s.mem args.mem).baseDdr := by
      rw [State.mem_self]
      exact ⟨zero, rfl⟩
    have taken {u : State} (maps : u.rangeMap = s.rangeMap ∧ u.deleted = s.deleted)
        (att : (u.mem args.mem).attCnt = 0 ∧ (u.mem args.mem).baseDdr = (s.mem args.mem).baseDdr) :
        (u.dealloc args.mem).rangeMap = s.rangeMap.erase (s.mem args.mem).baseDdr ∧
          (u.dealloc args.mem).deleted = update s.deleted args.mem true := by
      obtain ⟨range, deleted⟩ := State.dealloc_maps att.1
      rw [range, deleted, maps.1, maps.2, att.2]
      exact ⟨rfl, rfl⟩
    show (s.copyoutTask args env).1.rangeMap = _ ∧ (s.copyoutTask args env).1.deleted = _
    rw [State.copyoutTask]
    rw [if_neg has]
    obtain ⟨isFlag | isFlag, one⟩ | isFlag | isFlag := last
    · rw [isFlag]
      rw [if_pos one]
      exact taken ⟨rfl, rfl⟩ (counted _)
    · rw [isFlag]
      dsimp only
      rw [if_pos one]
      exact taken ⟨rfl, rfl⟩ (counted _)
    · rw [isFlag]
      exact taken ⟨rfl, rfl⟩ (counted _)
    · rw [isFlag]
      exact taken ⟨rfl, rfl⟩ (counted _)

lemma inv (I : Inv s) (known : t.mem < s.made) : Inv (t.run s env) := by
  cases t with
  | copyin args => exact I.copyinTask known
  | copyout args => exact I.copyoutTask known

lemma run_lookup {mem : Nat} (h : (t.run s env).rangeMap.lookup k = some mem) : s.rangeMap.lookup k = some mem := by
  by_cases gone : t.Deletes s
  · rw [(run_deletes env gone).1] at h
    have ne : k ≠ (s.mem t.mem).baseDdr := by
      rintro rfl
      rw [Finmap.lookup_erase] at h
      cases h
    rw [Finmap.lookup_erase_ne ne] at h
    exact h
  · rw [(run_stays env gone).1] at h
    exact h

end Task

namespace System

/-- A task that was submitted and has not run. -/
def Pending (s : System) (t : Task) : Prop := s.host = .task t ∨ ∃ q, t ∈ s.queues q

/-- The task that a step runs. -/
def next (s : System) : Label → Option Task
  | .run queue _ => (s.queues queue).head?
  | .task _ =>
    match s.host with
    | .task t => some t
    | _ => none
  | _ => none

/-- A task that is pending besides the one that a step runs. -/
def Others (s : System) : Label → Task → Prop
  | .run queue _, t => t ∈ (s.queues queue).tail ∨ (∃ q, q ≠ queue ∧ t ∈ s.queues q) ∨ s.host = .task t
  | .task _, t => ∃ q, t ∈ s.queues q
  | _, _ => False

/-- The step makes a record for an address: no record has it, or all queues of the table were waited for. -/
def Maps (s : System) : Label → Nat → Nat → Prop
  | .copyin ddr size _ _ room _, ddr', size' => ddr ≠ 0 ∧ size ≠ 0 ∧ s.core.query ddr = none ∧ room = true ∧
    ddr' = ddr ∧ size' = size
  | .resume room _, ddr', size' => ∃ args queue, s.host = .wait args queue ∧ room = true ∧
    ddr' = args.ddr ∧ size' = args.size
  | _, _, _ => False

/-- What a step can do. -/
inductive Does (s : System) (a : Label) (s' : System) : Prop where
  | stay (core : s'.core = s.core) (pending : ∀ t, s'.Pending t → s.Pending t) (none : ∀ d n, ¬ s.Maps a d n)
  | attach (args : Args CopyinFlag) (found : s.core.query args.ddr = some (args.mem, args.offset))
      (core : s'.core = (s.core.attachTo args).1)
      (pending : ∀ t, s'.Pending t → s.Pending t ∨ t = .copyin args) (none : ∀ d n, ¬ s.Maps a d n)
  | remap (args : Args CopyinFlag) (isMem : args.mem = s.core.made) (maps : s.Maps a args.ddr args.size)
      (only : ∀ d n, s.Maps a d n → d = args.ddr ∧ n = args.size)
      (core : s'.core = ((s.core.map args.ddr args.size).attachTo args).1)
      (pending : ∀ t, s'.Pending t → s.Pending t ∨ t = .copyin args)
  | detach (args : Args CopyoutFlag) (found : s.core.query args.ddr = some (args.mem, args.offset))
      (core : ∃ args, s'.core = (s.core.detach args).1)
      (pending : ∀ t, s'.Pending t → s.Pending t ∨ t = .copyout args) (none : ∀ d n, ¬ s.Maps a d n)
  | run (t : Task) (env : Env) (next : s.next a = some t) (pending : s.Pending t)
      (core : s'.core = t.run s.core env) (others : ∀ t, s'.Pending t → s.Others a t)
      (none : ∀ d n, ¬ s.Maps a d n)

variable {s s' : System} {a : Label}

lemma Others.pending (h : s.Others a t) : s.Pending t := by
  cases a with
  | run queue env =>
    obtain tail | ⟨q, -, mem⟩ | host := h
    · exact .inr ⟨queue, List.mem_of_mem_tail tail⟩
    · exact .inr ⟨q, mem⟩
    · exact .inl host
  | task env => exact .inr h
  | copyin ddr size flag queue room submitted | copyout ddr size flag queue submitted | resume room submitted =>
    exact h.elim

lemma submit_pending {queue : Option Nat} {submitted : Bool} {t' : Task}
    (h : (s.submit t queue submitted).Pending t') : (∃ q, t' ∈ s.queues q) ∨ t' = t := by
  cases queue with
  | none =>
    obtain host | old := h
    · cases host
      exact .inr rfl
    · exact .inl old
  | some q =>
    cases submitted with
    | false =>
      obtain host | old := h
      · cases host
      · exact .inl old
    | true =>
      obtain host | ⟨q', mem⟩ := h
      · cases host
      · have mem : t' ∈ update s.queues q (s.queues q ++ [t]) q' := mem
        by_cases same : q' = q
        · subst same
          rw [update_self, List.mem_append, List.mem_singleton] at mem
          exact mem.imp_left fun old => ⟨q', old⟩
        · rw [update_of_ne same] at mem
          exact .inl ⟨q', mem⟩

lemma submit_core {queue : Option Nat} {submitted : Bool} : (s.submit t queue submitted).core = s.core := by
  cases queue with
  | none => rfl
  | some q => cases submitted <;> rfl

lemma idle_pending {core : State} {table : List Nat} (h : Pending ⟨core, s.queues, table, .idle⟩ t) :
    s.Pending t := by
  obtain host | old := h
  · cases host
  · exact .inr old

lemma counted_does {r : State × Args CopyinFlag × Bool} {queue : Option Nat} {submitted : Bool} :
    (s.counted r queue submitted).core = r.1 ∧
      ∀ t, (s.counted r queue submitted).Pending t → s.Pending t ∨ t = .copyin r.2.1 := by
  rw [counted]
  split
  · refine ⟨submit_core, fun t h => ?_⟩
    exact (submit_pending h).imp_left .inr
  · exact ⟨rfl, fun t h => .inl (idle_pending h)⟩

lemma remap_does {args : Args CopyinFlag} {queue : Option Nat} {room submitted : Bool}
    (isS : s' = s.counted (s.core.remap args room) queue submitted)
    (maps : ∀ d n, s.Maps a d n ↔ room = true ∧ d = args.ddr ∧ n = args.size) : Does s a s' := by
  obtain ⟨core, pending⟩ := @counted_does s (s.core.remap args room) queue submitted
  rw [← isS] at core pending
  rw [State.remap] at core pending
  cases room with
  | false =>
    refine .stay core (fun t h => ?_) fun d n h => absurd ((maps d n).1 h).1 Bool.false_ne_true
    rw [isS, counted] at h
    exact idle_pending h
  | true =>
    exact .remap { args with mem := s.core.made, offset := 0 } rfl ((maps _ _).2 ⟨rfl, rfl, rfl⟩)
      (fun d n h => ((maps d n).1 h).2) core pending

lemma step_does (h : s.step a = some s') : Does s a s' := by
  cases a with
  | copyin ddr size flag queue room submitted =>
    rw [step, copyin] at h
    cases isHost : s.host with
    | wait args queue | task t =>
      rw [isHost] at h
      cases h
    | idle =>
      rw [isHost] at h
      dsimp only at h
      split at h
      · rename_i bad
        cases h
        refine .stay rfl (fun _ h => h) fun d n maps => ?_
        exact bad.elim maps.1 maps.2.1
      rename_i good
      unfold State.attach at h
      cases found : s.core.query ddr with
      | none =>
        rw [found] at h
        cases h
        apply remap_does rfl
        intro d n
        constructor
        · rintro ⟨-, -, -, isRoom, isDdr, isSize⟩
          exact ⟨isRoom, isDdr, isSize⟩
        · rintro ⟨isRoom, isDdr, isSize⟩
          exact ⟨fun zero => good (.inl zero), fun zero => good (.inr zero), found, isRoom, isDdr, isSize⟩
      | some p =>
        obtain ⟨mem, offset⟩ := p
        have none (d n) : ¬ s.Maps (.copyin ddr size flag queue room submitted) d n := by
          rintro ⟨-, -, absent, -⟩
          rw [found] at absent
          cases absent
        rw [found] at h
        dsimp only at h
        by_cases zero : (s.core.mem mem).attCnt = 0
        · rw [if_pos zero] at h
          cases h
          refine .stay rfl (fun t h => ?_) none
          obtain host | old := h
          · cases host
          · exact .inr old
        · rw [if_neg zero] at h
          cases h
          obtain ⟨core, pending⟩ := @counted_does s ((s.core.attachTo ⟨mem, ddr, offset, size, flag⟩).1,
            ⟨mem, ddr, offset, size, flag⟩, (s.core.attachTo ⟨mem, ddr, offset, size, flag⟩).2) queue submitted
          exact .attach ⟨mem, ddr, offset, size, flag⟩ found core pending none
  | resume room submitted =>
    rw [step, resume] at h
    cases isHost : s.host with
    | idle | task t =>
      rw [isHost] at h
      cases h
    | wait args queue =>
      rw [isHost] at h
      dsimp only at h
      split at h
      · cases h
        apply remap_does rfl
        intro d n
        constructor
        · rintro ⟨args', queue', isWait, isRoom, isDdr, isSize⟩
          cases isHost.symm.trans isWait
          exact ⟨isRoom, isDdr, isSize⟩
        · rintro ⟨isRoom, isDdr, isSize⟩
          exact ⟨args, queue, isHost, isRoom, isDdr, isSize⟩
      · cases h
  | copyout ddr size flag queue submitted =>
    have none (d n) : ¬ s.Maps (.copyout ddr size flag queue submitted) d n := id
    rw [step, copyout] at h
    cases isHost : s.host with
    | wait args queue | task t =>
      rw [isHost] at h
      cases h
    | idle =>
      rw [isHost] at h
      dsimp only at h
      split at h
      · cases h
        exact .stay rfl (fun _ h => h) none
      cases found : s.core.query ddr with
      | none =>
        have refused : s.core.detach ⟨0, ddr, 0, size, flag⟩ = (s.core, ⟨0, ddr, 0, size, flag⟩, false) := by
          rw [State.detach]
          rw [found]
        rw [refused] at h
        cases h
        exact .stay rfl (fun _ h => idle_pending h) none
      | some p =>
        obtain ⟨mem, offset⟩ := p
        have isArgs : (s.core.detach ⟨0, ddr, 0, size, flag⟩).2.1 = ⟨mem, ddr, offset, size, flag⟩ := by
          rw [State.detach]
          rw [found]
          cases flag <;> rfl
        split at h
        · cases h
          refine .detach ⟨mem, ddr, offset, size, flag⟩ found ⟨_, submit_core⟩ (fun t h => ?_) none
          rw [isArgs] at h
          exact (submit_pending h).imp_left .inr
        · cases h
          exact .detach ⟨mem, ddr, offset, size, flag⟩ found ⟨_, rfl⟩ (fun t h => .inl (idle_pending h)) none
  | task env =>
    rw [step, task] at h
    cases isHost : s.host with
    | idle | wait args queue =>
      rw [isHost] at h
      cases h
    | task t =>
      rw [isHost] at h
      dsimp only at h
      split at h
      · cases h
      · cases h
        refine .run t env (by rw [next, isHost]) (.inl isHost) rfl (fun t' h => ?_) fun _ _ => id
        obtain host | old := h
        · cases host
        · exact old
  | run queue env =>
    rw [step, run] at h
    cases isQueue : s.queues queue with
    | nil =>
      rw [isQueue] at h
      cases h
    | cons t ts =>
      rw [isQueue] at h
      dsimp only at h
      split at h
      · cases h
      · cases h
        have here : t ∈ s.queues queue := by
          rw [isQueue]
          exact List.mem_cons_self
        refine .run t env (by rw [next, isQueue]; rfl) (.inr ⟨queue, here⟩) rfl (fun t' h => ?_) fun _ _ => id
        obtain host | ⟨q, mem⟩ := h
        · exact .inr (.inr host)
        · have mem : t' ∈ update s.queues queue ts q := mem
          by_cases same : q = queue
          · subst same
            rw [update_self] at mem
            refine .inl ?_
            rw [isQueue]
            exact mem
          · rw [update_of_ne same] at mem
            exact .inr (.inl ⟨q, same, mem⟩)

end System

lemma State.attachTo_maps {args : Args CopyinFlag} :
    (s.attachTo args).1.rangeMap = s.rangeMap ∧ (s.attachTo args).1.deleted = s.deleted := by
  rw [State.attachTo]
  cases args.flag with
  | create | copyIn | push | other => exact ⟨rfl, rfl⟩

lemma State.detach_maps {args : Args CopyoutFlag} :
    (s.detach args).1.rangeMap = s.rangeMap ∧ (s.detach args).1.deleted = s.deleted := by
  rw [State.detach]
  cases s.query args.ddr with
  | none => exact ⟨rfl, rfl⟩
  | some p =>
    cases args.flag with
    | delete | out | pull | deleteFinalize | outFinalize | other => exact ⟨rfl, rfl⟩

/-- The records fit together, and what is pending knows its record. -/
structure Tidy (s : System) : Prop where
  inv : Inv s.core
  known : ∀ t, s.Pending t → t.mem < s.core.made
  waits : ∀ args queue, s.host = .wait args queue → args.ddr ≠ 0 ∧ args.size ≠ 0

namespace Tidy
variable {s s' : System} {a : Label} {d n : Nat}

lemma maps (T : Tidy s) (h : s.Maps a d n) : 0 < d ∧ 0 < n := by
  cases a with
  | copyin ddr size flag queue room submitted =>
    obtain ⟨pos, some, -, -, rfl, rfl⟩ := h
    exact ⟨Nat.pos_of_ne_zero pos, Nat.pos_of_ne_zero some⟩
  | resume room submitted =>
    obtain ⟨args, queue, host, -, rfl, rfl⟩ := h
    have waits := T.waits args queue host
    exact ⟨Nat.pos_of_ne_zero waits.1, Nat.pos_of_ne_zero waits.2⟩
  | copyout ddr size flag queue submitted | task env | run queue env => exact h.elim

lemma waits_step (T : Tidy s) (h : s.step a = some s') (args : Args CopyinFlag) (queue : Option Nat)
    (host : s'.host = .wait args queue) : args.ddr ≠ 0 ∧ args.size ≠ 0 := by
  have submit {s : System} {t queue' submitted} (h : (s.submit t queue' submitted).host = .wait args queue) :
    False := by
    cases queue' with
    | none => cases h
    | some q => cases submitted <;> cases h
  have counted {r queue' submitted} (h : (s.counted r queue' submitted).host = .wait args queue) : False := by
    rw [System.counted] at h
    split at h
    · exact submit h
    · cases h
  cases a with
  | copyin ddr size flag queue' room submitted =>
    rw [System.step, System.copyin] at h
    cases isHost : s.host with
    | wait args' queue'' | task t =>
      rw [isHost] at h
      cases h
    | idle =>
      rw [isHost] at h
      dsimp only at h
      split at h
      · cases h
        cases isHost.symm.trans host
      rename_i good
      split at h
      · cases h
        cases host
        exact ⟨fun zero => good (.inl zero), fun zero => good (.inr zero)⟩
      · cases h
        exact (counted host).elim
  | resume room submitted =>
    rw [System.step, System.resume] at h
    cases isHost : s.host with
    | idle | task t =>
      rw [isHost] at h
      cases h
    | wait args' queue' =>
      rw [isHost] at h
      dsimp only at h
      split at h
      · cases h
        exact (counted host).elim
      · cases h
  | copyout ddr size flag queue' submitted =>
    rw [System.step, System.copyout] at h
    cases isHost : s.host with
    | wait args' queue'' | task t =>
      rw [isHost] at h
      cases h
    | idle =>
      rw [isHost] at h
      dsimp only at h
      split at h
      · cases h
        cases isHost.symm.trans host
      · split at h
        · cases h
          exact (submit host).elim
        · cases h
          cases host
  | task env =>
    rw [System.step, System.task] at h
    split at h
    · split at h
      · cases h
      · cases h
        cases host
    · cases h
  | run queue' env =>
    rw [System.step, System.run] at h
    split at h
    · cases h
    · split at h
      · cases h
      · cases h
        exact T.waits args queue host

lemma step (T : Tidy s) (h : s.step a = some s') : Tidy s' := by
  have waits := T.waits_step h
  cases System.step_does h with
  | stay core pending none =>
    refine ⟨by rw [core]; exact T.inv, fun t ht => ?_, waits⟩
    rw [core]
    exact T.known t (pending t ht)
  | attach args found core pending none =>
    refine ⟨by rw [core]; exact T.inv.attachTo, fun t ht => ?_, waits⟩
    rw [core, State.made_attachTo]
    obtain old | rfl := pending t ht
    · exact T.known t old
    · exact T.inv.query_known found
  | remap args isMem maps only core pending =>
    have pos := T.maps maps
    refine ⟨by rw [core]; exact (T.inv.mapped pos.1 pos.2).attachTo, fun t ht => ?_, waits⟩
    rw [core, State.made_attachTo]
    obtain old | rfl := pending t ht
    · exact Nat.lt_succ_of_lt (T.known t old)
    · exact isMem.trans_lt (Nat.lt_succ_self _)
  | detach args found core pending none =>
    obtain ⟨args', core⟩ := core
    refine ⟨by rw [core]; exact T.inv.detach, fun t ht => ?_, waits⟩
    rw [core, State.made_detach]
    obtain old | rfl := pending t ht
    · exact T.known t old
    · exact T.inv.query_known found
  | run t env next pending core others none =>
    refine ⟨by rw [core]; exact Task.inv T.inv (T.known t pending), fun t' ht => ?_, waits⟩
    rw [core, Task.within.made]
    exact T.known t' (others t' ht).pending

lemma init (h : s.Init) : Tidy s := by
  refine ⟨.init h.core, fun t ht => ?_, fun args queue host => ?_⟩
  · obtain host | ⟨q, mem⟩ := ht
    · cases h.host.symm.trans host
    · rw [h.queues] at mem
      cases mem
  · cases h.host.symm.trans host

end Tidy
end Kupl.Mem
