import Kupl.Sched.Atomic
import Mathlib.Data.Fintype.Sum
import Mathlib.Tactic.DeriveFintype

/-!
# The schedulers mq, static_mq and hybrid

`kupl_sched_add_tb` and `kupl_sched_execute_tb` (`src/mt/scheduler/kupl_sched.cpp`) with the plugins of
`src/mt/scheduler/plugin/`: `mq/kupl_sched_mq.cpp`, `static_mq/kupl_sched_static_mq.cpp`,
`hybrid/kupl_sched_hybrid.cpp` and, as its outer level, `sspe/kupl_sched_sspe.cpp`. Threads go on in any
order; each call on a queue is one step. What a call has still to try is in its frame, and what a task
does while it is invoked, calls of both functions among it, is on top of the frame of its body.

C++ → Lean naming: `kupl_taskbase_t` → `Taskbase`, the fields that the schedulers read;
`kupl_sched_mq_add_tb` → `mqAddTb`; `kupl_sched_static_mq_add_tb` → `staticMqAddTb`;
`kupl_sched_hybrid_add_tb` → `hybridAddTb`; `sched_add_tb` (sspe) → `sspeAddTb`; the four `get_tb` likewise;
`pop_one_tb` → `popOneTb`; `sched_full` → `full`, a flag of each thread; `place_queues` → `places`.
`kupl_get_executor_num` → `own`, `none` for a thread that is not managed.

A task that is bound to an executor names one of the scheduler. Left out: logs, yields, the counter and the
state of a taskbase, which no scheduler reads.
-/

namespace Kupl.Sched
open Kupl.Ring
open Function (update)

/-- A taskbase (C++ `kupl_taskbase_t`); `id` tells two of them apart. -/
structure Taskbase where
  id : Nat
  executorId : Int
  flag : BitVec 64
  priority : Int
  deriving DecidableEq, Inhabited

/-- C++ `KUPL_TB_FLAG_IMM`. -/
def flagImm : BitVec 64 := 1

/-- C++ `KUPL_TB_FLAG_PRIORITY`. -/
def flagPriority : BitVec 64 := 2

/-- C++ `KUPL_TB_FLAG_HYBRID_OUTER`. -/
def flagHybridOuter : BitVec 64 := 32

/-- C++ `KUPL_TB_EXECUTOR_ID_DEFAULT`. -/
def idDefault : Int := -1

/-- C++ `KUPL_TB_EXECUTOR_ID_PLACE`. -/
def idPlace : Int := -2

/-- C++ `place_queue_size_factor`. -/
def placeQueueSizeFactor : Int := 10

/-- `KUPL_TB_FLAG_HYBRID_OUTER` is set. -/
def Taskbase.Outer (tb : Taskbase) : Prop := tb.flag &&& flagHybridOuter ≠ 0

instance (tb : Taskbase) : Decidable tb.Outer := inferInstanceAs (Decidable (_ ≠ _))

inductive Plugin where
  | mq
  | staticMq

/-- A scheduler: its plugin, whether it is the inner level of hybrid, the length of its queues, the place
queues of each executor, and which executor a thread is. Each executor has a thread. -/
structure Config (n m : Nat) (τ : Type) where
  plugin : Plugin
  hybrid : Bool
  enablePriority : Bool
  queueSize : Int
  places : Fin n → List (Fin m)
  own : τ → Option (Fin n)
  thread : ∀ e, ∃ t, own t = some e

/-- A queue: local to an executor, or of a place. -/
abbrev QueueId (n m : Nat) := Fin n ⊕ Fin m

/-- Where tasks wait: in the priority queue or in one of the others. -/
inductive Store (n m : Nat) where
  | prio
  | queue (q : QueueId n m)
  deriving DecidableEq, Fintype

/-- Where an add still tries to put its task. -/
inductive Target (n m : Nat) where
  | store (x : Store n m)
  | slot (e : Fin n)

/-- Where a get still looks for a task. -/
inductive Source (n m : Nat) where
  | outer
  | inner
  | store (x : Store n m)
  | last
  | random

/-- A call in progress, or a task that is being invoked. -/
inductive Frame (n m : Nat) where
  | add (tb : Taskbase) (targets : List (Target n m))
  | get (own : Fin n) (sources : List (Source n m)) (victim : Option (Fin n))
  | body (tb : Taskbase)

/-- What a step of a get leaves open: the top of the heap, that the check without a lock found nothing,
that a region has arrived, or which executor to steal from. -/
inductive Choice (n : Nat) where
  | plain
  | top (tb : Taskbase)
  | miss
  | arrive
  | victim (e : Fin n)
  deriving DecidableEq

/-- A call, the next step of one, or the end of a body. -/
inductive Label (n : Nat) (τ : Type) where
  | add (t : τ) (tb : Taskbase)
  | execute (t : τ)
  | go (t : τ) (o : Choice n)
  | finish (t : τ)

/-- The state of a scheduler and of its threads; `handed` and `invoked` are history. -/
structure Scheduler (n m : Nat) (τ : Type) where
  queue : QueueId n m → KuplVector Taskbase
  prio : PriorityQueue Taskbase
  slot : Fin n → Option Taskbase
  lastSteal : Fin n → Option (Fin n)
  outerUsing : Bool
  innerUsing : Bool
  full : τ → Bool
  stack : τ → List (Frame n m)
  handed : List Taskbase
  invoked : List Taskbase

variable {n m : Nat} {τ : Type}

namespace Config
variable (c : Config n m τ)

/-- The executor that a task is bound to, `own` where it is bound to none. -/
def eid (own : Fin n) (tb : Taskbase) : Fin n :=
  if h : 0 ≤ tb.executorId ∧ tb.executorId < n then ⟨tb.executorId.toNat, by omega⟩ else own

/-- `enable_priority` and the flag of a task. -/
def isPriority (tb : Taskbase) : Bool := c.enablePriority && decide (tb.flag &&& flagPriority ≠ 0)

/-- The place queues of an executor, one after the other. -/
def placeQueues (own : Fin n) : List (Store n m) := (c.places own).map fun j => .queue (.inr j)

/-- `kupl_sched_mq_add_tb`. -/
def mqAddTb (own : Fin n) (tb : Taskbase) : List (Target n m) :=
  if tb.executorId = idPlace ∧ c.places own ≠ [] then (c.placeQueues own).map .store
  else if c.isPriority tb then [.store .prio]
  else .store (.queue (.inl (eid own tb))) :: (c.placeQueues own).map .store

/-- `kupl_sched_static_mq_add_tb`. -/
def staticMqAddTb (own : Fin n) (tb : Taskbase) : List (Target n m) :=
  if c.isPriority tb then [.store .prio] else [.store (.queue (.inl (eid own tb)))]

/-- `add_tb` of the plugin, for a thread that may not be managed. -/
def pluginAddTb (own : Option (Fin n)) (tb : Taskbase) : List (Target n m) :=
  match own with
  | none => []
  | some own =>
    match c.plugin with
    | .mq => c.mqAddTb own tb
    | .staticMq => c.staticMqAddTb own tb

/-- `sched_add_tb` of sspe. -/
def sspeAddTb (tb : Taskbase) : List (Target n m) :=
  if h : tb.executorId ≤ idDefault ∨ tb.executorId ≥ n then []
  else [.slot ⟨tb.executorId.toNat, by unfold idDefault at h; omega⟩]

/-- `kupl_sched_hybrid_add_tb`, or `add_tb` of the plugin where hybrid is not used. -/
def hybridAddTb (own : Option (Fin n)) (tb : Taskbase) : List (Target n m) :=
  if c.hybrid ∧ tb.Outer then sspeAddTb tb else c.pluginAddTb own tb

/-- `pop_one_tb`. -/
def popOneTb (e : Fin n) : List (Source n m) :=
  if c.enablePriority then [.store .prio, .store (.queue (.inl e))] else [.store (.queue (.inl e))]

/-- `kupl_sched_mq_get_tb`. -/
def mqGetTb (own : Fin n) : List (Source n m) :=
  c.popOneTb own ++ (c.placeQueues own).map .store ++ if n ≤ 1 then [] else [.last, .random]

/-- `get_tb` of the plugin; that of static_mq is `pop_one_tb`. -/
def pluginGetTb (own : Fin n) : List (Source n m) :=
  match c.plugin with
  | .mq => c.mqGetTb own
  | .staticMq => c.popOneTb own

/-- `kupl_sched_hybrid_get_tb`, or `get_tb` of the plugin where hybrid is not used. -/
def hybridGetTb (own : Fin n) : List (Source n m) :=
  if c.hybrid then [.outer, .inner] else c.pluginGetTb own

end Config

namespace Scheduler
variable [DecidableEq τ] (c : Config n m τ) (s : Scheduler n m τ)

def setStack (t : τ) (fs : List (Frame n m)) : Scheduler n m τ :=
  { s with stack := update s.stack t fs }

def setFull (t : τ) (b : Bool) : Scheduler n m τ := { s with full := update s.full t b }

def setQueue (q : QueueId n m) (v : KuplVector Taskbase) : Scheduler n m τ :=
  { s with queue := update s.queue q v }

def setPrio (p : PriorityQueue Taskbase) : Scheduler n m τ := { s with prio := p }

/-- `tb->ops->invoke(tb)`, on top of the frames `rest`. -/
def invoke (t : τ) (tb : Taskbase) (rest : List (Frame n m)) : Scheduler n m τ :=
  { s.setStack t (.body tb :: rest) with invoked := s.invoked ++ [tb] }

/-- A thread is in no call of the scheduler. -/
def Free (t : τ) : Prop :=
  match s.stack t with
  | [] | .body _ :: _ => True
  | _ => False

instance (t : τ) : Decidable (s.Free t) := by
  unfold Free
  split <;> infer_instance

def getting (t : τ) : Bool :=
  match s.stack t with
  | .get _ _ _ :: _ => true
  | _ => false

def useLevel (tb : Taskbase) : Scheduler n m τ :=
  if tb.Outer then { s with outerUsing := true } else { s with innerUsing := true }

/-- `kupl_sched_add_tb`, up to the call of the plugin. -/
def kuplSchedAddTb (t : τ) (tb : Taskbase) : Scheduler n m τ :=
  let s' := { s with handed := s.handed ++ [tb] }
  if s.full t ∨ tb.flag = flagImm then s'.invoke t tb (s.stack t)
  else (s'.useLevel tb).setStack t (.add tb (c.hybridAddTb (c.own t) tb) :: s.stack t)

/-- The next target of an add; the task is invoked at once where none is left. -/
def addStep (t : τ) (tb : Taskbase) (rest : List (Frame n m)) : List (Target n m) → Scheduler n m τ
  | [] => (s.setFull t true).invoke t tb rest
  | .store .prio :: targets =>
    match s.prio.priorityQueueAddTb tb with
    | some p => (s.setPrio p).setStack t rest
    | none => s.setStack t (.add tb targets :: rest)
  | .store (.queue q) :: targets =>
    match queueAddTb (s.queue q) tb with
    | some v => (s.setQueue q v).setStack t rest
    | none => s.setStack t (.add tb targets :: rest)
  | .slot e :: _ => { s.setStack t rest with slot := update s.slot e (some tb) }

/-- `last_steal` after a search. -/
def steal (own : Fin n) (victim found : Option (Fin n)) : Scheduler n m τ :=
  match victim with
  | none => s
  | some _ => { s with lastSteal := update s.lastSteal own found }

/-- A get has found a task, which is invoked (C++ `kupl_sched_execute_tb`). -/
def found (t : τ) (own : Fin n) (victim : Option (Fin n)) (tb : Taskbase) (rest : List (Frame n m)) :
    Scheduler n m τ :=
  ((s.steal own victim victim).setFull t false).invoke t tb rest

variable [Fintype τ]

def getStep (t : τ) (own : Fin n) (victim : Option (Fin n)) (rest : List (Frame n m)) (o : Choice n) :
    List (Source n m) → Option (Scheduler n m τ)
  | [] => if o = .plain then some ((s.steal own victim none).setStack t rest) else none
  | .outer :: sources =>
    match o, s.slot own with
    | .plain, _ => some (s.setStack t (.get own sources victim :: rest))
    | .arrive, some tb =>
      if s.outerUsing then some (s.found t own victim tb rest) else none
    | .arrive, none =>
      if s.outerUsing then some (s.setStack t (.get own sources victim :: rest)) else none
    | _, _ => none
  | .inner :: sources =>
    if o = .plain then
      some (s.setStack t (.get own (if s.innerUsing then c.pluginGetTb own ++ sources else sources) victim :: rest))
    else none
  | .store .prio :: sources =>
    match o with
    | .miss =>
      if ∃ u, u ≠ t ∧ s.getting u then some (s.setStack t (.get own sources victim :: rest)) else none
    | .plain =>
      match s.prio.priorityQueueGetTb Taskbase.priority none with
      | some (p, none) => some ((s.setPrio p).setStack t (.get own sources victim :: rest))
      | _ => none
    | .top tb =>
      match s.prio.priorityQueueGetTb Taskbase.priority (some tb) with
      | some (p, some tb) => some ((s.setPrio p).found t own victim tb rest)
      | _ => none
    | _ => none
  | .store (.queue q) :: sources =>
    if o = .plain then
      match queueGetTb (s.queue q) with
      | some (tb, v) => some ((s.setQueue q v).found t own victim tb rest)
      | none => some (s.setStack t (.get own sources victim :: rest))
    else none
  | .last :: sources =>
    if o = .plain then
      match s.lastSteal own with
      | none => some (s.setStack t (.get own sources victim :: rest))
      | some v => some (s.setStack t (.get own (c.popOneTb v ++ sources) victim :: rest))
    else none
  | .random :: sources =>
    match o with
    | .victim v =>
      if v = own then some s
      else some (s.setStack t (.get own (c.popOneTb v ++ sources) (some v) :: rest))
    | _ => none

def step : Label n τ → Option (Scheduler n m τ)
  | .add t tb => if s.Free t ∧ tb.executorId < n then some (s.kuplSchedAddTb c t tb) else none
  | .execute t =>
    if s.Free t then
      match c.own t with
      | none => some s
      | some own => some (s.setStack t (.get own (c.hybridGetTb own) none :: s.stack t))
    else none
  | .go t o =>
    match s.stack t with
    | .add tb targets :: rest => if o = .plain then some (s.addStep t tb rest targets) else none
    | .get own sources victim :: rest => s.getStep c t own victim rest o sources
    | _ => none
  | .finish t =>
    match s.stack t with
    | .body _ :: rest => some (s.setStack t rest)
    | _ => none

/-- A scheduler that was created, with the loop ults of hybrid registered. -/
def Created : Prop :=
  (∀ q, ∃ calloc, kuplVectorCreate (BitVec.ofInt 64 (match q with
    | .inl _ => c.queueSize
    | .inr _ => c.queueSize * placeQueueSizeFactor)) 8 calloc = some (s.queue q)) ∧
  (-2 ^ 31 ≤ c.queueSize ∧ c.queueSize < 2 ^ 31) ∧ s.prio.size = c.queueSize ∧
  (∃ calloc, kuplVectorCreate (BitVec.ofInt 64 c.queueSize) 8 calloc = some s.prio.spsc) ∧
  s.prio.heap = [] ∧ s.prio.tbCnt = 0 ∧ (∀ e tb, s.slot e = some tb → tb.Outer) ∧
  s.innerUsing = false ∧ s.lastSteal = (fun _ => none) ∧ s.full = (fun _ => false) ∧ s.stack = (fun _ => []) ∧
  s.handed = [] ∧ s.invoked = []

/-- A scheduler in the hands of its threads. -/
def machine : Machine (Scheduler n m τ) (Label n τ) where
  init := Created c
  step := fun s l => s.step c l

end Scheduler
end Kupl.Sched
