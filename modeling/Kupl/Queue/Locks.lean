import Kupl.Machine.Run
import Mathlib.Logic.Relation

/-!
# The locks of queues and events

Which locks the threads take in `kupl_event_record`, `kupl_event_destroy`, `kupl_queue_submit`,
`kupl_queue_wait_event` and `kupl_queue_wait` of `src/mt/kupl_queue.cpp` and `src/mt/kupl_event.cpp`, and
where executors complete events (`event_func`). An event has a request after `kupl_memcpy_async`;
`req_set` of a queue and `q_set` of an event say which requests a queue waits for.

C++ → Lean naming: where a call or a task is → `Frame`; `kupl_event_query` → `query`; `kupl_enqueue_event`
→ `enqueue`; `kupl_queue_submit` → `submit`; `kupl_queue_wait` → `waitQueue`; `kupl_task_wait` →
`taskWait`; `kupl_wait_sdma_request_in_queue` → `requests`, and while it has the lock of an event →
`transfer`; `event_func` → `body`; `kupl_dequeue_event` → `dequeue`; `kupl_event_deref` → `deref`;
`kupl_remove_event_in_queue` → `remove`. A frame named after an action is before the lock, `…ing` is
behind it.

A thread has a stack of frames: the function of an item may make calls, and who waits for a task or for a
request runs other tasks meanwhile. `kupl_sched_add_tb` runs a task in place where the scheduler refuses it or
has refused one before (`sched_full`): a task that is enqueued then runs on top of the frame that enqueues it,
which has the lock of the queue (`place`); a task that a finished one releases is run as any other. What is done
between two locks is one step, but for the adding of a task. Which task is run next and which is run in place,
when a wait ends and when a request is done is left open. An event is a number, the next one for each that is
created; after its last reference is gone no call is made with it. Items of synchronous queues, which take no
lock, are left out, and so are transfers into queues that have events, which are enqueued themselves.
-/

namespace Kupl.Locks
open Function (update)

/-- C++ `kupl_lock_t`, by what it is the lock of. -/
inductive Lock where
  | event (ev : Nat)
  | queue (q : Nat)
  deriving DecidableEq, Repr

/-- C++ `kupl_event_status_t`. -/
inductive Status where
  | created
  | submitted
  | complete
  deriving DecidableEq, Repr

/-- What an event is enqueued for. -/
inductive Kind where
  | kernel
  | request
  | record
  | wait
  deriving DecidableEq, Repr

structure Task where
  q : Nat
  ev : Nat
  kind : Kind
  deriving DecidableEq, Repr

inductive Call where
  | record (ev q : Nat)
  | waitEvent (q ev : Nat)
  | submit (q : Nat)
  | waitQueue (q : Nat)
  | destroy (ev : Nat)
  deriving DecidableEq, Repr

/-- Where a thread is in a call or in a task. -/
inductive Frame where
  | query (ev : Nat) (call : Call)
  | querying (ev : Nat) (call : Call)
  | enqueue (x : Task) (waits : Option Nat)
  | enqueuing (x : Task) (waits : Option Nat)
  /-- Behind `kupl_event_submit`. -/
  | enqueued (x : Task) (waits : Option Nat)
  | submit (q : Nat)
  | submitting (q : Nat)
  /-- Behind `kupl_queue_submit_request`. -/
  | submitted (q : Nat)
  | waitQueue (q : Nat)
  | waitingQueue (q : Nat)
  /-- Then the event is destroyed. -/
  | taskWait (ev : Option Nat)
  /-- With the lock of the queue or without. -/
  | requests (q : Nat) (locked : Bool)
  | request (q ev : Nat) (locked : Bool)
  | transfer (q ev : Nat) (locked : Bool)
  | body (x : Task)
  | dequeue (x : Task)
  | dequeuing (x : Task)
  /-- With the lock of the queue that the event is dequeued from. -/
  | remove (u : Option Nat) (ev : Nat)
  | removing (u : Option Nat) (ev : Nat)
  | erase (u : Option Nat) (ev q : Nat)
  | erasing (u : Option Nat) (ev q : Nat)
  deriving DecidableEq, Repr

namespace Frame

def queueLock (u : Option Nat) : List Lock := u.elim [] fun q => [.queue q]

/-- The locks a frame has. -/
def holds : Frame → List Lock
  | .querying ev _ => [.event ev]
  | .enqueuing x _ | .enqueued x _ | .dequeuing x => [.queue x.q]
  | .submitting q | .submitted q | .waitingQueue q => [.queue q]
  | .requests q locked | .request q _ locked => if locked then [.queue q] else []
  | .transfer q ev locked => .event ev :: if locked then [.queue q] else []
  | .remove u _ => queueLock u
  | .removing u ev | .erase u ev _ => .event ev :: queueLock u
  | .erasing u ev q => .queue q :: .event ev :: queueLock u
  | _ => []

/-- The lock a frame waits for, and the frame once it has it. -/
def acquires : Frame → Option (Lock × Frame)
  | .query ev call => some (.event ev, .querying ev call)
  | .enqueue x waits => some (.queue x.q, .enqueuing x waits)
  | .submit q => some (.queue q, .submitting q)
  | .waitQueue q => some (.queue q, .waitingQueue q)
  | .request q ev locked => some (.event ev, .transfer q ev locked)
  | .dequeue x => some (.queue x.q, .dequeuing x)
  | .remove u ev => some (.event ev, .removing u ev)
  | .erase u ev q => some (.queue q, .erasing u ev q)
  | _ => none

/-- The lock a frame waits for. -/
def wants (f : Frame) : Option Lock := f.acquires.map Prod.fst

end Frame

/-- The threads, the tasks that no executor has taken, and the events and queues. `sdma` are the events whose
query takes the lock, those used with `kupl_memcpy_async`; `flag` are the requests nobody has waited for. -/
structure State where
  holder : Lock → Option Nat
  stack : Nat → List Frame
  tasks : List Task
  created : Nat
  dead : Nat → Bool
  ref : Nat → Nat
  status : Nat → Status
  sdma : Nat → Bool
  flag : Nat → Bool
  qSet : Nat → List Nat
  reqSet : Nat → List Nat
  eventCount : Nat → Nat

def Task.frames (x : Task) : List Frame :=
  if x.kind = .request then [.requests x.q false, .body x] else [.body x]

/-- What happens next: an event is created or used with `kupl_memcpy_async`; a thread begins a call, gets the
answer of a query, takes the next step, runs the task it adds in place, or runs a task. -/
inductive Label where
  | create
  | memcpy (q ev : Nat)
  | call (t : Nat) (call : Call)
  | answer (t : Nat) (done : Bool)
  | next (t : Nat)
  | place (t : Nat)
  | run (t i : Nat)

namespace State
variable (s : State)

/-- Gives a thread a new stack. -/
def put (t : Nat) (frames : List Frame) : State := { s with stack := update s.stack t frames }

def unlock (l : Lock) : State := { s with holder := update s.holder l none }

def unlockQueue (u : Option Nat) : State := u.elim s fun q => s.unlock (.queue q)

/-- A new event, with its number of references. -/
def create (ref : Nat) : State :=
  { s with created := s.created + 1, ref := update s.ref s.created ref }

/-- An event that may be passed to a call. -/
def Live (ev : Nat) : Prop := ev < s.created ∧ s.dead ev = false

instance (ev : Nat) : Decidable (s.Live ev) := inferInstanceAs (Decidable (_ ∧ _))

/-- Drops a reference (C++ `kupl_event_deref`). -/
def deref (ev : Nat) : State := { s with
  ref := update s.ref ev (s.ref ev - 1)
  dead := update s.dead ev (s.dead ev || s.ref ev == 1) }

/-- The query of an event takes its lock. -/
def Asks (ev : Nat) : Prop := s.sdma ev = true ∧ s.status ev ≠ .complete

instance (ev : Nat) : Decidable (s.Asks ev) := inferInstanceAs (Decidable (_ ∧ _))

/-- An event is enqueued (C++ `kupl_enqueue_event`), up to `kupl_sched_add_tb`. -/
def enqueued (x : Task) : State := { s with
  eventCount := update s.eventCount x.q (s.eventCount x.q + 1)
  ref := if x.kind = .kernel then s.ref else update s.ref x.ev (s.ref x.ev + 1)
  status := update s.status x.ev .submitted }

/-- The task a frame adds to the scheduler, with the state and the frame that come then. -/
def adds : Frame → Option (Task × State × Frame)
  | .enqueuing x waits => some (x, s.enqueued x, .enqueued x waits)
  | .submitting q =>
    let x : Task := ⟨q, s.created, .request⟩
    if s.eventCount q = 0 ∧ s.reqSet q ≠ [] then some (x, (s.create 1).enqueued x, .submitted q) else none
  | _ => none

/-- What a call does once it knows the status of its event; nothing where it returns `KUPL_ERROR`. -/
def afterQuery (t : Nat) (rest : List Frame) : Call → State
  | .record ev q =>
    if s.status ev = .submitted then s.put t rest
    else { s with sdma := update s.sdma ev false }.put t (.enqueue ⟨q, ev, .record⟩ none :: rest)
  | .waitEvent q ev =>
    if s.status ev = .created then s.put t rest
    else (s.create 1).put t (.enqueue ⟨q, s.created, .wait⟩ (some s.created) :: rest)
  | _ => s.put t rest

def begin (t : Nat) : Call → Option State
  | .record ev q =>
    if s.Live ev then
      some (if s.Asks ev then s.put t (.query ev (.record ev q) :: s.stack t)
        else s.afterQuery t (s.stack t) (.record ev q))
    else none
  | .waitEvent q ev =>
    if s.Live ev then
      some (if s.Asks ev then s.put t (.query ev (.waitEvent q ev) :: s.stack t)
        else s.afterQuery t (s.stack t) (.waitEvent q ev))
    else none
  | .submit q => some (s.put t (.submit q :: s.stack t))
  | .waitQueue q => some (s.put t (.waitQueue q :: s.stack t))
  | .destroy ev =>
    if s.Live ev then
      some ((s.deref ev).put t (if s.ref ev = 1 then .remove none ev :: s.stack t else s.stack t))
    else none

/-- What a frame that waits for no lock does next. -/
def act (t : Nat) (rest : List Frame) : Frame → Option State
  | .enqueued x waits =>
    some ((s.unlock (.queue x.q)).put t (waits.elim rest fun ev => .taskWait (some ev) :: rest))
  | .submitting q => some (s.put t (.submitted q :: rest))
  | .submitted q =>
    some (((s.create 1).unlock (.queue q)).put t (.enqueue ⟨q, s.created, .kernel⟩ none :: rest))
  | .waitingQueue q =>
    if s.eventCount q ≠ 0 then some ((s.unlock (.queue q)).put t (.taskWait none :: rest))
    else some (s.put t (.requests q true :: rest))
  | .taskWait none => some (s.put t rest)
  | .taskWait (some ev) =>
    some ((s.deref ev).put t (if s.ref ev = 1 then .remove none ev :: rest else rest))
  | .requests q locked =>
    match s.reqSet q with
    | [] => some ((if locked then s.unlock (.queue q) else s).put t rest)
    | ev :: _ => some (s.put t (.request q ev locked :: rest))
  | .transfer q ev locked =>
    some (({ s with
      flag := update s.flag ev false
      status := if s.flag ev then update s.status ev .complete else s.status
      qSet := update s.qSet ev ((s.qSet ev).filter (· ≠ q))
      reqSet := update s.reqSet q ((s.reqSet q).erase ev) }.unlock (.event ev)).put t
        (.requests q locked :: rest))
  | .body x => some (s.put t (.dequeue x :: rest))
  | .dequeuing x =>
    let s' := { s with
      eventCount := update s.eventCount x.q (s.eventCount x.q - 1)
      status := update s.status x.ev .complete }.deref x.ev
    some (if s.ref x.ev = 1 then s'.put t (.remove (some x.q) x.ev :: rest)
      else (s'.unlock (.queue x.q)).put t rest)
  | .removing u ev =>
    match s.qSet ev with
    | [] => some (((s.unlock (.event ev)).unlockQueue u).put t rest)
    | q :: _ => some (s.put t (.erase u ev q :: rest))
  | .erasing u ev q =>
    some (({ s with
      reqSet := update s.reqSet q ((s.reqSet q).filter (· ≠ ev))
      qSet := update s.qSet ev ((s.qSet ev).erase q) }.unlock (.queue q)).put t
        (.removing u ev :: rest))
  | _ => none

/-- The next step of a thread; `none` where it has to wait for a lock. -/
def next (t : Nat) : Option State :=
  match s.stack t with
  | [] => none
  | f :: rest =>
    match f.acquires with
    | some (l, g) =>
      if s.holder l = none then
        some ({ s with holder := update s.holder l (some t) }.put t (g :: rest))
      else none
    | none =>
      match s.adds f with
      | some (x, s', g) => some ({ s' with tasks := s'.tasks ++ [x] }.put t (g :: rest))
      | none => s.act t rest f

/-- A thread runs the task it adds in place. -/
def place (t : Nat) : Option State :=
  match s.stack t with
  | [] => none
  | f :: rest => (s.adds f).map fun (x, s', g) => s'.put t (x.frames ++ g :: rest)

/-- The thread is outside of all calls or in the function of an item. -/
def CanCall (t : Nat) : Prop :=
  match s.stack t with
  | [] => True
  | .body x :: _ => x.kind = .kernel
  | _ => False

instance (t : Nat) : Decidable (s.CanCall t) := by
  unfold CanCall
  split <;> infer_instance

/-- The thread is outside of all calls, or waits for a task or for a request. -/
def CanRun (t : Nat) : Prop :=
  match s.stack t with
  | [] | .taskWait _ :: _ | .transfer .. :: _ => True
  | _ => False

instance (t : Nat) : Decidable (s.CanRun t) := by
  unfold CanRun
  split <;> infer_instance

end State

/-- Threads that call the functions of queues and events, and executors. -/
def lockMachine : Machine State Label where
  init s := s = ⟨fun _ => none, fun _ => [], [], 0, fun _ => false, fun _ => 0, fun _ => .created,
    fun _ => false, fun _ => false, fun _ => [], fun _ => [], fun _ => 0⟩
  step s
    | .create => some (s.create 1)
    | .memcpy q ev =>
      if s.holder (.queue q) = none ∧ s.eventCount q = 0 ∧ s.Live ev ∧ s.status ev ≠ .submitted then
        some { s with
          status := update s.status ev .submitted
          sdma := update s.sdma ev true
          flag := update s.flag ev true
          qSet := update s.qSet ev (s.qSet ev ++ [q])
          reqSet := update s.reqSet q (s.reqSet q ++ [ev]) }
      else none
    | .call t c => if s.CanCall t then s.begin t c else none
    | .answer t done =>
      match s.stack t with
      | .querying ev c :: rest =>
        if done then
          some (({ s with
            flag := update s.flag ev false
            status := update s.status ev .complete }.unlock (.event ev)).afterQuery t rest c)
        else if s.flag ev then some ((s.unlock (.event ev)).afterQuery t rest c)
        else none
      | _ => none
    | .next t => s.next t
    | .place t => s.place t
    | .run t i =>
      if s.CanRun t then
        s.tasks[i]?.map fun x =>
          { s with tasks := s.tasks.eraseIdx i }.put t (x.frames ++ s.stack t)
      else none

/-- A thread waits for a lock that another one, or it itself, has. -/
def WaitsFor (s : State) (t t' : Nat) : Prop :=
  ∃ f rest l, s.stack t = f :: rest ∧ f.wants = some l ∧ s.holder l = some t'

/-- Threads wait for each other in a cycle. -/
def Deadlock (s : State) : Prop := ∃ t, Relation.TransGen (WaitsFor s) t t

end Kupl.Locks
