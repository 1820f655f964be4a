import Kupl.Dag.Gnode
import Kupl.Machine.Run

/-!
# Queues of events

The queues of `src/mt/kupl_queue.cpp` and the events of `src/mt/kupl_event.cpp`. An item of a queue is
the function of an event, run by the task of the event. Under the lock of the queue `kupl_enqueue_event`
makes that task a successor of the task of `last_event`, and `kupl_queue_wait_event` of the task of the
awaited event too; when the function has returned the task takes its event out of the queue, before it is
marked as finished.

C++ → Lean naming: `kupl_event_t`, with the task it has, → `Event`; `kupl_queue_t` → `Queue`;
`kupl_event_status_t` → `Status`; `kupl_event_type_t` → `Kind`, with a kind of its own for the events of
`kupl_queue_submit_request`; `kupl_event_init` → `Event.init`/`State.eventInit`; `kupl_event_deref` →
`Event.deref`; `kupl_task_deref` → `Event.taskDeref`; the parameters of `kupl_event_submit` and what is
left to do of a call or of a task → `Pc`.

An agent is a thread in a call or an executor in a task; each takes one step at a time, in any order. What
is done under a lock is one step as far as only those look at it who have the lock: an enqueue is several
steps, since the task it adds can be run before the queue is unlocked, and so is a dequeue, since the
event it drops a reference of can be destroyed meanwhile. An event is a number, the next one for each
event that is created, and its task is the one it has in place. A call that the function of an item makes
is an agent of its own, and so is a task that a thread runs while it waits. A caller that has destroyed an
event passes it to no other call, and destroys it when no call with it is in progress.

History for the statements: `items` are the events in the order they were enqueued, `added` and `dequeued`
are the numbers of the items that were given to the scheduler and that were dequeued, `trace` says when
their functions began and returned, `inPlace` are the agents in a function that `kupl_queue_submit` runs
itself, in a synchronous queue; an event knows its number in the queue, who has the reference it was created
with, how often it was set up and was completed and how often its memory was released.

Left out: the transfers of `kupl_memcpy_async` but for the requests they leave in a queue, and a queue that
is destroyed.
-/

namespace Kupl.Events
open Dag

/-- C++ `kupl_event_status_t`. -/
inductive Status where
  | created
  | submitted
  | complete
  deriving DecidableEq, Repr

/-- C++ `kupl_event_type_t`. -/
inductive Kind where
  | init
  | wait
  | record
  | kernel
  | request
  deriving DecidableEq, Repr

/-- Who has the reference an event is created with. -/
inductive Owner where
  | none
  | user
  | call (agent : Nat)
  deriving DecidableEq, Repr

/-- The function of an item begins, or returns. -/
inductive Mark where
  | start (item : Nat)
  | stop (item : Nat)
  deriving DecidableEq, Repr

/-- C++ `kupl_event_t` and its task: whether it has finished and its references. `live` is a task that was set
up and has not released its successors, `linking` one that still gets predecessors; `users` are the agents
in a call of the user with the event. -/
structure Event where
  kind : Kind
  wait : Option Nat
  q : Option Nat
  status : Status
  finished : Bool
  ref : Int
  taskRef : Int
  owner : Owner
  live : Bool
  linking : Bool
  item : Nat
  inits : Nat
  completes : Nat
  freed : Nat
  taskFreed : Nat
  users : List Nat

/-- An item: its event, and the event it awaits with how often that was set up. -/
structure Item where
  event : Nat
  awaits : Option (Nat × Nat)
  deriving DecidableEq, Repr

/-- C++ `kupl_queue_t`; `requests` says that `req_set` is not empty. -/
structure Queue where
  eventCount : Int
  lastEvent : Option Nat
  locked : Bool
  requests : Bool
  inPlace : List Nat
  items : List Item
  added : List Nat
  dequeued : List Nat
  trace : List Mark

/-- Where an agent is. -/
inductive Pc where
  | idle
  /-- In the function of an item of a synchronous queue. -/
  | inPlace (queue : Nat)
  /-- In `kupl_event_record`, behind the check of the status. -/
  | checked (event queue : Nat)
  /-- Behind `kupl_event_init`. -/
  | armed (event queue : Nat)
  /-- In `kupl_event_submit`, with the lock of the queue, before the edges from `rest`, behind `edges` of them. -/
  | submitting (event queue : Nat) (rest : List Nat) (edges : Nat)
  /-- In `kupl_gnode_precede`, behind the unlock of the predecessor. -/
  | counting (event queue precede : Nat) (rest : List Nat) (edges : Nat)
  /-- Behind `kupl_event_submit`. -/
  | leaving (event queue : Nat)
  /-- In `kupl_queue_wait_event`, waiting for the event it created. -/
  | awaitOwn (event : Nat)
  /-- In `kupl_queue_wait`, with the task it waits for and the number of items before it. -/
  | waiting (queue : Nat) (task : Option Nat) (before : Nat)
  /-- In `kupl_event_wait`. -/
  | awaiting (event : Nat)
  /-- In `event_func`, in the function of the event. -/
  | item (event queue item : Nat)
  /-- In `event_func`, behind the function and the status. -/
  | flagged (event item : Nat)
  /-- In `kupl_dequeue_event`, before `kupl_event_deref`. -/
  | dequeuing (event queue : Nat)
  /-- In `kupl_dequeue_event`, behind `kupl_event_deref`. -/
  | clearing (event queue : Nat)
  /-- Behind `event_func`. -/
  | dequeued (event : Nat)
  /-- In `kupl_task_finish`. -/
  | finishing (event : Nat)
  /-- In `kupl_task_finish`, with the ready tasks. -/
  | scheduling (event : Nat) (ready : List Nat)
  deriving DecidableEq, Repr

structure State where
  queue : Nat → Queue
  event : Nat → Event
  gnode : Nat → Gnode Nat
  ready : List Nat
  created : Nat
  pc : Nat → Pc

/-- What happens next: a transfer leaves a request, a call begins, an executor takes a task, or an agent takes
its next step. -/
inductive Label where
  | transfer (queue : Nat)
  | create
  | query (event : Nat)
  | submit (agent queue : Nat)
  | record (agent event queue : Nat)
  | waitEvent (agent queue event : Nat)
  | wait (agent queue : Nat)
  | eventWait (agent event : Nat)
  | destroy (agent event : Nat)
  | run (agent event : Nat)
  | next (agent : Nat)

def eventBlank : Event :=
  ⟨.init, none, none, .created, false, 0, 0, .none, false, false, 0, 0, 0, 0, 0, []⟩

/-- A new event (C++ `kupl_event_create`). -/
def eventCreate (owner : Owner) : Event := { eventBlank with ref := 1, taskRef := 1, owner := owner }

/-- A new queue (C++ `kupl_queue_create`). -/
def queueCreate : Queue := ⟨0, none, false, false, [], [], [], [], []⟩

namespace Event
variable (E : Event)

/-- The event is set up for a queue, its task anew (C++ `kupl_event_init`). -/
def init (kind : Kind) (wait : Option Nat) (queue : Nat) : Event := { E with
  kind := kind
  wait := wait
  q := some queue
  finished := false
  taskRef := E.taskRef + 1
  live := true
  inits := E.inits + 1 }

/-- The event is counted and submitted; an event of `kupl_queue_submit` keeps the reference it was created
with for its task (C++ `kupl_enqueue_event`, `kupl_queue_submit_request`). -/
def submit (item : Nat) (linking : Bool) : Event := { E with
  status := .submitted
  ref := if E.kind = .kernel then E.ref else E.ref + 1
  owner := if E.kind = .kernel ∨ E.kind = .request then .none else E.owner
  linking := linking
  item := item }

/-- Drops a reference of the task (C++ `kupl_task_deref`). -/
def taskDeref : Event := { E with
  taskRef := E.taskRef - 1
  taskFreed := if E.taskRef = 1 then E.taskFreed + 1 else E.taskFreed }

/-- Drops a reference (C++ `kupl_event_deref`). -/
def deref : Event :=
  if E.ref = 1 then { E with ref := 0, freed := E.freed + 1 }.taskDeref else { E with ref := E.ref - 1 }

end Event

namespace State
variable (s : State)

@[simp] def setPc (agent : Nat) (pc : Pc) : State := { s with pc := Function.update s.pc agent pc }

@[simp] def setQueue (queue : Nat) (q : Queue) : State := { s with queue := Function.update s.queue queue q }

@[simp] def setEvent (event : Nat) (e : Event) : State := { s with event := Function.update s.event event e }

/-- C++ `kupl_event_create`. -/
def create (owner : Owner) : State :=
  { s.setEvent s.created (eventCreate owner) with created := s.created + 1 }

/-- C++ `kupl_event_init`. -/
def eventInit (event : Nat) (kind : Kind) (wait : Option Nat) (queue : Nat) : State :=
  { s.setEvent event ((s.event event).init kind wait queue) with
    gnode := Function.update s.gnode event gnodeInit }

/-- The tasks that precede the task of an event (C++ `kupl_event_submit`). -/
def sources (event queue : Nat) : List Nat :=
  (s.queue queue).lastEvent.toList ++
    if (s.event event).kind = .wait then (s.event event).wait.toList else []

def awaits (event : Nat) : Option (Nat × Nat) :=
  if (s.event event).kind = .wait then (s.event event).wait.map fun w => (w, (s.event w).inits) else none

/-- The first part of C++ `kupl_enqueue_event`: the event is counted and submitted. -/
def enqueue (event queue : Nat) : State :=
  let q := s.queue queue
  (s.setQueue queue { q with
    eventCount := q.eventCount + 1
    locked := true
    items := q.items ++ [⟨event, s.awaits event⟩] }).setEvent event
      ((s.event event).submit q.items.length !(s.sources event queue).isEmpty)

/-- Whether the event still gets predecessors. -/
def setLinking (event : Nat) (rest : List Nat) : State :=
  s.setEvent event { s.event event with linking := !rest.isEmpty }

/-- The last part of C++ `kupl_enqueue_event`. -/
def leave (event queue : Nat) : State :=
  s.setQueue queue { s.queue queue with lastEvent := some event, locked := false }

def note (queue : Nat) (mark : Mark) : State :=
  s.setQueue queue { s.queue queue with trace := (s.queue queue).trace ++ [mark] }

/-- C++ `kupl_sched_add_tb`. -/
def schedAddTb (event : Nat) : State :=
  let added := { s with ready := event :: s.ready }
  (s.event event).q.elim added fun queue => added.setQueue queue
    { s.queue queue with added := (s.queue queue).added ++ [(s.event event).item] }

/-- The function of an event has returned. -/
def stop (event queue item : Nat) : State :=
  let q := s.queue queue
  (s.setQueue queue { q with
    trace := q.trace ++ [.stop item]
    requests := if (s.event event).kind = .request then false else q.requests }).setEvent event
      { s.event event with status := .complete, completes := (s.event event).completes + 1 }

/-- C++ `kupl_dequeue_event`, before `kupl_event_deref`. -/
def dequeue (event queue item : Nat) : State :=
  let q := s.queue queue
  (s.setQueue queue { q with
    eventCount := q.eventCount - 1
    locked := true
    dequeued := q.dequeued ++ [item] }).setEvent event { s.event event with status := .complete }

/-- C++ `kupl_dequeue_event`, behind `kupl_event_deref`. -/
def clear (event queue : Nat) : State :=
  let q := s.queue queue
  s.setQueue queue { q with
    lastEvent := if q.lastEvent = some event then none else q.lastEvent
    locked := false }

/-- A call of the user with the event begins. -/
def use (agent event : Nat) : State :=
  s.setEvent event { s.event event with users := agent :: (s.event event).users }

/-- A call of the user with the event ends. -/
def unuse (agent event : Nat) : State :=
  s.setEvent event { s.event event with users := (s.event event).users.filter (· ≠ agent) }

/-- C++ `kupl_event_destroy`. -/
def destroy (event : Nat) : State :=
  s.setEvent event { (s.event event) with owner := .none }.deref

/-- An event of `kupl_queue_submit` or of `kupl_queue_wait_event` is created and set up. -/
def arm (agent : Nat) (kind : Kind) (wait : Option Nat) (queue : Nat) : State :=
  ((s.create (.call agent)).eventInit s.created kind wait queue).setPc agent (.armed s.created queue)

/-- An event is enqueued, up to the edges. -/
def enter (agent event queue : Nat) : State :=
  (s.enqueue event queue).setPc agent (.submitting event queue (s.sources event queue) 0)

/-- The call goes on behind `kupl_enqueue_event`. -/
def afterEnqueue (agent event queue : Nat) : State :=
  match (s.event event).kind with
  | .wait => s.setPc agent (.awaitOwn event)
  | .request => s.arm agent .kernel none queue
  | _ => (s.unuse agent event).setPc agent .idle

end State

/-- C++ `kupl_queue_submit`, up to the enqueue; in a synchronous queue the function is run at once. -/
def queueSubmit (sync : Nat → Bool) (s : State) (agent queue : Nat) : Option State :=
  let q := s.queue queue
  if sync queue then
    some ((s.setQueue queue { q with inPlace := agent :: q.inPlace }).setPc agent (.inPlace queue))
  else if q.locked then none
  else if q.eventCount = 0 ∧ q.requests = true then
    some ((s.arm agent .request none queue).enter agent s.created queue)
  else some (s.arm agent .kernel none queue)

/-- C++ `kupl_event_record`, up to the check of the status. -/
def eventRecord (s : State) (agent event queue : Nat) : State :=
  if (s.event event).status = .submitted then s
  else (s.use agent event).setPc agent (.checked event queue)

/-- C++ `kupl_queue_wait_event`, up to the enqueue. -/
def queueWaitEvent (s : State) (agent queue event : Nat) : State :=
  if (s.event event).status = .created then s
  else (s.use agent event).arm agent .wait (some event) queue

/-- C++ `kupl_queue_wait`, up to the unlock. -/
def queueWait (s : State) (agent queue : Nat) : State :=
  let q := s.queue queue
  if q.eventCount = 0 then
    (s.setQueue queue { q with requests := false }).setPc agent (.waiting queue none q.items.length)
  else
    match q.lastEvent with
    | none => s.setPc agent (.waiting queue none q.items.length)
    | some e => (s.setEvent e { s.event e with taskRef := (s.event e).taskRef + 1 }).setPc agent
        (.waiting queue (some e) q.items.length)

/-- C++ `kupl_event_wait`, up to the wait. -/
def eventWait (s : State) (agent event : Nat) : State :=
  if (s.event event).status = .created then s
  else (s.use agent event).setPc agent (.awaiting event)

/-- The next step of an agent; `none` where it has none, or waits. -/
def step (s : State) (agent : Nat) : Option State :=
  match s.pc agent with
  | .idle => none
  | .inPlace queue =>
    some ((s.setQueue queue { s.queue queue with
      inPlace := (s.queue queue).inPlace.erase agent }).setPc agent .idle)
  | .checked e queue => some ((s.eventInit e .record none queue).setPc agent (.armed e queue))
  | .armed e queue => if (s.queue queue).locked then none else some (s.enter agent e queue)
  | .submitting e queue (p :: ps) n =>
    if (s.event p).finished then some ((s.setLinking e ps).setPc agent (.submitting e queue ps n))
    else some ({ s with gnode := gnodeInsert s.gnode p e }.setPc agent (.counting e queue p ps n))
  | .counting e queue _ ps n =>
    some (({ s with gnode := gnodeCount s.gnode e }.setLinking e ps).setPc agent (.submitting e queue ps (n + 1)))
  | .submitting e queue [] 0 => some ((s.schedAddTb e).setPc agent (.leaving e queue))
  | .submitting e queue [] (_ + 1) => some (s.setPc agent (.leaving e queue))
  | .leaving e queue => some ((s.leave e queue).afterEnqueue agent e queue)
  | .awaitOwn e =>
    if (s.event e).finished then
      some (((s.event e).wait.elim s (s.unuse agent)).destroy e |>.setPc agent .idle)
    else none
  | .waiting _ none _ => some (s.setPc agent .idle)
  | .waiting _ (some e) _ =>
    if (s.event e).finished then some ((s.setEvent e (s.event e).taskDeref).setPc agent .idle) else none
  | .awaiting e => if (s.event e).finished then some ((s.unuse agent e).setPc agent .idle) else none
  | .item e queue k => some ((s.stop e queue k).setPc agent (.flagged e k))
  | .flagged e k =>
    match (s.event e).q with
    | none => some (s.setPc agent (.dequeued e))
    | some queue =>
      if (s.queue queue).locked then none
      else some ((s.dequeue e queue k).setPc agent (.dequeuing e queue))
  | .dequeuing e queue => some ((s.setEvent e (s.event e).deref).setPc agent (.clearing e queue))
  | .clearing e queue => some ((s.clear e queue).setPc agent (.dequeued e))
  | .dequeued e =>
    some ((s.setEvent e { s.event e with finished := true }).setPc agent (.finishing e))
  | .finishing e =>
    let r := gnodeReleaseReady s.gnode e
    some (({ s with gnode := r.1 }.setEvent e { s.event e with live := false }).setPc agent (.scheduling e r.2))
  | .scheduling e [] => some ((s.setEvent e (s.event e).taskDeref).setPc agent .idle)
  | .scheduling e (t :: ts) => some ((s.schedAddTb t).setPc agent (.scheduling e ts))

def runTask (s : State) (agent event : Nat) : Option State :=
  match (s.event event).q with
  | none => none
  | some queue =>
    if event ∈ s.ready then
      some (({ s with ready := s.ready.erase event }.note queue (.start (s.event event).item)).setPc agent
        (.item event queue (s.event event).item))
    else none

/-- The agent begins a call with an event of the user. -/
def State.CanUse (s : State) (agent event : Nat) : Prop :=
  s.pc agent = .idle ∧ (s.event event).owner = .user

instance (s : State) (agent event : Nat) : Decidable (s.CanUse agent event) :=
  inferInstanceAs (Decidable (_ ∧ _))

/-- The queues with their callers and executors; `sync` are the synchronous ones. -/
def queueMachine (sync : Nat → Bool) : Machine State Label where
  init s := s = ⟨fun _ => queueCreate, fun _ => eventBlank, fun _ => gnodeInit, [], 0, fun _ => .idle⟩
  step s
    | .transfer q =>
      if (s.queue q).locked = false ∧ (s.queue q).eventCount = 0 then
        some (s.setQueue q { s.queue q with requests := true })
      else none
    | .create => some (s.create .user)
    | .query e => if (s.event e).owner = .user then some s else none
    | .submit a q => if s.pc a = .idle then queueSubmit sync s a q else none
    | .record a e q => if s.CanUse a e then some (eventRecord s a e q) else none
    | .waitEvent a q e => if s.CanUse a e then some (queueWaitEvent s a q e) else none
    | .wait a q =>
      if s.pc a = .idle ∧ (s.queue q).locked = false then some (queueWait s a q) else none
    | .eventWait a e => if s.CanUse a e then some (eventWait s a e) else none
    | .destroy a e =>
      if s.CanUse a e ∧ (s.event e).users = [] then some (s.destroy e) else none
    | .run a e => if s.pc a = .idle then runTask s a e else none
    | .next a => step s a

/-- An agent does not meet an event half-way: it sets none up again before its task has released its
successors, and does not release the item of a `kupl_queue_wait_event` that still gets predecessors. -/
def State.Meets (s : State) : Pc → Prop
  | .checked e _ => (s.event e).live = false
  | .finishing e => ∀ t ∈ succs s.gnode e, (s.event t).kind = .wait → (s.event t).linking = false
  | _ => True

instance (s : State) (pc : Pc) : Decidable (s.Meets pc) := by
  cases pc <;> unfold State.Meets <;> infer_instance

/-- The step does not meet an event half-way. -/
def Orderly (s : State) : Label → Prop
  | .next a => s.Meets (s.pc a)
  | _ => True

instance (s : State) (l : Label) : Decidable (Orderly s l) := by
  cases l <;> unfold Orderly <;> infer_instance

end Kupl.Events
