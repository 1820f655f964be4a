import Kupl.Memcpy.Call
import Kupl.Queue.Event

/-!
# Events of asynchronous copies (`kupl_memcpy.cpp`, `kupl_event.cpp`)

An asynchronous copy submits its event before it does the rest, along one of three paths: to the channel of its core,
to the channel of an idle queue, or as a task of a busy queue. Whatever fails after that leaves the event submitted on
some paths and complete on others, and of a type of its own.

| source | here |
|---|---|
| `kupl_event_t`; `event->task`, `event->m_args`, `event->req` | `Event`; `task`, `mArgs`, `req` |
| `kupl_event_query`, `kupl_sdma_query_event` | `eventQuery`, `sdmaQueryEvent` |
| `kupl_event_wait`, `kupl_sdma_wait_event`, `kupl_task_wait` | `eventWait`, `sdmaWaitEvent`, `taskWait` |
| `kupl_set_sdma_event`, `kupl_set_sdma_event_req` | `setSdmaEvent`, `setSdmaEventReq` |
| `kupl_set_sdma_async_event` | `setSdmaAsyncEvent` |
| `kupl_event_init`, `kupl_submit_memcpy_async_task` | `eventInit`, `submitMemcpyAsyncTask` |
| `kupl_memcpy_async_with_queue` | `memcpyAsyncWithQueue` |
| `kupl_submit_memcpy_task`, `kupl_submit_memcpy2d_task` | `submitMemcpyTask` |
| `kupl_event_record` | `eventRecord` |
| `kupl_memcpy_async`, `kupl_memcpy2d_async` | `memcpyAsync` of a `Job` |

A function is `none` where it does not return: it waits for a task or for a transfer, or follows a null pointer.
`R` are the values of `sdma_request_t`. An event has its `req` and is not null.
-/

namespace Kupl.Memcpy.Async
open Option
open Events (Status)

/-- (C++ `kupl_event_type_t`). -/
inductive EventType where
  | init
  | wait
  | record
  | kernel
  | sdma
  | sdmaWait
deriving DecidableEq

/-- How far a task is (C++ `kupl_tb_state_t`). -/
inductive TaskState where
  | created
  | inited
  | finished
deriving DecidableEq

/-- (C++ `kupl_sdma_async_t`). -/
structure SdmaAsync (R : Type) where
  request : R
  chnIndex : Nat
deriving DecidableEq

/-- (C++ `kupl_sdma_request_t`). -/
structure SdmaRequest (R : Type) where
  flag : Bool
  request : R
deriving DecidableEq

/-- (C++ `kupl_event_t`). -/
structure Event (R : Type) where
  type : EventType
  status : Status
  q : Option Nat
  mArgs : Option (SdmaAsync R)
  req : SdmaRequest R
  task : Option TaskState
deriving DecidableEq

/-- (C++ `kupl_queue_t`). -/
structure Queue where
  id : Nat
  eventCount : Int
deriving DecidableEq

/-- The library and the driver: whether there is an SDMA device (C++ `sdma_memcpy_func_init`), the channels of the cores
(C++ `g_sdma_chns`) and of the queues (C++ `sdma_chn`), what the driver says of a request, and whether there is the
global graph. -/
structure Env (R : Type) where
  sdma : Bool
  chns : Nat → Option Nat
  queueChn : Nat → Option Nat
  iquery : Option Nat → R → Int
  graph : Bool

/-- What a call gets: whether the library is started, memory for `m_args`, for the request or the package of a task, and
for a lock, the channel of its core, the number of its executor, and what the driver returns and leaves in the
request. -/
structure Answers (R : Type) where
  started : Bool
  args : Bool
  request : Bool
  lock : Bool
  channel : Bool
  executor : Bool
  cid : Nat
  icopy : Int
  filled : R

variable {R : Type}

/-! ## Queries and waits -/

/-- (C++ `KUPL_SDMA_UNFINISHED`). -/
def sdmaUnfinished : Int := -8

/-- (C++ `KUPL_SDMA_FINISHED`). -/
def sdmaFinished : Int := 0

/-- (C++ `kupl_sdma_query_req`). -/
def sdmaQueryReq (env : Env R) (chn : Option Nat) (req : R) : Status :=
  if env.iquery chn req = sdmaUnfinished then .submitted else .complete

/-- (C++ `kupl_sdma_query_event`). -/
def sdmaQueryEvent (env : Env R) (E : Event R) : Option (Status × Event R) :=
  if env.sdma = false then some (.complete, E)
  else if E.status = .complete then some (.complete, E)
  else
    match E.q, E.mArgs with
    | some q, _ =>
      if E.req.flag then
        let ret := sdmaQueryReq env (env.queueChn q) E.req.request
        some (ret, if ret = .complete then { E with req := { E.req with flag := false } } else E)
      else some (.complete, E)
    | none, some args => some (sdmaQueryReq env (env.chns args.chnIndex) args.request, E)
    | none, none => none

/-- (C++ `kupl_event_query`). -/
def eventQuery (env : Env R) (E : Event R) : Option (Status × Event R) :=
  if E.type = .sdma then
    (sdmaQueryEvent env E).map fun r =>
      (r.1, if r.2.status ≠ .complete ∧ r.1 = .complete then { r.2 with status := .complete } else r.2)
  else some (E.status, E)

/-- (C++ `kupl_graph_wait_req`). -/
def graphWaitReq (env : Env R) (chn : Option Nat) (req : R) : Option Bool :=
  if env.iquery chn req = sdmaUnfinished then none else some (env.iquery chn req = sdmaFinished)

/-- (C++ `kupl_sdma_wait_event`). -/
def sdmaWaitEvent (env : Env R) (E : Event R) : Option (Bool × Event R) :=
  if env.sdma = false then some (false, E)
  else if E.status = .complete then some (true, E)
  else if env.graph = false then some (false, E)
  else
    match E.q, E.mArgs with
    | some q, _ =>
      if E.req.flag then
        (graphWaitReq env (env.queueChn q) E.req.request).map fun ret =>
          (ret, { E with req := { E.req with flag := false } })
      else some (true, E)
    | none, some args => (graphWaitReq env (env.chns args.chnIndex) args.request).map fun ret => (ret, E)
    | none, none => none

/-- (C++ `kupl_task_wait`). -/
def taskWait : Option TaskState → Option Bool
  | none | some .created => some false
  | some .inited => none
  | some .finished => some true

/-- (C++ `kupl_event_wait`). -/
def eventWait (env : Env R) (E : Event R) : Option (Bool × Event R) :=
  if E.status = .created then some (false, E)
  else if E.type = .sdma then (sdmaWaitEvent env E).map fun r => (r.1, { r.2 with status := .complete })
  else
    (taskWait E.task).bind fun ret =>
      (eventQuery env E).map fun r => (if r.1 ≠ .complete then false else ret, r.2)

/-! ## Submissions -/

/-- (C++ `kupl_set_sdma_event`); a new request is what the driver has left in it, or `zero`. -/
def setSdmaEvent (A : Answers R) (zero : R) (E : Event R) : Bool × Event R :=
  if E.status = .submitted then (false, E)
  else
    let E := { E with status := .submitted, type := .sdma }
    match E.mArgs with
    | none =>
      if A.args = false then (false, { E with status := .complete })
      else (true, { E with mArgs := some ⟨zero, A.cid⟩, q := none })
    | some args => (true, { E with mArgs := some { args with chnIndex := A.cid }, q := none })

/-- (C++ `kupl_set_sdma_event_req`). -/
def setSdmaEventReq (E : Event R) : Bool × Event R :=
  if E.status = .submitted then (false, E) else (true, { E with status := .submitted, type := .sdma })

/-- (C++ `kupl_set_sdma_async_event`). -/
def setSdmaAsyncEvent (E : Event R) : Bool × Event R :=
  if E.status = .submitted then (false, E) else (true, { E with status := .submitted, type := .sdmaWait })

/-- (C++ `kupl_event_init`); the graph node of the task is cleaned up in any case, and set up with a new lock. -/
def eventInit (env : Env R) (A : Answers R) (queue : Queue) (type : EventType) (E : Event R) :
    Option (Bool × Event R) :=
  if A.executor = false then some (false, E)
  else
    E.task.map fun _ =>
      if env.graph = false then (false, E)
      else if A.lock = false then (false, { E with task := none })
      else (true, { E with task := some .inited, type := type, q := some queue.id })

/-- (C++ `kupl_submit_memcpy_async_task`). -/
def submitMemcpyAsyncTask (env : Env R) (A : Answers R) (queue : Queue) (E : Event R) :
    Option (Bool × Event R × Queue) :=
  (eventInit env A queue .record E).map fun r =>
    if r.1 = false then (false, r.2, queue)
    else (true, { r.2 with status := .submitted }, { queue with eventCount := queue.eventCount + 1 })

/-- (C++ `kupl_memcpy_async_with_queue`). -/
def memcpyAsyncWithQueue (env : Env R) (A : Answers R) (queue : Queue) (E : Event R) :
    Option (Bool × Event R × Queue) :=
  if queue.eventCount = 0 then
    let r := setSdmaEventReq E
    if r.1 = false then some (false, r.2, queue)
    else
      let E := { r.2 with req := { r.2.req with request := A.filled } }
      if A.icopy ≠ 0 then some (false, { E with status := .complete }, queue)
      else some (true, { E with req := { E.req with flag := true }, q := some queue.id }, queue)
  else
    let r := setSdmaAsyncEvent E
    if r.1 = false then some (false, r.2, queue)
    else if A.request = false then some (false, r.2, queue)
    else submitMemcpyAsyncTask env A queue r.2

/-- (C++ `kupl_submit_memcpy_task`, `kupl_submit_memcpy2d_task`); the status of `kupl_queue_submit` is dropped. -/
def submitMemcpyTask (A : Answers R) (queue : Option Queue) : Bool := queue.isSome && A.request

/-- (C++ `kupl_event_record`). -/
def eventRecord (env : Env R) (A : Answers R) (queue : Option Queue) (E : Event R) :
    Option (Bool × Event R × Option Queue) :=
  match queue with
  | none => some (false, E, none)
  | some q =>
    (eventQuery env E).bind fun r =>
      if r.1 = .submitted then some (false, r.2, some q)
      else (submitMemcpyAsyncTask env A q r.2).map fun r => (r.1, r.2.1, some r.2.2)

/-- (C++ `kupl_memcpy_async`, `kupl_memcpy2d_async`). -/
def memcpyAsync (env : Env R) (zero : R) (A : Answers R) (j : Job) (queue : Option Queue) (E : Event R) :
    Option (Bool × Event R × Option Queue) :=
  if A.started = false then some (false, E, queue)
  else if j.check = false then some (false, E, queue)
  else if j.bytes ≠ 0 ∧ env.sdma = true then
    match queue with
    | none =>
      let r := setSdmaEvent A zero E
      if A.channel = false ∨ r.1 = false then some (false, r.2, none)
      else
        let E := { r.2 with mArgs := r.2.mArgs.map fun args => { args with request := A.filled } }
        if A.icopy ≠ 0 then some (false, { E with status := .complete }, none)
        else some (true, E, none)
    | some q => (memcpyAsyncWithQueue env A q E).map fun r => (r.1, r.2.1, some r.2.2)
  else if submitMemcpyTask A queue = false then some (false, E, queue)
  else (eventRecord env A queue E).map fun r => (true, r.2)

/-! ## Calls that fail -/

/-- An event is after a call as it was before: a query returns the same status, a wait that returned before returns and
leaves the same status, a submission is not refused if it was not before, and the event has its task. -/
structure Kept (env : Env R) (E E' : Event R) : Prop where
  query : (eventQuery env E').map Prod.fst = (eventQuery env E).map Prod.fst
  wait : ∀ r, eventWait env E = some r → ∃ r', eventWait env E' = some r' ∧ r'.2.status = r.2.status
  again : E.status ≠ .submitted → E'.status ≠ .submitted
  task : E.task ≠ none → E'.task ≠ none

/-- A call that does not get to its event: it is refused, or it leaves the copy to a task of the queue. -/
def Untouched (env : Env R) (A : Answers R) (j : Job) (E : Event R) : Prop :=
  A.started = false ∨ j.check = false ∨ ¬ (j.bytes ≠ 0 ∧ env.sdma = true) ∨ E.status = .submitted

/-- A path that makes its event complete when it fails: to the channel of an idle queue, or to that of the core if there
is one, or if there is no memory for `m_args`. -/
def Completes (A : Answers R) (E : Event R) : Option Queue → Prop
  | none => (E.mArgs = none ∧ A.args = false) ∨ A.channel = true
  | some q => q.eventCount = 0

variable {env : Env R} {z : R} {A : Answers R} {j : Job} {queue queue' : Option Queue} {q q' : Queue} {E E' : Event R}

lemma Kept.refl : Kept env E E := ⟨rfl, fun r returns => ⟨r, returns, rfl⟩, fun h => h, fun h => h⟩

/-- What a path makes of its event when it fails. -/
inductive Left (A : Answers R) (queue : Option Queue) (E E' : Event R) : Prop
  | complete (path : Completes A E queue) (type : E'.type = .sdma) (status : E'.status = .complete)
      (task : E'.task = E.task)
  | submitted (path : ¬ Completes A E queue) (status : E'.status = .submitted)

lemma setSdmaEvent_cases (free : E.status ≠ .submitted) : ((E.mArgs = none ∧ A.args = false) ∧
      setSdmaEvent A z E = (false, { E with status := .complete, type := .sdma })) ∨
    (¬ (E.mArgs = none ∧ A.args = false) ∧ ∃ E', setSdmaEvent A z E = (true, E') ∧ E'.type = .sdma ∧
      E'.status = .submitted ∧ E'.task = E.task) := by
  rw [setSdmaEvent, if_neg free]
  cases args : E.mArgs with
  | none =>
    cases memory : A.args with
    | false => exact .inl ⟨⟨rfl, rfl⟩, rfl⟩
    | true =>
      refine .inr ⟨?_, _, rfl, rfl, rfl, rfl⟩
      rintro ⟨-, ⟨⟩⟩
  | some a =>
    refine .inr ⟨?_, _, rfl, rfl, rfl, rfl⟩
    rintro ⟨⟨⟩, -⟩

lemma of_eventInit {type : EventType} (failed : eventInit env A q type E = some (false, E')) :
    E'.status = E.status := by
  unfold eventInit at failed
  split at failed
  case isTrue =>
    cases failed
    rfl
  case isFalse =>
    obtain ⟨t, -, is⟩ := map_eq_some_iff.1 failed
    split at is
    case isTrue =>
      cases is
      rfl
    case isFalse =>
      split at is
      case isTrue =>
        cases is
        rfl
      case isFalse => cases is

lemma of_submitMemcpyAsyncTask (failed : submitMemcpyAsyncTask env A q E = some (false, E', q')) :
    E'.status = E.status := by
  obtain ⟨⟨ok, E''⟩, init, is⟩ := map_eq_some_iff.1 failed
  dsimp only at is
  split at is
  case isTrue fails =>
    cases is
    rw [fails] at init
    exact of_eventInit init
  case isFalse => cases is

lemma left_of_queue (free : E.status ≠ .submitted)
    (failed : memcpyAsyncWithQueue env A q E = some (false, E', q')) : Left A (some q) E E' := by
  rw [memcpyAsyncWithQueue, setSdmaEventReq, setSdmaAsyncEvent, if_neg free, if_neg free] at failed
  dsimp only at failed
  split at failed
  case isTrue idle =>
    rw [if_neg (by decide)] at failed
    split at failed
    case isTrue =>
      cases failed
      exact .complete idle rfl rfl rfl
    case isFalse => cases failed
  case isFalse busy =>
    rw [if_neg (by decide)] at failed
    split at failed
    case isTrue =>
      cases failed
      exact .submitted busy rfl
    case isFalse => exact .submitted busy (of_submitMemcpyAsyncTask failed)

lemma left_of_failed (failed : memcpyAsync env z A j queue E = some (false, E', queue')) :
    (Untouched env A j E ∧ E' = E) ∨ (¬ Untouched env A j E ∧ Left A queue E E') := by
  unfold memcpyAsync at failed
  split at failed
  case isTrue notStarted =>
    cases failed
    exact .inl ⟨.inl notStarted, rfl⟩
  case isFalse started =>
    split at failed
    case isTrue refused =>
      cases failed
      exact .inl ⟨.inr (.inl refused), rfl⟩
    case isFalse accepted =>
      split at failed
      case isTrue sdma =>
        by_cases free : E.status = .submitted
        · left
          refine ⟨.inr (.inr (.inr free)), ?_⟩
          cases queue with
          | none =>
            rw [setSdmaEvent, if_pos free, if_pos (.inr rfl)] at failed
            cases failed
            rfl
          | some q =>
            obtain ⟨⟨ok, E'', q'⟩, call, is⟩ := map_eq_some_iff.1 failed
            cases is
            rw [memcpyAsyncWithQueue, setSdmaEventReq, setSdmaAsyncEvent, if_pos free, if_pos free] at call
            rw [if_pos rfl, if_pos rfl, ite_self] at call
            cases call
            rfl
        · right
          refine ⟨?_, ?_⟩
          · rintro (h | h | h | h)
            · exact started h
            · exact accepted h
            · exact h sdma
            · exact free h
          · cases queue with
            | none =>
              dsimp only at failed
              obtain ⟨none, is⟩ | ⟨some, E'', is, type, status, task⟩ :=
                setSdmaEvent_cases (A := A) (z := z) free
              · rw [is, if_pos (.inr rfl)] at failed
                cases failed
                exact .complete (.inl none) rfl rfl rfl
              · rw [is] at failed
                cases channel : A.channel with
                | false =>
                  rw [if_pos (.inl channel)] at failed
                  cases failed
                  refine .submitted ?_ status
                  rintro (none | there)
                  · exact some none
                  · exact Bool.false_ne_true (channel.symm.trans there)
                | true =>
                  rw [if_neg (by simp [channel])] at failed
                  split at failed
                  case isTrue =>
                    cases failed
                    exact .complete (.inr channel) type rfl task
                  case isFalse => cases failed
            | some q =>
              obtain ⟨⟨ok, E'', q'⟩, call, is⟩ := map_eq_some_iff.1 failed
              cases is
              exact left_of_queue free call
      case isFalse other =>
        left
        refine ⟨.inr (.inr (.inl other)), ?_⟩
        split at failed
        case isTrue =>
          cases failed
          rfl
        case isFalse =>
          obtain ⟨r, -, is⟩ := map_eq_some_iff.1 failed
          cases is

lemma query_of_complete (device : env.sdma = true) (status : E.status = .complete) :
    (eventQuery env E).map Prod.fst = some .complete := by
  rw [eventQuery]
  split
  case isTrue =>
    rw [sdmaQueryEvent, if_neg (by simp [device]), if_pos status]
    rfl
  case isFalse => rw [map_some, status]

lemma wait_of_complete (device : env.sdma = true) (type : E.type = .sdma) (status : E.status = .complete) :
    eventWait env E = some (true, E) := by
  have same : { E with status := .complete } = E := by rw [← status]
  rw [eventWait, if_neg (by simp [status]), if_pos type, sdmaWaitEvent, if_neg (by simp [device]), if_pos status,
    map_some, same]

lemma wait_complete {r : Bool × Event R} (status : E.status = .complete) (returns : eventWait env E = some r) :
    r.2.status = .complete := by
  rw [eventWait, if_neg (by simp [status])] at returns
  split at returns
  case isTrue =>
    obtain ⟨r', -, rfl⟩ := map_eq_some_iff.1 returns
    rfl
  case isFalse other =>
    obtain ⟨ok, -, query⟩ := bind_eq_some_iff.1 returns
    rw [eventQuery, if_neg other] at query
    cases query
    exact status

lemma kept_complete (device : env.sdma = true) (free : E.status ≠ .submitted) (type : E'.type = .sdma)
    (status : E'.status = .complete) (task : E'.task = E.task) : Kept env E E' ↔ E.status = .complete := by
  constructor
  · intro K
    cases before : E.status with
    | created =>
      have returns : eventWait env E = some (false, E) := by rw [eventWait, if_pos before]
      obtain ⟨r, is, same⟩ := K.wait _ returns
      rw [wait_of_complete device type status] at is
      cases is
      rw [status, before] at same
      cases same
    | submitted => exact absurd before free
    | complete => rfl
  · intro before
    constructor
    case query => rw [query_of_complete device status, query_of_complete device before]
    case wait =>
      intro r returns
      exact ⟨_, wait_of_complete device type status, status.trans (wait_complete before returns).symm⟩
    case again =>
      intro _ is
      rw [status] at is
      cases is
    case task =>
      rw [task]
      exact fun h => h

/-- After a call that fails, the event is as it was before if and only if the call has not got to it, or the event was
complete and the call went along a path that completes it when it fails. -/
theorem async_kept_iff (failed : memcpyAsync env z A j queue E = some (false, E', queue')) :
    Kept env E E' ↔ Untouched env A j E ∨ (E.status = .complete ∧ Completes A E queue) := by
  obtain ⟨untouched, rfl⟩ | ⟨touched, L⟩ := left_of_failed failed
  · exact ⟨fun _ => .inl untouched, fun _ => .refl⟩
  · have free : E.status ≠ .submitted := fun h => touched (.inr (.inr (.inr h)))
    have device : env.sdma = true := by
      by_contra h
      exact touched (.inr (.inr (.inl fun both => h both.2)))
    rw [or_iff_right touched]
    cases L with
    | complete path type status task =>
      rw [kept_complete device free type status task]
      exact ⟨fun h => ⟨h, path⟩, fun h => h.1⟩
    | submitted path status => exact ⟨fun K => absurd status (K.again free), fun h => absurd h.2 path⟩

def device : Env Nat := ⟨true, fun _ => some 0, fun _ => some 0, fun _ _ => 0, true⟩

/-- Eight bytes. -/
def job : Job := .memcpy ⟨64, 128, 8⟩

/-- The driver does not take the copy. -/
def refused : Answers Nat := ⟨true, true, true, true, true, true, 0, -1, 0⟩

def noRequest : Answers Nat := ⟨true, true, false, true, true, true, 0, 0, 0⟩

/-- A new event (C++ `kupl_event_create`). -/
def newEvent : Event Nat := ⟨.init, .created, none, none, ⟨false, 0⟩, some .created⟩

def oldEvent : Event Nat := ⟨.record, .complete, some 0, none, ⟨false, 0⟩, some .finished⟩

/-- The device refuses a copy for an event that is done. -/
theorem async_kept_old : Kept device oldEvent { oldEvent with type := .sdma } := by
  have failed : memcpyAsync device 0 refused job (some ⟨0, 0⟩) oldEvent =
      some (false, { oldEvent with type := .sdma }, some ⟨0, 0⟩) := by decide
  exact (async_kept_iff failed).2 (.inr ⟨rfl, rfl⟩)

/-- The copy is left to a busy queue, without memory for its request: the new event stays submitted for ever, waits
fail, and no copy takes it any more. -/
theorem async_not_kept : ∃ E',
    memcpyAsync device 0 noRequest job (some ⟨0, 1⟩) newEvent = some (false, E', some ⟨0, 1⟩) ∧
    ¬ Kept device newEvent E' ∧ eventQuery device E' = some (.submitted, E') ∧
      eventWait device E' = some (false, E') ∧
    ∀ A queue, memcpyAsync device 0 A job queue E' = some (false, E', queue) := by
  refine ⟨{ newEvent with status := .submitted, type := .sdmaWait }, by decide, fun K => ?_, by decide, by decide,
    ?_⟩
  · exact K.again (by decide) rfl
  · intro A queue
    unfold memcpyAsync
    split
    · rfl
    · rw [if_neg (by decide), if_pos (by decide)]
      cases queue with
      | none => exact if_pos (.inr rfl)
      | some q =>
        dsimp only
        rw [memcpyAsyncWithQueue, setSdmaEventReq, setSdmaAsyncEvent, if_pos rfl, if_pos rfl]
        rw [if_pos rfl, if_pos rfl, ite_self, map_some]

end Kupl.Memcpy.Async
