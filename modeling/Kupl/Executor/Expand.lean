import Mathlib.Algebra.Group.Nat.Defs
import Mathlib.Logic.Function.Basic

/-!
# Registration of an external thread

`kupl_get_executor_num` of `src/executor/kupl_executor.cpp` with what it calls, in the order of the
source: `kupl_sched_expand` (`src/mt/scheduler/kupl_sched.cpp`), `kupl_memory_expand`
(`src/memory/mpool/kupl_mpool.cpp`), `kupl_executor_expand`. All of it runs under `g_executor_lock`, so a
registration is one step.

C++ → Lean naming: `kupl_sched_t` → `Sched`; `kupl_sched_expand_static_mq_t` → `StaticMq`; `queue_t` →
`LocalQueue`; `kupl_memory_t` → `Memory`; `kupl_executor_base_t` → `Executor`; the functions keep their
words, `kupl_sched_expand_static_mq_create` → `staticMqCreate` and so on; `expand` of the plugin →
`staticMqExpand`.

Pointers are addresses (`Option Nat` where they may be null) of a heap that never hands one out twice; an
object that was freed is not in the heap any more. `none` as the outcome of a function is a read through
a null pointer.
-/

namespace Kupl.Expand
open Function (update)

/-- Size of a `cpu_set_t` in bits. -/
def CPU_SETSIZE : Nat := 1024

/-- A scheduler (C++ `kupl_sched_t`). -/
structure Sched where
  ref : Int
  finished : Bool
  pluginSched : Option Nat

/-- A queue of the expanded scheduler, with the tasks it holds (C++ `queue_t`). -/
structure LocalQueue where
  size : Nat
  tbs : List Nat

/-- What the plugin of the expanded scheduler keeps (C++ `kupl_sched_expand_static_mq_t`). -/
structure StaticMq where
  maxNumExecutors : Nat
  numExecutors : Nat
  queueSize : Nat
  priorityQueues : Nat
  queues : Nat → Option Nat

/-- The bins of an executor (C++ `kupl_memory_t`). -/
structure Memory where
  eid : Nat

/-- The objects that are allocated. -/
structure Heap where
  next : Nat
  scheds : Nat → Option Sched
  mqs : Nat → Option StaticMq
  queues : Nat → Option LocalQueue
  memories : Nat → Option Memory

/-- An entry of the executor table (C++ `kupl_executor_base_t`). -/
structure Executor where
  executorId : Nat
  stop : Bool
  lock : Option Nat
  isMasterExecutor : Bool
  sched : Option Nat

/-- The globals that a registration reads or writes. `globalId` is the thread-local executor id, `none`
for `KUPL_EXECUTOR_DEFAULT`; `plugins` tells whether the plugin table `g_info` is loaded. -/
structure Globals where
  heap : Heap
  globalId : Nat → Option Nat
  executorCountInitial : Nat
  executorCount : Nat
  executors : Nat → Executor
  executorSetExpand : Nat → Bool
  plugins : Bool
  schedExpand : Option Nat
  poolSize : Nat
  pool : Nat → Option Nat
  hbwPool : Nat → Option Nat

/-- What the machine and the configuration fix: `pu_cnt`, and `KUPL_SCHED_QUEUE_LENGTH`. -/
structure Host where
  puCnt : Nat
  queueLength : Nat
  deriving Repr

/-- Which allocations of a registration succeed, one field for each call. -/
structure Mallocs where
  sched : Bool
  mq : Bool
  queues : Bool
  priorityQueue : Bool
  queue : Bool
  memory : Bool
  hbwMemory : Bool
  lock : Bool

def Mallocs.ok : Mallocs := ⟨true, true, true, true, true, true, true, true⟩

namespace Heap

/-- A block whose contents do not matter here. -/
def skip (h : Heap) : Heap := { h with next := h.next + 1 }

/-- `queue_create`. -/
def queueCreate (h : Heap) (ok : Bool) (size : Nat) : Option Nat × Heap :=
  if ok then
    (some h.next, { h.skip with queues := update h.queues h.next (some ⟨size, []⟩) })
  else (none, h)

/-- `queue_destroy`. -/
def queueDestroy (h : Heap) : Option Nat → Heap
  | none => h
  | some q => { h with queues := update h.queues q none }

/-- `kupl_sched_expand_static_mq_cleanup`. -/
def staticMqCleanup (h : Heap) (b : Nat) : Heap :=
  match h.mqs b with
  | none => h
  | some mq =>
    let h := (List.range mq.numExecutors).foldl (fun h i => h.queueDestroy (mq.queues i)) h
    { h with mqs := update h.mqs b none }

/-- `kupl_sched_expand_static_mq_create`. The error path destroys `queues[0]`, through a null pointer
where `queues` is what could not be allocated. -/
def staticMqCreate (h : Heap) (host : Host) (ok : Mallocs) : Option (Option Nat × Heap) :=
  if !ok.mq then some (none, h)
  else if !ok.queues then none
  else if !ok.priorityQueue then some (none, h)
  else
    match h.queueCreate ok.queue host.queueLength with
    | (none, h) => some (none, h)
    | (some q, h) =>
      let mq : StaticMq :=
        { maxNumExecutors := host.puCnt
          numExecutors := 1
          queueSize := host.queueLength
          priorityQueues := h.next
          queues := update (fun _ => none) 0 (some q) }
      let h := h.skip
      some (some h.next, { h.skip with mqs := update h.mqs h.next (some mq) })

/-- `kupl_sched_expand_static_mq_expand`. Both error paths clean up the whole scheduler. -/
def staticMqExpand (h : Heap) (ok : Mallocs) (b : Nat) : Option (Option Nat × Heap) :=
  match h.mqs b with
  | none => none
  | some mq =>
    if mq.numExecutors + 1 > mq.maxNumExecutors then some (none, h.staticMqCleanup b)
    else
      match h.queueCreate ok.queue mq.queueSize with
      | (none, h) => some (none, h.staticMqCleanup b)
      | (some q, h) =>
        let mq' : StaticMq :=
          { mq with
            numExecutors := mq.numExecutors + 1
            queues := update mq.queues mq.numExecutors (some q) }
        some (some b, { h with mqs := update h.mqs b (some mq') })

/-- `kupl_sched_create("expand_static_mq")`. -/
def schedCreate (h : Heap) (host : Host) (ok : Mallocs) (plugins : Bool) : Option (Option Nat × Heap) :=
  if !ok.sched then some (none, h)
  else if !plugins then some (none, h)
  else
    match h.staticMqCreate host ok with
    | none => none
    | some (none, h) => some (none, h)
    | some (some b, h) =>
      some (some h.next, { h.skip with scheds := update h.scheds h.next (some ⟨1, false, some b⟩) })

/-- `kupl_sched_cleanup`: `ref` is 1, so that neither backend waits or keeps the scheduler. -/
def schedCleanup (h : Heap) : Option Nat → Heap
  | none => h
  | some a =>
    match h.scheds a with
    | none => h
    | some sched =>
      let h := match sched.pluginSched with
        | none => h
        | some b => h.staticMqCleanup b
      { h with scheds := update h.scheds a none }

/-- `calloc` of a `kupl_memory_t`, with its `eid`. -/
def memoryCreate (h : Heap) (ok : Bool) (eid : Nat) : Option Nat × Heap :=
  if ok then (some h.next, { h.skip with memories := update h.memories h.next (some ⟨eid⟩) })
  else (none, h)

/-- `free` of a `kupl_memory_t`, unless the pointer is null. -/
def memoryFree (h : Heap) : Option Nat → Heap
  | none => h
  | some m => { h with memories := update h.memories m none }

end Heap

namespace Globals

/-- `kupl_sched_expand`; `false` for `KUPL_ERROR`. -/
def kuplSchedExpand (s : Globals) (host : Host) (ok : Mallocs) : Option (Bool × Globals) :=
  match s.schedExpand with
  | none =>
    match s.heap.schedCreate host ok s.plugins with
    | none => none
    | some (none, h) => some (false, { s with heap := h, plugins := false })
    | some (some a, h) => some (true, { s with heap := h, schedExpand := some a })
  | some a =>
    match s.heap.scheds a with
    | none => none
    | some sched =>
      match sched.pluginSched with
      | none => none
      | some b =>
        match s.heap.staticMqExpand ok b with
        | none => none
        | some (some b', h) =>
          some (true, { s with
            heap := { h with
              scheds := update h.scheds a (some { sched with pluginSched := some b' }) } })
        | some (none, h) =>
          some (false, { s with
            heap := { h with scheds := update h.scheds a none }
            schedExpand := none })

/-- `kupl_sched_expand_fini`. -/
def kuplSchedExpandFini (s : Globals) : Globals :=
  { s with heap := s.heap.schedCleanup s.schedExpand, schedExpand := none }

/-- `kupl_memory_expand`; `false` for `KUPL_ERROR`. -/
def kuplMemoryExpand (s : Globals) (host : Host) (ok : Mallocs) : Bool × Globals :=
  if s.poolSize ≥ host.puCnt then (false, s)
  else
    match s.heap.memoryCreate ok.memory s.poolSize with
    | (none, h) => (false, { s with heap := h })
    | (some m, h) =>
      let s := { s with heap := h, pool := update s.pool s.poolSize (some m) }
      match s.heap.memoryCreate ok.hbwMemory s.poolSize with
      | (none, h) => (false, { s with heap := h.memoryFree (s.pool s.poolSize) })
      | (some m', h) =>
        (true, { s with
          heap := h
          hbwPool := update s.hbwPool s.poolSize (some m')
          poolSize := s.poolSize + 1 })

/-- `kupl_memory_expand_fini`. -/
def kuplMemoryExpandFini (s : Globals) : Globals :=
  { s with
    heap := (s.heap.memoryFree (s.pool (s.poolSize - 1))).memoryFree (s.hbwPool (s.poolSize - 1))
    poolSize := s.poolSize - 1 }

/-- `kupl_executor_expand` by thread `t`; `false` for `KUPL_ERROR`. -/
def kuplExecutorExpand (s : Globals) (ok : Mallocs) (t : Nat) : Bool × Globals :=
  if s.executorCount ≥ CPU_SETSIZE then (false, s)
  else
    let eid := s.executorCount
    if !ok.lock then
      (false, { s with
        executors := update s.executors eid { s.executors eid with lock := none } })
    else
      let executor : Executor :=
        { executorId := eid
          stop := false
          lock := some s.heap.next
          isMasterExecutor := true
          sched := s.schedExpand }
      (true, { s with
        heap := s.heap.skip
        executors := update s.executors eid executor
        executorSetExpand := update s.executorSetExpand eid true
        executorCount := eid + 1
        globalId := update s.globalId t (some eid) })

/-- What `kupl_get_executor_num` does under `g_executor_lock` for a thread `t` without an id. -/
def registerThread (s : Globals) (host : Host) (ok : Mallocs) (t : Nat) : Option Globals :=
  match s.kuplSchedExpand host ok with
  | none => none
  | some (false, s) => some s
  | some (true, s) =>
    match s.kuplMemoryExpand host ok with
    | (false, s) => some s.kuplSchedExpandFini
    | (true, s) =>
      match s.kuplExecutorExpand ok t with
      | (false, s) => some s.kuplMemoryExpandFini.kuplSchedExpandFini
      | (true, s) => some s

/-- `kupl_get_executor_num` called by thread `t`: the globals after it, and the id it returns. -/
def kuplGetExecutorNum (s : Globals) (host : Host) (ok : Mallocs) (t : Nat) : Option (Globals × Option Nat) :=
  let out := match s.globalId t with
    | some _ => some s
    | none => s.registerThread host ok t
  out.map fun s => (s, (s.globalId t).filter (· < s.executorCount))

/-- The globals after `kupl_init`: `count` executors, bins for `avail` of them, addresses up to
`2 * avail` taken. -/
def start (count avail : Nat) : Globals where
  heap :=
    { next := 2 * avail + 1
      scheds := fun _ => none
      mqs := fun _ => none
      queues := fun _ => none
      memories := fun a =>
        if 0 < a ∧ a ≤ avail then some ⟨a - 1⟩
        else if avail < a ∧ a ≤ 2 * avail then some ⟨a - avail - 1⟩
        else none }
  globalId := fun t => if t < count then some t else none
  executorCountInitial := count
  executorCount := count
  executors := fun i => ⟨if i < count then i else 0, i ≥ count, if i < count then some 0 else none,
    i = 0, if i < count then some 0 else none⟩
  executorSetExpand := fun _ => false
  plugins := true
  schedExpand := none
  poolSize := avail
  pool := fun i => if i < avail then some (i + 1) else none
  hbwPool := fun i => if i < avail then some (avail + i + 1) else none

def expanded (s : Globals) : Option StaticMq :=
  s.schedExpand.bind fun a => (s.heap.scheds a).bind fun sched => sched.pluginSched.bind s.heap.mqs

/-- The queue that executor `eid` finds through its entry (C++ `kupl_sched_expand_static_mq_add_tb`). -/
def queueOf (s : Globals) (eid : Nat) : Option (Nat × LocalQueue) :=
  (s.executors eid).sched.bind fun a => (s.heap.scheds a).bind fun sched => sched.pluginSched.bind
    fun b => (s.heap.mqs b).bind fun mq => (mq.queues (eid - s.executorCountInitial)).bind
      fun q => (s.heap.queues q).map fun queue => (q, queue)

/-- The bins that executor `eid` allocates from (C++ `kupl_memory_alloc_inner`). -/
def binsOf (s : Globals) (eid : Nat) : Option (Nat × Memory) :=
  if eid < s.poolSize then
    (s.pool eid).bind fun m => (s.heap.memories m).map fun mem => (m, mem)
  else none

/-- The high-bandwidth bins of executor `eid`. -/
def hbwBinsOf (s : Globals) (eid : Nat) : Option (Nat × Memory) :=
  if eid < s.poolSize then
    (s.hbwPool eid).bind fun m => (s.heap.memories m).map fun mem => (m, mem)
  else none

end Globals
end Kupl.Expand
