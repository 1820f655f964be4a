import Kupl.Egroup.Info
import Kupl.Range.Check
import Kupl.Task.Taskbase

/-!
# The ways to submit an item

`kupl_queue_submit` and the two overloads of `kupl::queue_submit` of `src/mt/kupl_queue.cpp`: an item of a
queue is run by the task of an event, behind the last event of the queue.

C++ → Lean naming: `kupl_queue_t` → `Queue`; `kupl_event_t` → `Event`, with the event its task follows →
`pred`; `kupl_queue_item_desc_t` → `ItemDesc`; `kupl_queue_kernel_desc_t` → `KernelDesc`; `kernel_data` →
`KernelData`; `kupl_queue_acquire_egroup` → `Groups.acquireEgroup`; `kupl_event_init` → `eventInit`;
`kupl_enqueue_event` → `enqueueEvent`; `kupl_queue_submit` → `submit`; `kupl::queue_submit` of an item →
`submitItem`, of a kernel → `submitKernel`.

An event is a number, the next one for each that is enqueued. A function with its arguments, copied or not,
is an `F`, and the function of a kernel is a `K`; `none` is `nullptr`, of handles and names it is 0. Where
the code takes addresses, and what memory holds before, is in `Env`. The lambda of an item is the function
that `kupl_queue_submit` would be called with, and that of a kernel is `lambda_kernel_wrapper`. The calls
come from threads of the library and find memory for their events.
-/

namespace Kupl.Submit
open Kupl.Task Kupl.Group Kupl.Range

/-- The groups and the table `g_egroup_table` of those that belong to queues with an index; `nth` is
`kupl_get_kernel_concurrency_inner`. -/
structure Groups where
  numExecutors : Nat
  nth : Int
  info : BitVec 64 → EgroupInfo
  table : BitVec 64 → Option (BitVec 64)

/-- C++ `encode_egroup_key`. -/
def encodeEgroupKey (eid nth : Int) : BitVec 64 := BitVec.ofInt 32 eid ++ BitVec.ofInt 32 nth

/-- C++ `kupl_queue_acquire_egroup`; a group that has to be made gets the handle `fresh`. -/
def Groups.acquireEgroup (G : Groups) (index : Int) (fresh : BitVec 64) : BitVec 64 × Groups :=
  if G.nth ≤ 0 then (0, G)
  else
    let groups := (G.numExecutors : Int).tdiv G.nth
    if groups ≤ 0 then (0, G)
    else
      let eid := (index - 1).tmod groups * G.nth
      let key := encodeEgroupKey eid G.nth
      match G.table key with
      | some egroup => (egroup, G)
      | none =>
        match egroupCreate G.numExecutors ((List.range G.nth.toNat).map fun i => (i : Int) + eid) with
        | none => (0, G)
        | some egroup =>
          if fresh = 0 then (0, G)
          else (fresh, { G with
            info := Function.update G.info fresh egroup.cur
            table := Function.update G.table key (some fresh) })

/-- C++ `kupl_egroup_master_eid`. -/
def Groups.masterEid (G : Groups) (egroup : BitVec 64) : BitVec 32 := .ofNat 32 (G.info egroup).minEid

/-- C++ `kernel_data`. -/
structure KernelData (K : Type) where
  range : NdRange
  egroup : BitVec 64
  fieldMask : BitVec 64
  func : K

/-- The function of an item: one of the caller, or `lambda_kernel_wrapper` with its data. -/
inductive Func (F K : Type) where
  | plain (func : F)
  | kernel (data : KernelData K)

/-- What the task of an event does: an item, or `kupl_wait_sdma_request_in_queue`. -/
inductive Work (F K : Type) where
  | item (func : Func F K)
  | waitRequest

/-- C++ `kupl_event_t`. -/
structure Event (F K : Type) where
  work : Work F K
  task : TaskMem
  pred : Option Nat

/-- C++ `kupl_queue_t`. -/
structure Queue where
  eventCount : Nat
  lastEvent : Option Nat
  priority : BitVec 32
  reqSet : List (BitVec 64)
  index : Int
  acquire : Bool
  sync : Bool

/-- C++ `kupl_queue_item_desc_t`. -/
structure ItemDesc (F K : Type) where
  fieldMask : BitVec 64
  func : Option (Func F K)
  name : BitVec 64
  egroup : BitVec 64

/-- C++ `kupl_queue_kernel_desc_t`. -/
structure KernelDesc where
  fieldMask : BitVec 64
  range : Option NdRange
  egroup : BitVec 64
  name : BitVec 64

/-- C++ `KUPL_QUEUE_ITEM_DESC_FIELD_EGROUP`. -/
def itemFieldEgroup : BitVec 64 := 2

/-- The names in the code, the global graph, and for each event its handle and what its memory holds. -/
structure Env where
  auto : BitVec 64
  requestWait : BitVec 64
  eventFunc : BitVec 64
  graph : BitVec 64
  count : BitVec 64
  cp : Nat
  event : Nat → BitVec 64
  mem : Nat → TaskMem
  fresh : BitVec 64

/-- A queue with the events that were enqueued, and the functions that were run in place. -/
structure State (F K : Type) where
  queue : Queue
  events : List (Event F K)
  calls : List (Func F K)
  groups : Groups

section Code
variable {F K : Type} (E : Env) (s : State F K)

/-- The task of the `n`-th event (C++ `kupl_event_init`). -/
def eventInit (n : Nat) (desc : TbDesc) : TaskMem :=
  let mem := E.mem n
  let desc := { desc with func := E.eventFunc, args := E.event n }
  { tb := { tbInit { mem.tb with ref := mem.tb.ref + 1 } ⟨typeTask, desc, E.graph, E.count⟩ E.cp with
      state := stateInit }
    kind := kindCommDynamic }

/-- C++ `kupl_enqueue_event` of a new event. -/
def enqueueEvent (work : Work F K) (desc : TbDesc) : State F K :=
  let n := s.events.length
  { s with
    events := s.events ++ [⟨work, eventInit E n desc, s.queue.lastEvent⟩]
    queue := { s.queue with eventCount := s.queue.eventCount + 1, lastEvent := some n } }

/-- C++ `kupl_queue_submit_request`. -/
def submitRequest : State F K :=
  if s.queue.reqSet = [] then s
  else enqueueEvent E s .waitRequest {
    fieldMask := if s.queue.priority.toInt < 0 then fieldName else fieldPriority
    func := 0
    args := 0
    name := E.requestWait
    priority := if s.queue.priority.toInt < 0 then 0 else s.queue.priority
    flag := 0
    executorId := 0
    egroup := 0 }

/-- Puts a task into a group (C++ the assignments to `tb_desc` of `kupl_queue_submit`). -/
def withEgroup (G : Groups) (desc : TbDesc) (egroup : BitVec 64) : TbDesc := { desc with
  egroup
  executorId := G.masterEid egroup
  fieldMask := desc.fieldMask ||| fieldEgroup ||| fieldExecutorId }

/-- The fields of the task of an item that come from its queue. -/
def itemMask (queue : Queue) : BitVec 64 :=
  if queue.priority.toInt < 0 then fieldName else fieldName ||| fieldPriority

/-- The `tb_desc` of an item, without the group of its queue. -/
def itemTb (desc : ItemDesc F K) : TbDesc :=
  let tb : TbDesc := {
    fieldMask := itemMask s.queue
    func := 0
    args := 0
    name := if Has desc.fieldMask fieldName then desc.name else E.auto
    priority := s.queue.priority
    flag := 0
    executorId := 0
    egroup := 0 }
  if Has desc.fieldMask itemFieldEgroup ∧ desc.egroup ≠ 0 then withEgroup s.groups tb desc.egroup else tb

def requestFirst : State F K := if s.queue.eventCount = 0 then submitRequest E s else s

/-- C++ `kupl_queue_submit`; whether it returns `KUPL_OK`. -/
def submit (desc : ItemDesc F K) : Bool × State F K :=
  match desc.func with
  | none => (false, s)
  | some func =>
    if Has desc.fieldMask fieldName ∧ desc.name = 0 then (false, s)
    else if s.queue.sync then (true, { s with calls := s.calls ++ [func] })
    else
      let s := requestFirst E s
      let tb := itemTb E s desc
      if s.queue.acquire then
        let (egroup, groups) := s.groups.acquireEgroup s.queue.index E.fresh
        let s := { s with groups }
        if egroup = 0 then (false, s)
        else (true, enqueueEvent E s (.item func) (withEgroup groups tb egroup))
      else (true, enqueueEvent E s (.item func) tb)

/-- C++ `kupl::queue_submit` of an item. -/
def submitItem (desc : ItemDesc F K) (func : Option F) : Bool × State F K :=
  match func with
  | none => (false, s)
  | some func =>
    if Has desc.fieldMask fieldName ∧ desc.name = 0 then (false, s)
    else
      let s := requestFirst E s
      (true, enqueueEvent E s (.item (.plain func)) (itemTb E s desc))

/-- The range of a kernel with its blocksizes settled, `none` where the descriptor is rejected (C++
`queue_submit_check`). -/
def submitCheck (G : Groups) (desc : KernelDesc) : Option NdRange :=
  match desc.range with
  | none => none
  | some range =>
    if range.dim ≠ 1 then none
    else
      match checkRange range .task with
      | none => none
      | some range =>
        if desc.egroup = 0 then none
        else if (G.info desc.egroup).size ≤ 0 then none
        else if Has desc.fieldMask fieldName ∧ desc.name = 0 then none
        else some range

/-- The `tb_desc` of a kernel. -/
def kernelTb (desc : KernelDesc) : TbDesc where
  fieldMask := fieldName
  func := 0
  args := 0
  name := if Has desc.fieldMask fieldName then desc.name else E.auto
  priority := 0
  flag := 0
  executorId := 0
  egroup := 0

/-- C++ `kupl::queue_submit` of a kernel. -/
def submitKernel (desc : KernelDesc) (kernel : Option K) : Bool × State F K :=
  match kernel with
  | none => (false, s)
  | some func =>
    match submitCheck s.groups desc with
    | none => (false, s)
    | some range =>
      let data := ⟨range, desc.egroup, desc.fieldMask, func⟩
      (true, enqueueEvent E s (.item (.kernel data)) (kernelTb E desc))

end Code

/-- Two calls return the same and leave the same queue behind, with the same events, and have run the same
functions. -/
structure Same {F K : Type} (a b : Bool × State F K) : Prop where
  ret : a.1 = b.1
  queue : a.2.queue = b.2.queue
  events : a.2.events = b.2.events
  calls : a.2.calls = b.2.calls

/-- The overload for items does what `kupl_queue_submit` does. -/
def ItemSame {F K : Type} (E : Env) (s : State F K) (desc : ItemDesc F K) (func : Option F) : Prop :=
  Same (submitItem E s desc func) (submit E s { desc with func := func.map .plain })

def kernelItem {F K : Type} (desc : KernelDesc) (range : NdRange) (kernel : Option K) : ItemDesc F K where
  fieldMask := desc.fieldMask &&& fieldName
  func := kernel.map fun func => .kernel ⟨range, desc.egroup, desc.fieldMask, func⟩
  name := desc.name
  egroup := 0

/-- The overload for kernels does what `kupl_queue_submit` does with that item, where it does not reject its
descriptor. -/
def KernelSame {F K : Type} (E : Env) (s : State F K) (desc : KernelDesc) (kernel : Option K) : Prop :=
  ∀ range, submitCheck s.groups desc = some range →
    Same (submitKernel E s desc kernel) (submit E s (kernelItem desc range kernel))

/-- The descriptor of an item names the group of the queue. -/
structure OwnGroup {F K : Type} (E : Env) (s : State F K) (desc : ItemDesc F K) : Prop where
  field : Has desc.fieldMask itemFieldEgroup
  some : desc.egroup ≠ 0
  own : (s.groups.acquireEgroup s.queue.index E.fresh).1 = desc.egroup
  master : (s.groups.acquireEgroup s.queue.index E.fresh).2.masterEid desc.egroup = s.groups.masterEid desc.egroup

section Tasks
variable {E : Env} {n : Nat} {tb : TbDesc} {G G' : Groups} {egroup : BitVec 64}

lemma eventInit_egroup : (eventInit E n tb).tb.egroup =
    if Has tb.fieldMask fieldEgroup then tb.egroup else 0 := tbInit_egroup

lemma eventInit_executorId : (eventInit E n tb).tb.executorId =
    if Has tb.fieldMask fieldExecutorId then tb.executorId else idDefault := tbInit_executorId

lemma eventInit_flag : (eventInit E n tb).tb.flag = (if Has tb.fieldMask fieldFlag then tb.flag.setWidth 64 else 0) |||
      (if Has tb.fieldMask fieldPriority then flagPriority else 0) := tbInit_flag

lemma has_or_right {mask field : BitVec 64} (h : field ≠ 0) : Has (mask ||| field) field := by
  unfold Has
  rw [show (mask ||| field) &&& field = field by grind]
  exact h

lemma has_or_left {mask mask' field : BitVec 64} (h : Has mask field) : Has (mask ||| mask') field := by
  intro zero
  apply h
  have both : (mask &&& field) ||| (mask' &&& field) = 0 := by
    rw [← zero]
    grind
  exact (BitVec.or_eq_zero_iff.1 both).1

lemma withEgroup_egroup : (eventInit E n (withEgroup G tb egroup)).tb.egroup = egroup := by
  rw [eventInit_egroup]
  apply if_pos
  apply has_or_left
  exact has_or_right (by decide)

lemma withEgroup_executorId : (eventInit E n (withEgroup G tb egroup)).tb.executorId = G.masterEid egroup := by
  rw [eventInit_executorId]
  apply if_pos
  exact has_or_right (by decide)

lemma withEgroup_twice (same : G'.masterEid egroup = G.masterEid egroup) :
    withEgroup G' (withEgroup G tb egroup) egroup = withEgroup G tb egroup := by
  have mask : tb.fieldMask ||| fieldEgroup ||| fieldExecutorId ||| fieldEgroup ||| fieldExecutorId =
      tb.fieldMask ||| fieldEgroup ||| fieldExecutorId := by
    ext i
    simp
    grind
  unfold withEgroup
  rw [mask, same]

end Tasks

section Items
variable {F K : Type} {E : Env} {s : State F K} {work : Work F K} {desc : ItemDesc F K} {tb tb' : TbDesc}

lemma requestFirst_same : (requestFirst E s).groups = s.groups ∧ (requestFirst E s).calls = s.calls ∧
    (requestFirst E s).queue.acquire = s.queue.acquire ∧
    (requestFirst E s).queue.index = s.queue.index ∧
    (requestFirst E s).queue.priority = s.queue.priority := by
  unfold requestFirst submitRequest enqueueEvent
  split
  · split <;> exact ⟨rfl, rfl, rfl, rfl, rfl⟩
  · exact ⟨rfl, rfl, rfl, rfl, rfl⟩

lemma requestFirst_events : s.events.length ≤ (requestFirst E s).events.length := by
  unfold requestFirst submitRequest enqueueEvent
  split
  · split
    · exact le_rfl
    · simp
  · exact le_rfl

lemma requestFirst_idle (idle : s.queue.eventCount = 0 → s.queue.reqSet = []) : requestFirst E s = s := by
  unfold requestFirst submitRequest
  split
  · rename_i empty
    exact if_pos (idle empty)
  · rfl

lemma enqueueEvent_length : (enqueueEvent E s work tb).events.length = s.events.length + 1 := by
  simp [enqueueEvent]

lemma requestFirst_waits (waits : ¬(s.queue.eventCount = 0 → s.queue.reqSet = [])) :
    (requestFirst E s).events.length = s.events.length + 1 := by
  obtain ⟨empty, some⟩ := Classical.not_imp.1 waits
  unfold requestFirst submitRequest
  rw [if_pos empty, if_neg some]
  exact enqueueEvent_length

lemma enqueueEvent_inj (h : (enqueueEvent E s work tb).events = (enqueueEvent E s work tb').events) :
    eventInit E s.events.length tb = eventInit E s.events.length tb' := by
  have last := List.append_cancel_left h
  simp only [List.cons.injEq, Event.mk.injEq] at last
  exact last.1.2.1

lemma itemMask_noGroup {queue : Queue} : ¬Has (itemMask queue) fieldEgroup := by
  unfold itemMask
  split <;> decide

lemma itemTb_egroup {n : Nat} : (eventInit E n (itemTb E s desc)).tb.egroup =
    if Has desc.fieldMask itemFieldEgroup ∧ desc.egroup ≠ 0 then desc.egroup else 0 := by
  by_cases named : Has desc.fieldMask itemFieldEgroup ∧ desc.egroup ≠ 0
  · rw [if_pos named, itemTb, if_pos named]
    exact withEgroup_egroup
  · rw [if_neg named, itemTb, if_neg named, eventInit_egroup]
    exact if_neg itemMask_noGroup

lemma itemTb_executorId {n : Nat} (named : Has desc.fieldMask itemFieldEgroup ∧ desc.egroup ≠ 0) :
    (eventInit E n (itemTb E s desc)).tb.executorId = s.groups.masterEid desc.egroup := by
  rw [itemTb, if_pos named]
  exact withEgroup_executorId

lemma item_own (field : Has desc.fieldMask itemFieldEgroup) (some : desc.egroup ≠ 0)
    {G : Groups} (master : G.masterEid desc.egroup = s.groups.masterEid desc.egroup) :
    withEgroup G (itemTb E s desc) desc.egroup = itemTb E s desc := by
  rw [itemTb, if_pos ⟨field, some⟩]
  exact withEgroup_twice master

end Items

section Overloads
variable {F K : Type} {E : Env} {s : State F K} {desc : ItemDesc F K} {func : F} {work : Work F K} {tb : TbDesc}

lemma submitItem_eq (ok : ¬(Has desc.fieldMask fieldName ∧ desc.name = 0)) :
    submitItem E s desc (some func) = (true, enqueueEvent E (requestFirst E s) (.item (.plain func))
      (itemTb E (requestFirst E s) desc)) := by
  exact if_neg ok

variable {f : Func F K}

lemma submit_free (given : desc.func = some f) (ok : ¬(Has desc.fieldMask fieldName ∧ desc.name = 0))
    (async : s.queue.sync = false) (free : s.queue.acquire = false) :
    submit E s desc = (true, enqueueEvent E (requestFirst E s) (.item f) (itemTb E (requestFirst E s) desc)) := by
  unfold submit
  simp only [given]
  rw [if_neg ok, if_neg (by simp [async]), if_neg]
  rw [requestFirst_same.2.2.1, free]
  exact Bool.false_ne_true

lemma submit_acquire (given : desc.func = some f) (ok : ¬(Has desc.fieldMask fieldName ∧ desc.name = 0))
    (async : s.queue.sync = false) (acquired : s.queue.acquire = true) :
    submit E s desc =
      let found := s.groups.acquireEgroup s.queue.index E.fresh
      if found.1 = 0 then (false, { requestFirst E s with groups := found.2 })
      else (true, enqueueEvent E { requestFirst E s with groups := found.2 } (.item f)
        (withEgroup found.2 (itemTb E (requestFirst E s) desc) found.1)) := by
  obtain ⟨groups, calls, acquire, index, -⟩ := @requestFirst_same F K E s
  unfold submit
  simp only [given]
  rw [if_neg ok, if_neg (by simp [async]), if_pos (by rw [acquire]; exact acquired), groups, index]

lemma submit_sync (given : desc.func = some f) (ok : ¬(Has desc.fieldMask fieldName ∧ desc.name = 0))
    (sync : s.queue.sync = true) : submit E s desc = (true, { s with calls := s.calls ++ [f] }) := by
  unfold submit
  simp only [given]
  rw [if_neg ok, if_pos sync]

lemma not_same_sync {r : State F K} (le : s.events.length ≤ r.events.length) :
    ¬Same (true, enqueueEvent E r work tb) (true, { s with calls := s.calls ++ [f] }) := by
  intro S
  have events := congrArg List.length S.events
  simp only [enqueueEvent_length] at events
  omega

lemma not_same_longer {r : State F K} {work' : Work F K} {tb' : TbDesc} (lt : s.events.length < r.events.length) :
    ¬Same (true, enqueueEvent E s work tb) (true, enqueueEvent E r work' tb') := by
  intro S
  have events := congrArg List.length S.events
  simp only [enqueueEvent_length] at events
  omega

lemma same_acquired (given : desc.func = some (.plain func)) (ok : ¬(Has desc.fieldMask fieldName ∧ desc.name = 0))
    (async : s.queue.sync = false) (acquired : s.queue.acquire = true) :
    Same (submitItem E s desc (some func)) (submit E s desc) ↔ OwnGroup E s desc := by
  have groups := (@requestFirst_same F K E s).1
  rw [submitItem_eq ok, submit_acquire given ok async acquired]
  constructor
  · intro S
    by_cases null : (s.groups.acquireEgroup s.queue.index E.fresh).1 = 0
    · rw [if_pos null] at S
      cases S.ret
    · rw [if_neg null] at S
      have task := enqueueEvent_inj S.events
      have group := congrArg (fun t => t.tb.egroup) task
      simp only [itemTb_egroup, withEgroup_egroup] at group
      by_cases named : Has desc.fieldMask itemFieldEgroup ∧ desc.egroup ≠ 0
      · rw [if_pos named] at group
        have master := congrArg (fun t => t.tb.executorId) task
        simp only [itemTb_executorId named, withEgroup_executorId, groups] at master
        exact ⟨named.1, named.2, group.symm, by rw [master, group]⟩
      · rw [if_neg named] at group
        exact absurd group.symm null
  · intro O
    have null : (s.groups.acquireEgroup s.queue.index E.fresh).1 ≠ 0 := by
      rw [O.own]
      exact O.some
    rw [if_neg null, O.own, item_own O.field O.some (by rw [O.master, groups])]
    exact ⟨rfl, rfl, rfl, rfl⟩

lemma same_of_ok (given : desc.func = some (.plain func)) (ok : ¬(Has desc.fieldMask fieldName ∧ desc.name = 0)) :
    Same (submitItem E s desc (some func)) (submit E s desc) ↔
      s.queue.sync = false ∧ (s.queue.acquire = true → OwnGroup E s desc) := by
  cases async : s.queue.sync with
  | true =>
    rw [submitItem_eq ok, submit_sync given ok async]
    exact ⟨fun S => absurd S (not_same_sync requestFirst_events), nofun⟩
  | false =>
    cases acquired : s.queue.acquire with
    | true =>
      rw [same_acquired given ok async acquired]
      exact ⟨fun O => ⟨rfl, fun _ => O⟩, fun h => h.2 rfl⟩
    | false =>
      rw [submitItem_eq ok, submit_free given ok async acquired]
      exact ⟨fun _ => ⟨rfl, nofun⟩, fun _ => ⟨rfl, rfl, rfl, rfl⟩⟩

lemma itemSame_iff {func : Option F} : ItemSame E s desc func ↔
    (func = none ∨ (Has desc.fieldMask fieldName ∧ desc.name = 0)) ∨
      s.queue.sync = false ∧ (s.queue.acquire = true → OwnGroup E s desc) := by
  cases func with
  | none => exact ⟨fun _ => .inl (.inl rfl), fun _ => ⟨rfl, rfl, rfl, rfl⟩⟩
  | some func =>
    by_cases bad : Has desc.fieldMask fieldName ∧ desc.name = 0
    · refine ⟨fun _ => .inl (.inr bad), fun _ => ?_⟩
      simp only [ItemSame, submitItem, submit, Option.map_some, if_pos bad]
      exact ⟨rfl, rfl, rfl, rfl⟩
    · have same := @same_of_ok F K E s { desc with func := some (.plain func) } func rfl bad
      constructor
      · intro S
        obtain ⟨async, own⟩ := same.1 S
        refine .inr ⟨async, fun acquired => ?_⟩
        obtain ⟨field, named, own, master⟩ := own acquired
        exact ⟨field, named, own, master⟩
      · rintro ((none | named) | ⟨async, own⟩)
        · cases none
        · exact absurd named bad
        · refine same.2 ⟨async, fun acquired => ?_⟩
          obtain ⟨field, named, own, master⟩ := own acquired
          exact ⟨field, named, own, master⟩

end Overloads

section Kernels
variable {F K : Type} {E : Env} {s : State F K} {desc : KernelDesc} {range : NdRange} {kernel : K}

lemma has_and_self {mask : BitVec 64} : Has (mask &&& fieldName) fieldName ↔ Has mask fieldName := by
  unfold Has
  rw [BitVec.and_assoc, BitVec.and_self]

lemma submitCheck_name {G : Groups} (h : submitCheck G desc = some range) :
    ¬(Has desc.fieldMask fieldName ∧ desc.name = 0) := by
  intro bad
  unfold submitCheck at h
  simp only [if_pos bad, ite_self] at h
  split at h
  · cases h
  · split at h
    · cases h
    · split at h <;> cases h

lemma kernelItem_tb : itemTb E s (kernelItem desc range (some kernel)) =
    { kernelTb E desc with fieldMask := itemMask s.queue, priority := s.queue.priority } := by
  have noGroup : ¬(Has (kernelItem (F := F) desc range (some kernel)).fieldMask itemFieldEgroup ∧
      (kernelItem (F := F) desc range (some kernel)).egroup ≠ 0) := fun named => named.2 rfl
  rw [itemTb, if_neg noGroup]
  unfold kernelTb kernelItem
  simp only [has_and_self]

lemma kernelTb_egroup {n : Nat} : (eventInit E n (kernelTb E desc)).tb.egroup = 0 := by
  rw [eventInit_egroup]
  exact if_neg (show ¬Has fieldName fieldEgroup by decide)

lemma eventInit_noPriority {n : Nat} {tb : TbDesc} {priority : BitVec 32} (mask : tb.fieldMask = fieldName) :
    eventInit E n { tb with priority } = eventInit E n tb := by
  have none : ¬Has tb.fieldMask fieldPriority := by
    rw [mask]
    decide
  unfold eventInit tbInit
  simp only
  rw [if_neg none, if_neg none]

lemma kernel_task {n : Nat} : eventInit E n (kernelTb E desc) =
      eventInit E n { kernelTb E desc with fieldMask := itemMask s.queue, priority := s.queue.priority } ↔
    s.queue.priority.toInt < 0 := by
  constructor
  · intro same
    apply lt_of_not_ge
    intro ge
    have flag := congrArg (fun t => t.tb.flag) same
    simp only [eventInit_flag, itemMask, if_neg (not_lt.2 ge)] at flag
    have noFlag : ¬Has (kernelTb E desc).fieldMask fieldFlag := show ¬Has fieldName fieldFlag by decide
    have noPriority : ¬Has (kernelTb E desc).fieldMask fieldPriority :=
      show ¬Has fieldName fieldPriority by decide
    rw [if_neg noFlag, if_neg noPriority, if_neg (show ¬Has (fieldName ||| fieldPriority) fieldFlag by decide),
      if_pos (show Has (fieldName ||| fieldPriority) fieldPriority by decide)] at flag
    exact absurd flag (by decide)
  · intro lt
    rw [itemMask, if_pos lt]
    exact (@eventInit_noPriority E n (kernelTb E desc) _ rfl).symm

lemma same_of_check (check : submitCheck s.groups desc = some range) :
    Same (submitKernel E s desc (some kernel)) (submit E s (kernelItem desc range (some kernel))) ↔
      s.queue.sync = false ∧ s.queue.acquire = false ∧ s.queue.priority.toInt < 0 ∧
        (s.queue.eventCount = 0 → s.queue.reqSet = []) := by
  have kernel_eq : submitKernel E s desc (some kernel) = (true, enqueueEvent E s
      (.item (.kernel ⟨range, desc.egroup, desc.fieldMask, kernel⟩)) (kernelTb E desc)) := by
    simp only [submitKernel, check]
  have ok : ¬(Has (kernelItem (F := F) desc range (some kernel)).fieldMask fieldName ∧
      (kernelItem (F := F) desc range (some kernel)).name = 0) := by
    unfold kernelItem
    simp only [has_and_self]
    exact submitCheck_name check
  rw [kernel_eq]
  cases async : s.queue.sync with
  | true =>
    rw [submit_sync rfl ok async]
    exact ⟨fun S => absurd S (not_same_sync le_rfl), nofun⟩
  | false =>
    by_cases idle : s.queue.eventCount = 0 → s.queue.reqSet = []
    · cases acquired : s.queue.acquire with
      | true =>
        rw [submit_acquire rfl ok async acquired, requestFirst_idle idle, kernelItem_tb]
        refine ⟨fun S => ?_, nofun⟩
        by_cases null : (s.groups.acquireEgroup s.queue.index E.fresh).1 = 0
        · rw [if_pos null] at S
          cases S.ret
        · rw [if_neg null] at S
          have group := congrArg (fun t => t.tb.egroup) (enqueueEvent_inj S.events)
          simp only [withEgroup_egroup, kernelTb_egroup] at group
          exact absurd group.symm null
      | false =>
        rw [submit_free rfl ok async acquired, requestFirst_idle idle, kernelItem_tb]
        constructor
        · intro S
          exact ⟨rfl, rfl, kernel_task.1 (enqueueEvent_inj S.events), idle⟩
        · rintro ⟨-, -, priority, -⟩
          refine ⟨rfl, rfl, ?_, rfl⟩
          unfold enqueueEvent
          simp only
          rw [kernel_task.2 priority]
    · have longer := Nat.lt_of_lt_of_eq (Nat.lt_succ_self _) (@requestFirst_waits F K E s idle).symm
      cases acquired : s.queue.acquire with
      | true =>
        rw [submit_acquire rfl ok async acquired]
        refine ⟨fun S => ?_, nofun⟩
        simp only at S
        split at S
        · cases S.ret
        · exact absurd S (not_same_longer longer)
      | false =>
        rw [submit_free rfl ok async acquired]
        exact ⟨fun S => absurd S (not_same_longer longer), fun free => absurd free.2.2.2 idle⟩

lemma kernelSame_iff {kernel : Option K} : KernelSame E s desc kernel ↔
    (kernel = none ∨ submitCheck s.groups desc = none) ∨
      s.queue.sync = false ∧ s.queue.acquire = false ∧ s.queue.priority.toInt < 0 ∧
        (s.queue.eventCount = 0 → s.queue.reqSet = []) := by
  cases kernel with
  | none => exact ⟨fun _ => .inl (.inl rfl), fun _ _ _ => ⟨rfl, rfl, rfl, rfl⟩⟩
  | some kernel =>
    cases check : submitCheck s.groups desc with
    | none => exact ⟨fun _ => .inl (.inr rfl), fun _ range h => by rw [check] at h; cases h⟩
    | some range =>
      have same := @same_of_check F K E s desc range kernel check
      constructor
      · intro S
        exact .inr (same.1 (S range check))
      · rintro ((none | none) | free)
        · cases none
        · cases none
        · intro range' h
          rw [check] at h
          cases h
          exact same.2 free

end Kernels

/-- When the overloads of `kupl::queue_submit` do what `kupl_queue_submit` does with the same function. -/
theorem queueSubmit_same_iff {F K : Type} {E : Env} {s : State F K} : (∀ desc func, ItemSame E s desc func ↔
      (func = none ∨ (Has desc.fieldMask fieldName ∧ desc.name = 0)) ∨
        s.queue.sync = false ∧ (s.queue.acquire = true → OwnGroup E s desc)) ∧
    ∀ desc kernel, KernelSame E s desc kernel ↔ (kernel = none ∨ submitCheck s.groups desc = none) ∨
        s.queue.sync = false ∧ s.queue.acquire = false ∧ s.queue.priority.toInt < 0 ∧
          (s.queue.eventCount = 0 → s.queue.reqSet = []) :=
  ⟨fun _ _ => itemSame_iff, fun _ _ => kernelSame_iff⟩

/-- An environment. -/
def plainEnv : Env where
  auto := 1
  requestWait := 2
  eventFunc := 3
  graph := 4
  count := 5
  cp := 0
  event n := .ofNat 64 (n + 6)
  mem _ := ⟨⟨0, none, 0, 0, 0, 0, 0, 0, 0, 0, 0, 0, 0, 0, 0⟩, 0⟩
  fresh := 1024

/-- A queue as it is made, in a program with four executors and two of them for a kernel. -/
def queueOf (priority : BitVec 32) (reqSet : List (BitVec 64)) (index : Int) (acquire sync : Bool) :
    State Unit Unit where
  queue := ⟨0, none, priority, reqSet, index, acquire, sync⟩
  events := []
  calls := []
  groups := ⟨4, 2, fun _ => ⟨2, 0, 1, {0, 1}, fun _ => none⟩, fun _ => none⟩

def plainItem : ItemDesc Unit Unit := ⟨0, none, 0, 0⟩

def fourKernel : KernelDesc := ⟨0, some ⟨1, fun _ => ⟨0, 4, 1, 1⟩⟩, 1, 0⟩

/-- On the queue with the index `KUPL_ASYNC_SYNC` the lambda of an item is enqueued; on the queue with the
index 1 it is in no group. The lambda of a kernel is so too, has not the priority of its queue, and does not
wait for a request. -/
theorem queueSubmit_differs : ¬ItemSame plainEnv (queueOf (-1) [] (-1) true true) plainItem (some ()) ∧
    ¬ItemSame plainEnv (queueOf (-1) [] 1 true false) plainItem (some ()) ∧
    ¬KernelSame plainEnv (queueOf (-1) [] (-1) true true) fourKernel (some ()) ∧
    ¬KernelSame plainEnv (queueOf (-1) [] 1 true false) fourKernel (some ()) ∧
    ¬KernelSame plainEnv (queueOf 3 [] 0 false false) fourKernel (some ()) ∧
    ¬KernelSame plainEnv (queueOf (-1) [7] 0 false false) fourKernel (some ()) := by
  have noGroup : ¬Has plainItem.fieldMask itemFieldEgroup := by decide
  have accepted : ∀ priority reqSet index acquire sync,
      submitCheck (queueOf priority reqSet index acquire sync).groups fourKernel ≠ none := by
    intro priority reqSet index acquire sync none
    have isSome : (submitCheck (queueOf 0 [] 0 false false).groups fourKernel).isSome = true := by decide
    rw [show submitCheck (queueOf 0 [] 0 false false).groups fourKernel = .none from none] at isSome
    cases isSome
  refine ⟨?_, ?_, ?_, ?_, ?_, ?_⟩
  · rw [itemSame_iff]
    rintro ((none | bad) | ⟨async, -⟩)
    · cases none
    · exact absurd bad (by decide)
    · cases async
  · rw [itemSame_iff]
    rintro ((none | bad) | ⟨-, own⟩)
    · cases none
    · exact absurd bad (by decide)
    · exact noGroup (own rfl).field
  all_goals
    rw [kernelSame_iff]
    rintro ((none | rejected) | ⟨async, free, priority, idle⟩)
    · cases none
    · exact accepted _ _ _ _ _ rejected
  · cases async
  · cases free
  · exact absurd priority (by decide)
  · cases idle rfl

end Kupl.Submit
