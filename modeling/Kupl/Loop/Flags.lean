import Kupl.Egroup.Select
import Kupl.Machine.Run

/-!
# The flags of the executors

How the regions of one master follow each other at one nesting level: `kupl_parallel_for` and
`kupl_loop_func` of `src/mt/kupl_parallel_for.cpp`, `kupl::FlagBarrier` of `src/mt/barrier/kupl_barrier.cpp`
and the polling of `src/mt/scheduler/plugin/sspe/kupl_sched_sspe.cpp`.

C++ → Lean naming: `flags_` → `State.flag`, with `FLAG_READY`, `FLAG_ARRIVED`, `FLAG_LEAVE` → `Flag`;
`g_pf[..].master_eid` → `masterEid`; the slot of the master → `slot`; `FlagBarrier::wait`, `notify`, `arrive`,
`leave` and the rest of the code → `Pc`.

Every load and store of a flag is a step of its own, and so is what is done with the slot: it holds the
contents of a region from when the master has written them, and none while they are written. The body of a
region is the call of its policy function. `log` is history: which executor has run a body with which
contents.

A region is run on its selected executors. The master runs a region alone under the conditions of the quick
path, which writes the number of threads into the slot, and cuts it into tasks under the policy
`KUPL_LOOP_POLICY_TASK`, which writes all of the slot; both write no flag. In `FlagBarrier::wait` the master takes
a task from the scheduler (`kupl_sched_execute_tb`), and that may call `kupl_parallel_for` at the same level: the
call that waits is then pending until the other one returns. A call from a task that is taken while the master waits
for the tasks of a region is a call after that region here, which does nothing more to the slot or a flag. The function
behind a region, `post_func`, is null: `kupl_parallel_for` never sets it.
-/

namespace Kupl.Loop.Flags
open Kupl.Group

inductive Flag where
  | leave
  | ready
  | arrived
  deriving DecidableEq, Repr

/-- How a region is run. -/
inductive Kind where
  | team
  | quick
  | task
  deriving DecidableEq, Repr

/-- What a region is about: its group and its number of threads, and whether the master calls it from inside
of a task. -/
structure Region where
  kind : Kind
  egroup : EgroupInfo
  numThreads : Nat
  inTask : Bool

/-- The executors that `KUPL_FOR_EACH_LIMIT_EGROUP` visits. -/
def Region.limit (r : Region) : List Nat := r.egroup.limit r.numThreads

/-- The executors that have to run the body of a region. -/
def Region.selected (r : Region) (master : Nat) : List Nat :=
  match r.kind with
  | .team => r.limit
  | .quick => [master]
  | .task => []

/-- What the slot of the master says (C++ `kupl_pf_t`): the region whose function, arguments, range and group it has,
and the number of threads. -/
structure Slot where
  contents : Option Nat
  numThreads : Nat
  deriving DecidableEq, Repr

inductive Pc where
  | idle
  /-- The master has been asked for a region. -/
  | called
  /-- The master writes its slot. -/
  | writing
  /-- The master has written its slot. -/
  | written
  /-- In `FlagBarrier::wait`, before the region. -/
  | settling (todo : List Nat)
  /-- There, before the flag of the first of these is looked at. -/
  | spinning (todo : List Nat)
  /-- It names itself in the slots of others. -/
  | naming (todo : List Nat)
  /-- In `FlagBarrier::notify`. -/
  | notifying (todo : List Nat)
  /-- Before `FlagBarrier::arrive`, as the master. -/
  | arriving
  /-- In `FlagBarrier::arrive`, the flag is ready. -/
  | polled
  /-- In `kupl_loop_func`. -/
  | arrived
  /-- It knows its master. -/
  | entered (master : Nat)
  /-- In the policy function, with what the slot says. -/
  | running (master : Nat) (slot : Slot)
  /-- In `FlagBarrier::leave`, as the master. -/
  | leaving (todo : List Nat)
  /-- Behind `FlagBarrier::leave`. -/
  | left
  /-- In the function of a region that the master runs alone. -/
  | quick
  /-- Waiting for the tasks of a region. -/
  | tasks
  deriving DecidableEq, Repr

structure State where
  flag : Nat → Flag
  masterEid : Nat → Nat
  slot : Slot
  region : Nat
  /-- The calls that wait while another one is made, and for which executors. -/
  pending : List (Nat × List Nat)
  pc : Nat → Pc
  log : List (Nat × Option Nat)

/-- What happens next: the master calls `kupl_parallel_for`, or calls it for some region from a task that it has taken
while it waits, or an executor takes its next step. -/
inductive Label where
  | call
  | task (region : Nat)
  | next (eid : Nat)

namespace State

def setPc (s : State) (eid : Nat) (pc : Pc) : State := { s with pc := Function.update s.pc eid pc }

def setFlag (s : State) (eid : Nat) (flag : Flag) : State :=
  { s with flag := Function.update s.flag eid flag }

def setMaster (s : State) (eid master : Nat) : State :=
  { s with masterEid := Function.update s.masterEid eid master }

/-- What an executor finds whose master is `k`; the slots of others are not about these regions. -/
def slotOf (s : State) (master k : Nat) : Slot := if k = master then s.slot else ⟨none, 0⟩

/-- The master returns from a call, to one that is pending or altogether. -/
def ret (s : State) (master : Nat) : State :=
  match s.pending with
  | [] => { s with region := s.region + 1 }.setPc master .idle
  | (region, todo) :: rest => { s with region := region, pending := rest }.setPc master (.spinning todo)

end State

section Machine
variable (master : Nat) (regions : Nat → Region)

/-- The executors that `KUPL_FOR_EACH_LIMIT_EGROUP` visits with what a slot says. -/
def Slot.limit (c : Slot) : List Nat := c.contents.elim [] fun r => (regions r).egroup.limit c.numThreads

/-- The next step of an executor; `none` where it has to wait. -/
def step (s : State) (eid : Nat) : Option State :=
  match s.pc eid with
  | .idle => some (if s.flag eid = .ready then s.setPc eid .polled else s)
  | .called =>
    if (regions s.region).kind = .quick then
      some (({ s with
        slot := ⟨s.slot.contents, 1⟩
        log := s.log ++ [(eid, some s.region)] }.setMaster eid master).setPc eid .quick)
    else some ({ s with slot := ⟨none, s.slot.numThreads⟩ }.setPc eid .writing)
  | .writing => some ({ s with slot := ⟨some s.region, (regions s.region).numThreads⟩ }.setPc eid .written)
  | .written =>
    if (regions s.region).kind = .task then some ((s.setMaster eid master).setPc eid .tasks)
    else some (s.setPc eid (.settling (if (regions s.region).inTask then s.slot.limit regions else [])))
  | .settling [] => some (s.setPc eid (.naming (s.slot.limit regions)))
  | .settling todo => some (s.setPc eid (.spinning todo))
  | .spinning [] => none
  | .spinning (e :: todo) => if s.flag e = .leave then some (s.setPc eid (.settling todo)) else none
  | .naming [] => some (s.setPc eid (.notifying (s.slot.limit regions)))
  | .naming (e :: todo) => some ((s.setMaster e master).setPc eid (.naming todo))
  | .notifying [] => some (s.setPc eid .arriving)
  | .notifying (e :: todo) => some ((s.setFlag e .ready).setPc eid (.notifying todo))
  | .arriving => some (s.setPc eid (if s.flag eid = .ready then .polled else .arrived))
  | .polled => some ((s.setFlag eid .arrived).setPc eid .arrived)
  | .arrived => some (s.setPc eid (.entered (s.masterEid eid)))
  | .entered k =>
    some ({ s with log := s.log ++ [(eid, (s.slotOf master k).contents)] }.setPc eid (.running k (s.slotOf master k)))
  | .running k c =>
    if k = eid then some (s.setPc eid (.leaving (c.limit regions)))
    else some ((s.setFlag eid .leave).setPc eid .left)
  | .leaving [] => some ((s.setFlag eid .leave).setPc eid .left)
  | .leaving (e :: todo) =>
    if e = eid ∨ s.flag e = .leave then some (s.setPc eid (.leaving todo)) else none
  | .left =>
    if eid = master then some (s.ret eid) else some (s.setPc eid .idle)
  | .quick | .tasks => some (s.ret eid)

/-- The regions of a master, one after another, among the executors. -/
def flagMachine : Machine State Label where
  init s := s = ⟨fun _ => .leave, fun _ => 0, ⟨none, 0⟩, 0, [], fun _ => .idle, []⟩
  step s
    | .call => if s.pc master = .idle then some (s.setPc master .called) else none
    | .task r =>
      match s.pc master with
      | .settling (e :: todo) =>
        if e = master ∧ (regions r).inTask then
          some ({ s with region := r, pending := (s.region, e :: todo) :: s.pending }.setPc master .called)
        else none
      | _ => none
    | .next eid => step master regions s eid

end Machine
end Kupl.Loop.Flags
