import Kupl.Machine.Run
import Kupl.Map.Ordered

/-!
# Mappings to high-bandwidth memory (`kupl_mem.cpp`)

| source | here |
|---|---|
| `kupl_mem_t`, `kupl_mem_args_t` | `KuplMem`, `Args` |
| `g_addr_map`, `g_range_map` | `State.addrMap`, `State.rangeMap` |
| `mem_query`, `kupl_mem_query`, `kupl_mem_is_present` | `State.query`, `State.memQuery`, `State.isPresent` |
| `mem_map`, `mem_unmap`, `mem_alloc`, `mem_free` | `State.map`, `State.unmap`, `State.alloc`, `State.free` |
| `mem_attach`, `copyin_task` | `State.attach`, `State.remap`, `State.copyinTask` |
| `mem_detach`, `copyout_task` | `State.detach`, `State.copyoutTask` |

Records have numbers in the order in which they are made, and so have the pieces of high-bandwidth memory. `deleted`,
`freed` and `issued` are for the observer: the records that are gone, how often each piece was freed, and the copies
of the last task. An `Env` says how the calls of a task turn out.
-/

namespace Kupl.Mem

/-- A value kept in 32 bits with a sign (C++ `int`). -/
def int32 (x : Int) : Int := x.bmod (2 ^ 32)

lemma int32_eq {x : Int} (low : -2 ^ 31 ≤ x) (high : x < 2 ^ 31) : int32 x = x := by
  rw [int32, Int.bmod_def]
  split <;> omega

lemma int32_max : int32 (2 ^ 31 - 1 + 1) = -2 ^ 31 := by decide

/-- A piece of high-bandwidth memory: its number, and where it begins. -/
structure Hbw where
  id : Nat
  addr : Nat
  deriving DecidableEq

/-- A mapping (C++ `kupl_mem_t`). -/
structure KuplMem where
  baseDdr : Nat
  baseHbw : Option Hbw
  size : Nat
  pin : Bool
  refCnt : Int
  attCnt : Int

/-- (C++ `kupl_mem_copyin_flag_t`; `other` is any other value). -/
inductive CopyinFlag where
  | create
  | copyIn
  | push
  | other
  deriving DecidableEq

/-- (C++ `kupl_mem_copyout_flag_t`; `other` is any other value). -/
inductive CopyoutFlag where
  | delete
  | out
  | pull
  | deleteFinalize
  | outFinalize
  | other
  deriving DecidableEq

/-- What a task gets (C++ `kupl_mem_args_t`). -/
structure Args (F : Type) where
  mem : Nat
  ddr : Nat
  offset : Nat
  size : Nat
  flag : F

/-- A copy: the bytes of the mapping it is for, how many bytes this has, and how often its memory was freed. -/
structure Copy where
  hbw : Option Hbw
  offset : Nat
  size : Nat
  room : Nat
  freed : Nat
  deriving DecidableEq

def Copy.Inside (c : Copy) : Prop := c.offset + c.size ≤ c.room ∧ c.hbw ≠ none ∧ c.freed = 0

instance (c : Copy) : Decidable c.Inside := inferInstanceAs (Decidable (_ ∧ _))

/-- How the calls of a task turn out: room for a record, the memory that `kupl_hbw_malloc` gives, whether it is
pinned, and whether a copy succeeds. -/
structure Env where
  room : Bool
  hbw : Option Nat
  pinned : Bool
  copied : Bool

/-- The records, the maps, and the high-bandwidth memory. -/
structure State where
  threshold : Nat
  mem : Nat → KuplMem
  made : Nat
  deleted : Nat → Bool
  addrMap : OrderedMap Nat Nat
  rangeMap : OrderedMap Nat Nat
  hbwMade : Nat
  freed : Nat → Nat
  issued : List Copy

namespace State
variable (s : State)

/-- Writes a record. -/
def setMem (mem : Nat) (m : KuplMem) : State := { s with mem := Function.update s.mem mem m }

/-- The mapping of an address, and where in it the address is (C++ `mem_query`). -/
def query (ddr : Nat) : Option (Nat × Nat) :=
  match s.addrMap.lookup ddr with
  | some mem => some (mem, 0)
  | none =>
    match s.rangeMap.lastLe ddr with
    | none => none
    | some (first, mem) =>
      if first < ddr ∧ ddr - first < (s.mem mem).size then some (mem, ddr - first) else none

/-- (C++ `kupl_mem_is_present`). -/
def isPresent (ddr : Nat) : Bool :=
  if ddr = 0 then false
  else
    match s.query ddr with
    | none => false
    | some (mem, _) => 0 < (s.mem mem).attCnt

/-- Where high-bandwidth memory begins, or the null pointer. -/
def hbwAddr (mem : Nat) : Nat := ((s.mem mem).baseHbw.map (·.addr)).getD 0

/-- (C++ `kupl_mem_query`). -/
def memQuery (ddr : Nat) : Nat :=
  if ddr = 0 then 0
  else
    match s.query ddr with
    | none => 0
    | some (mem, offset) => s.hbwAddr mem + offset

/-- A new record for an address, in both maps (C++ `mem_map`). -/
def map (ddr size : Nat) : State :=
  { s with
    mem := Function.update s.mem s.made ⟨ddr, none, size, false, 0, 0⟩
    made := s.made + 1
    addrMap := s.addrMap.insert ddr s.made
    rangeMap := s.rangeMap.insert ddr s.made }

/-- Takes the address of a record out of both maps and deletes the record (C++ `mem_unmap`). -/
def unmap (mem : Nat) : State :=
  { s with
    addrMap := s.addrMap.erase (s.mem mem).baseDdr
    rangeMap := s.rangeMap.erase (s.mem mem).baseDdr
    deleted := Function.update s.deleted mem true }

/-- Gets memory for a mapping that has none (C++ `mem_alloc`). -/
def alloc (mem : Nat) (env : Env) : Option State :=
  if (s.mem mem).baseHbw ≠ none then some s
  else
    match env.hbw with
    | none => none
    | some addr =>
      some { s.setMem mem { s.mem mem with
          baseHbw := some ⟨s.hbwMade, addr⟩
          pin := decide (s.threshold ≤ (s.mem mem).size) && env.pinned
          refCnt := 0 } with
        hbwMade := s.hbwMade + 1 }

/-- Gives the memory of a mapping back (C++ `mem_free`). -/
def free (mem : Nat) : State :=
  match (s.mem mem).baseHbw with
  | none => s
  | some b =>
    { s.setMem mem { s.mem mem with baseHbw := none, pin := false, refCnt := 0 } with
      freed := Function.update s.freed b.id (s.freed b.id + 1) }

/-- A copy between an address and the memory of its mapping. -/
def copy (mem offset size : Nat) : State :=
  let hbw := (s.mem mem).baseHbw
  { s with issued := ⟨hbw, offset, size, (s.mem mem).size, (hbw.map fun b => s.freed b.id).getD 0⟩ :: s.issued }

/-- The mapping that a request found is counted (C++ `mem_attach`, after the record is known). -/
def attachTo (args : Args CopyinFlag) : State × Bool :=
  let m := s.mem args.mem
  match args.flag with
  | .create => (s.setMem args.mem { m with attCnt := int32 (m.attCnt + 1) }, true)
  | .copyIn => (s.setMem args.mem { m with attCnt := int32 (m.attCnt + 1) }, true)
  | .push => (s, true)
  | .other => (s, false)

/-- A request gets a record of its own (C++ `mem_attach`, where `mem_map` is called). -/
def remap (args : Args CopyinFlag) (room : Bool) : State × Args CopyinFlag × Bool :=
  if room then
    let args := { args with mem := s.made, offset := 0 }
    let (s, ok) := (s.map args.ddr args.size).attachTo args
    (s, args, ok)
  else (s, args, false)

/-- A request looks for its mapping (C++ `mem_attach`); nothing where it waits for all queues first. -/
def attach (args : Args CopyinFlag) (room : Bool) : Option (State × Args CopyinFlag × Bool) :=
  match s.query args.ddr with
  | none => some (s.remap args room)
  | some (mem, offset) =>
    if (s.mem mem).attCnt = 0 then none
    else
      let args := { args with mem := mem, offset := offset }
      let (s, ok) := s.attachTo args
      some (s, args, ok)

/-- (C++ `copyin_task`). -/
def copyinTask (args : Args CopyinFlag) (env : Env) : State × Bool :=
  match s.alloc args.mem env with
  | none => (s, false)
  | some s =>
    let m := s.mem args.mem
    match args.flag with
    | .create => (s.setMem args.mem { m with refCnt := int32 (m.refCnt + 1) }, true)
    | .copyIn =>
      let s := s.setMem args.mem { m with refCnt := int32 (m.refCnt + 1) }
      if m.refCnt = 0 then (s.copy args.mem args.offset args.size, env.copied) else (s, true)
    | .push => (s.copy args.mem args.offset args.size, env.copied)
    | .other => (s, false)

/-- A request looks for the mapping that it is done with (C++ `mem_detach`). -/
def detach (args : Args CopyoutFlag) : State × Args CopyoutFlag × Bool :=
  match s.query args.ddr with
  | none => (s, args, false)
  | some (mem, offset) =>
    let m := s.mem mem
    let args := { args with mem := mem, offset := offset }
    match args.flag with
    | .delete => (s.setMem mem { m with attCnt := int32 (m.attCnt - 1) }, args, true)
    | .out => (s.setMem mem { m with attCnt := int32 (m.attCnt - 1) }, args, true)
    | .pull => (s, args, true)
    | .deleteFinalize => (s.setMem mem { m with attCnt := 0 }, args, true)
    | .outFinalize => (s.setMem mem { m with attCnt := 0 }, args, true)
    | .other => (s, args, false)

/-- Memory that nobody counts on is given back, and the record with it (C++ `copyout_task`, the end). -/
def dealloc (mem : Nat) : State :=
  let s := s.free mem
  if (s.mem mem).attCnt = 0 then s.unmap mem else s

/-- (C++ `copyout_task`). -/
def copyoutTask (args : Args CopyoutFlag) (env : Env) : State × Bool :=
  let m := s.mem args.mem
  if m.baseHbw = none then (s, false)
  else
    match args.flag with
    | .pull => (s.copy args.mem args.offset args.size, env.copied)
    | .delete =>
      let s := s.setMem args.mem { m with refCnt := int32 (m.refCnt - 1) }
      if m.refCnt = 1 then (s.dealloc args.mem, true) else (s, true)
    | .out =>
      let s := s.setMem args.mem { m with refCnt := int32 (m.refCnt - 1) }
      if m.refCnt = 1 then ((s.copy args.mem args.offset args.size).dealloc args.mem, env.copied) else (s, true)
    | .outFinalize =>
      let s := s.setMem args.mem { m with refCnt := 0 }
      ((s.copy args.mem args.offset args.size).dealloc args.mem, env.copied)
    | .deleteFinalize => ((s.setMem args.mem { m with refCnt := 0 }).dealloc args.mem, true)
    | .other => (s, false)

/-- The state at the start (C++ `kupl_mem_init`). -/
structure Init : Prop where
  made : s.made = 0
  deleted : ∀ mem, s.deleted mem = false
  addrMap : s.addrMap = ∅
  rangeMap : s.rangeMap = ∅
  hbwMade : s.hbwMade = 0
  freed : ∀ id, s.freed id = 0
  issued : s.issued = []

end State

inductive Call where
  | copyin (ddr size : Nat) (flag : CopyinFlag) (env : Env)
  | copyout (ddr size : Nat) (flag : CopyoutFlag) (env : Env)

namespace State
variable (s : State)

/-- A request on a synchronous queue (C++ `kupl_mem_copyin`). No task is waiting, and so nothing is waited for. -/
def copyin (ddr size : Nat) (flag : CopyinFlag) (env : Env) : State × Bool :=
  if ddr = 0 ∨ size = 0 then (s, false)
  else
    let args : Args CopyinFlag := ⟨0, ddr, 0, size, flag⟩
    let (s, args, ok) := (s.attach args env.room).getD (s.remap args env.room)
    if ok then s.copyinTask args env else (s, false)

/-- A request on a synchronous queue (C++ `kupl_mem_copyout`). -/
def copyout (ddr size : Nat) (flag : CopyoutFlag) (env : Env) : State × Bool :=
  if ddr = 0 then (s, false)
  else
    let (s, args, ok) := s.detach ⟨0, ddr, 0, size, flag⟩
    if ok then s.copyoutTask args env else (s, false)

/-- A call on a synchronous queue, with the copies that it issues. -/
def call : Call → State
  | .copyin ddr size flag env => ({ s with issued := [] }.copyin ddr size flag env).1
  | .copyout ddr size flag env => ({ s with issued := [] }.copyout ddr size flag env).1

end State

/-- Nothing is mapped. -/
def State.start : State :=
  ⟨1048576, fun _ => ⟨0, none, 0, false, 0, 0⟩, 0, fun _ => false, ∅, ∅, 0, fun _ => 0, []⟩

lemma State.start_init : State.start.Init := ⟨rfl, fun _ => rfl, rfl, rfl, rfl, fun _ => rfl, rfl⟩

/-- Every call of a task succeeds, and memory is given at an address. -/
def Env.good (addr : Nat) : Env := ⟨true, some addr, true, true⟩

def syncMachine : Machine State Call where
  init := State.Init
  step s a := some (s.call a)

end Kupl.Mem
