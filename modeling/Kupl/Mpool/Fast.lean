import Kupl.Mpool.Chain
import Kupl.Mpool.Normal

/-!
# The fast bins (`kupl_mpool.cpp`)

| source | here |
|---|---|
| `kupl_mfc_t`, `kupl_fast_desc_t` | `FastCache`, `FastDesc` |
| `kupl_sv_list_put`, `kupl_sv_list_get` | `State.putSelf`, `State.putOther`, the first case of `State.alloc` |
| `kupl_fast_alloc` | `Label.alloc`, `Label.take`, `Label.grow` |
| `kupl_get_memory_from_normal_memory` | `State.growLoop` |
| `kupl_fast_free` | `Label.free`, `Label.splice` |

A list is what the words in memory say: `word` is the first word of a buffer. What belongs to one executor alone
goes with the step before it; the sync lists are loaded and swapped in steps of their own, and a weak swap may
fail. A caller writes what it likes to a buffer that it has (`Label.write`). The normal allocator gives memory
apart from what it gave before. `made`, `regions` and `live` are for the observer only: the buffers there are, the
memory they lie in, and the ones that the callers have.
-/

namespace Kupl.Mpool.Fast
open Chain

/-- (C++ `KUPL_CACHE_LINE`, `MEM_FAST_UNIT`). -/
def cacheLine : Nat := 64

/-- The sizes of the bins (C++ `g_fast_bin_size`). -/
def fastBinSize : List Nat :=
  [1, 1, 2, 3, 4, 5, 6, 7, 8, 9, 10, 11, 12, 13, 14, 15, 16, 17, 18].map (· * cacheLine)

/-- The largest request that comes from a bin. -/
def fastMaxSize : Nat := 18 * cacheLine

/-- (C++ `KUPL_NORMAL_MEMORY_FAST_GROW_SIZE`). -/
def fastGrowSize : Nat := 65536

/-- (C++ `KUPL_FAST_MEMORY_OTHRE_QUEUE_LIMIT`). -/
def otherQueueLimit : Nat := 16

/-- (C++ `sizeof(kupl_fast_desc_t)`). -/
def fastDescSize : Nat := 16

/-- The descriptor of a buffer (C++ `kupl_fast_desc_t`). -/
structure FastDesc where
  eid : Eid
  fastBinIndex : Int
  allocPtr : Nat

/-- The lists of a bin of an executor (C++ `kupl_mfc_t`). -/
structure FastCache where
  self : Nat
  sync : Nat
  other : Nat
  otherTail : Nat
  otherCount : Nat

inductive Pc where
  | idle
  | take (index ptr : Nat)
  | grow (index : Nat)
  | splice (eid : Eid) (index head tail old : Nat)
  deriving DecidableEq

/-- The memory, the bins of the executors, and where these are. -/
structure State where
  word : Nat → Nat
  desc : Nat → FastDesc
  bins : Eid × Nat → FastCache
  pc : Eid → Pc
  regions : List Nat
  made : List Nat
  live : List Nat

inductive Label where
  | alloc (e : Eid) (size : Nat)
  | take (e : Eid) (ok : Bool)
  | grow (e : Eid) (mapped : Option Nat)
  | free (e : Eid) (ptr : Nat)
  | splice (e : Eid) (ok : Bool)
  | write (ptr value : Nat)

namespace State
variable (s : State)

/-- An executor goes on. -/
def goto (e : Eid) (pc : Pc) : State := { s with pc := Function.update s.pc e pc }

/-- Writes to memory. -/
def setWord (ptr value : Nat) : State := { s with word := Function.update s.word ptr value }

def setBin (k : Eid × Nat) (b : FastCache) : State := { s with bins := Function.update s.bins k b }

def putSelf (k : Eid × Nat) (ptr : Nat) : State :=
  (s.setWord ptr (s.bins k).self).setBin k { s.bins k with self := ptr }

/-- Puts a buffer in front of the list of buffers of somebody else. -/
def putOther (k : Eid × Nat) (ptr : Nat) : State :=
  (s.setWord ptr (s.bins k).other).setBin k { s.bins k with other := ptr }

/-- A buffer comes to the callers. -/
def hand (ptr : Nat) : State := { s with live := ptr :: s.live }

/-- A request is served from a list of one's own, or the sync list is looked at. -/
def alloc (e : Eid) (size : Nat) : Option State :=
  if s.pc e = .idle ∧ size ≤ fastMaxSize then
    let index := (size + cacheLine - 1) / cacheLine
    let b := s.bins (e, index)
    if b.self ≠ 0 then some ((s.setBin (e, index) { b with self := s.word b.self }).hand b.self)
    else if b.sync ≠ 0 then some (s.goto e (.take index b.sync))
    else some (s.goto e (.grow index))
  else none

/-- The whole sync list is taken: the first buffer for the caller, the others for oneself. -/
def take (e : Eid) (ok : Bool) : Option State :=
  match s.pc e with
  | .take index ptr =>
    let b := s.bins (e, index)
    if b.sync = ptr ∧ ok then
      some (((s.setBin (e, index) { b with sync := 0, self := s.word ptr }).hand ptr).goto e .idle)
    else some (s.goto e (.take index b.sync))
  | _ => none

/-- A new buffer: the first one is for the caller. -/
def make (k : Eid × Nat) (base buf : Nat) (first : Bool) : State :=
  let s := { s with desc := Function.update s.desc buf ⟨k.1, k.2, base⟩, made := buf :: s.made }
  if first then s.hand buf else s.putSelf k buf

/-- The buffers of a region, one after the other. -/
def growLoop (k : Eid × Nat) (base ptr stride : Nat) : Nat → State
  | 0 => s
  | i + 1 => (growLoop k base ptr stride i).make k base (ptr + stride * i) (i = 0)

/-- The buffers of a region that the normal allocator gave (C++ `kupl_get_memory_from_normal_memory`). -/
def growFrom (k : Eid × Nat) (base : Nat) : State :=
  let actual := fastBinSize.getD k.2 0
  let delta := (fastDescSize + cacheLine - 1) / cacheLine * cacheLine
  let count := fastGrowSize / (actual + delta) % 2 ^ 16
  let ptr := (base + cacheLine - 1) / cacheLine * cacheLine
  { s with regions := base :: s.regions }.growLoop k base ptr (actual + delta) count

/-- The normal allocator gives memory, or none. -/
def grow (e : Eid) (mapped : Option Nat) : Option State :=
  match s.pc e with
  | .grow index =>
    match mapped with
    | none => some (s.goto e .idle)
    | some base =>
      if 0 < base ∧ ∀ b ∈ s.regions, b + fastGrowSize ≤ base ∨ base + fastGrowSize ≤ b then
        some ((s.growFrom (e, index) base).goto e .idle)
      else none
  | _ => none

/-- A buffer is freed: one's own at once, that of somebody else into a batch, and a batch that is full or of
another owner is set aside for its owner. -/
def free (e : Eid) (ptr : Nat) : Option State :=
  if s.pc e = .idle ∧ ptr ∈ s.live ∧ 0 ≤ (s.desc ptr).fastBinIndex then
    let eid := (s.desc ptr).eid
    let index := (s.desc ptr).fastBinIndex.toNat
    let s := { s with live := s.live.erase ptr }
    if eid = e then some (s.putSelf (e, index) ptr)
    else
      let b := s.bins (e, index)
      if b.other = 0 then
        let s := s.putOther (e, index) ptr
        some (s.setBin (e, index) { s.bins (e, index) with otherTail := ptr })
      else if eid = (s.desc b.other).eid ∧ b.otherCount < otherQueueLimit then
        let s := s.putOther (e, index) ptr
        some (s.setBin (e, index) { s.bins (e, index) with otherCount := b.otherCount + 1 })
      else
        let owner := (s.desc b.other).eid
        let s := (s.setWord ptr 0).setBin (e, index) { b with other := ptr, otherTail := ptr, otherCount := 1 }
        let old := (s.bins (owner, index)).sync
        some ((s.setWord b.otherTail old).goto e (.splice owner index b.other b.otherTail old))
  else none

/-- A batch is put in front of the sync list of its owner. -/
def splice (e : Eid) (ok : Bool) : Option State :=
  match s.pc e with
  | .splice eid index head tail old =>
    let b := s.bins (eid, index)
    if b.sync = old ∧ ok then some ((s.setBin (eid, index) { b with sync := head }).goto e .idle)
    else some ((s.setWord tail b.sync).goto e (.splice eid index head tail b.sync))
  | _ => none

def write (ptr value : Nat) : Option State := if ptr ∈ s.live then some (s.setWord ptr value) else none

def step (s : State) : Label → Option State
  | .alloc e size => s.alloc e size
  | .take e ok => s.take e ok
  | .grow e mapped => s.grow e mapped
  | .free e ptr => s.free e ptr
  | .splice e ok => s.splice e ok
  | .write ptr value => s.write ptr value

/-- The state at the start (C++ `kupl_fast_init`). -/
structure Init : Prop where
  bins : ∀ k, s.bins k = ⟨0, 0, 0, 0, 0⟩
  pc : ∀ e, s.pc e = .idle
  regions : s.regions = []
  made : s.made = []
  live : s.live = []

end State

/-- The fast bins. -/
def machine : Machine State Label where
  init := State.Init
  step := State.step

end Kupl.Mpool.Fast
