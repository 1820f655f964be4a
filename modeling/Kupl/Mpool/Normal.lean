import Kupl.Machine.Run
import Kupl.Mpool.Boundary
import Mathlib.Algebra.Group.Nat.Defs

/-!
# The normal allocator (`kupl_mpool.cpp`)

| source | here |
|---|---|
| `kupl_buffer_desc_t` | `Desc` |
| `kupl_memory_t`, the normal part | `KuplMemory` |
| `kupl_get_bin_index` | `kuplGetBinIndex` |
| `kupl_normal_insert_into_freelist`, `kupl_list_del` | `Pool.insertIntoFreelist`, `Pool.listDel` |
| `kupl_normal_travel_list` | `Pool.travelList` |
| `kupl_normal_alloc` | `Label.alloc`, `Label.drain`, `Label.search` |
| `kupl_normal_free` | `Pool.normalFree` |
| `kupl_normal_sync_list_enqueue`, `kupl_normal_sync_list_dequeue` | `Label.enqueue`, `Label.drain` |

An address is a natural number, and a list of nodes is the list of their addresses. A compare-and-swap loop
on a sync list is the step in which it succeeds: nobody else writes to the buffer that is put there, and the
dequeue takes the whole list. The pool of the high-bandwidth memory is a second pool like this one. A request
above `memMaxSize` is mapped by itself and touches no list. `chunks`, `live` and the size of a request in
`Pc.search` are for the observer only.
-/

namespace Kupl.Mpool
open Boundary
open Function (update)

/-- The number of an executor (C++ `uint16_t eid`). -/
abbrev Eid := BitVec 16

/-- The size of a descriptor (C++ `sizeof(kupl_buffer_desc_t)`). -/
def descSize : Nat := 48

/-- The sizes of the bins (C++ `g_memory_bin_size`). -/
def memoryBinSize : List Nat :=
  [0, 512, 1024, 2 * 1024, 4 * 1024, 8 * 1024, 16 * 1024, 32 * 1024, 64 * 1024, 128 * 1024, 256 * 1024,
    512 * 1024, 1024 * 1024, 2 * 1024 * 1024, 4 * 1024 * 1024]

/-- The size of a chunk (C++ `MEM_CHUNK_GROW_SIZE`). -/
def memChunkGrowSize : Nat := 4 * 1024 * 1024

/-- The largest request that comes from a chunk (C++ `MEM_MAX_SIZE`). -/
def memMaxSize : Nat := memChunkGrowSize - 2 * descSize

/-- The least rest of a split (C++ `min_buffer_size`). -/
def minBufferSize : Nat := descSize + 16

/-- From so many free buffers on, neighbours are merged (C++ `KUPL_MEM_BINS_THRESHOLD`). -/
def memBinsThreshold : BitVec 32 := 4

/-- The alignment of huge pages (C++ `HUGE_PAGE_SIZE`). -/
def hugePageSize : BitVec 64 := 2 * 1024 * 1024

/-- The largest request that the callers let through (C++ `KUPL_MAX_MALLOC_INNER_SIZE`). -/
def maxMallocInnerSize : Nat := 2 ^ 37

/-- The measures of a chunk of the pool: the dummy descriptor is at the tail. -/
def layout : Layout where
  tail := memChunkGrowSize - descSize
  region := memChunkGrowSize
  least := descSize
  pos := by decide
  fits := by decide
  inside := by decide

/-- The descriptor in front of a buffer (C++ `kupl_buffer_desc_t`). -/
structure Desc where
  eid : Eid
  ref : BitVec 16
  memBinIndex : Int
  totalSize : Int
  prevFree : Int

/-- The memory of an executor (C++ `kupl_memory_t`). -/
structure KuplMemory where
  allocChunks : BitVec 32
  memBins : Nat → List Nat
  memBinsCount : Nat → BitVec 32
  memSyncList : List Nat

/-- The descriptors by address, the memory of each executor, and the chunks that are mapped. -/
structure Pool where
  desc : Nat → Desc
  mem : Eid → KuplMemory
  chunks : List Nat

/-- The search of (C++ `kupl_get_bin_index`). -/
def getBinIndexLoop (size : Nat) (bins : List Nat) : Nat → Nat → Nat → Nat × Nat
  | 0, low, high => (low, high)
  | fuel + 1, low, high =>
    if 1 < high - low then
      let mid := (high + low) / 2
      if size < bins.getD mid 0 then getBinIndexLoop size bins fuel low (mid - 1)
      else getBinIndexLoop size bins fuel mid high
    else (low, high)

/-- The bin of a size (C++ `kupl_get_bin_index`). -/
def kuplGetBinIndex (size : Nat) (bins : List Nat) : Nat :=
  let (low, high) := getBinIndexLoop size bins bins.length 0 (bins.length - 1)
  if low < high ∧ bins.getD high 0 ≤ size then high else low

namespace Pool
variable (p : Pool) (e : Eid) (d : Nat)

def setDesc (x : Desc) : Pool := { p with desc := update p.desc d x }

/-- Writes the size of a descriptor. -/
def setTotal (t : Int) : Pool := p.setDesc d { p.desc d with totalSize := t }

/-- Writes what a descriptor knows of the buffer before it. -/
def setPrev (t : Int) : Pool := p.setDesc d { p.desc d with prevFree := t }

/-- Writes the reference count of a descriptor. -/
def setRef (r : BitVec 16) : Pool := p.setDesc d { p.desc d with ref := r }

/-- Writes the bin of a descriptor. -/
def setIndex (i : Int) : Pool := p.setDesc d { p.desc d with memBinIndex := i }

/-- Writes the owner of a descriptor. -/
def setEid : Pool := p.setDesc d { p.desc d with eid := e }

/-- Writes the memory of an executor. -/
def setMem (m : KuplMemory) : Pool := { p with mem := update p.mem e m }

/-- Takes a free buffer from its list (C++ `kupl_list_del`). -/
def listDel : Pool := p.setMem e { p.mem e with memBins := fun i => ((p.mem e).memBins i).erase d }

/-- One buffer less is counted in a bin (C++ `mem_bins_count[index] -= 1`). -/
def decCount (index : Nat) : Pool :=
  p.setMem e { p.mem e with
    memBinsCount := update (p.mem e).memBinsCount index ((p.mem e).memBinsCount index - 1) }

/-- (C++ `kupl_normal_insert_into_freelist`). -/
def insertIntoFreelist : Pool :=
  let index := kuplGetBinIndex (p.desc d).totalSize.toNat memoryBinSize
  let p := p.setIndex d index
  p.setMem e { p.mem e with
    memBins := update (p.mem e).memBins index (d :: (p.mem e).memBins index)
    memBinsCount := update (p.mem e).memBinsCount index ((p.mem e).memBinsCount index + 1) }

def splitTags (actual : Nat) : Pool :=
  let user := d + ((p.desc d).totalSize - actual).toNat
  let next := user + actual
  let p := p.setTotal d ((p.desc d).totalSize - actual)
  let p := p.setEid (p.desc d).eid user
  let p := p.setIndex user (p.desc d).memBinIndex
  let p := p.setTotal user (-actual)
  let p := p.setPrev user (p.desc d).totalSize
  p.setPrev next 0

def splitBuffer (actual index : Nat) : Pool × Nat :=
  let user := d + ((p.desc d).totalSize - actual).toNat
  let p := p.splitTags d actual
  let p := (p.listDel e d).decCount e index
  let p := p.insertIntoFreelist e d
  (p.setRef user 1, user + descSize)

def takeBuffer (index : Nat) : Pool × Nat :=
  let p := (p.listDel e d).decCount e index
  let p := p.setPrev (d + (p.desc d).totalSize.toNat) 0
  let p := p.setTotal d (-(p.desc d).totalSize)
  let p := p.setPrev d 0
  (p.setRef d 1, d + descSize)

/-- The first buffer of a list that is large enough (C++ `kupl_normal_travel_list`). -/
def travelList (actual index : Nat) : List Nat → Option (Pool × Nat)
  | [] => none
  | d :: next =>
    if (actual : Int) ≤ (p.desc d).totalSize then
      if (minBufferSize : Int) ≤ (p.desc d).totalSize - actual then some (p.splitBuffer e d actual index)
      else some (p.takeBuffer e d index)
    else travelList actual index next

/-- The search for a buffer, bin after bin (C++ `search_bins`). -/
def searchBins (actual : Nat) : Option (Pool × Nat) :=
  ((List.range memoryBinSize.length).drop (kuplGetBinIndex actual memoryBinSize)).findSome? fun index =>
    p.travelList e actual index ((p.mem e).memBins index)

/-- The tags of a new chunk: one free buffer and the dummy at the tail. -/
def chunkTags (base : Nat) : Pool :=
  let p := p.setEid e base
  let p := p.setRef base 1
  let p := p.setTotal base ((memChunkGrowSize - descSize : Nat) : Int)
  let p := p.setPrev base 0
  let next := base + (p.desc base).totalSize.toNat
  let p := p.setPrev next (p.desc base).totalSize
  let p := p.setEid e next
  p.setTotal next (-1)

/-- A chunk is mapped (C++ `kupl_normal_alloc`). -/
def growChunk (base : Nat) : Pool :=
  let p := { p with chunks := base :: p.chunks }
  let p := p.setMem e { p.mem e with allocChunks := (p.mem e).allocChunks + 1 }
  (p.chunkTags e base).insertIntoFreelist e base

/-- The buffer before a freed one takes it in, if it is free. -/
def mergePrev (index : Nat) : Pool × Nat :=
  if (p.desc d).prevFree ≠ 0 then
    let prev := d - (p.desc d).prevFree.toNat
    let p := p.setTotal prev ((p.desc prev).totalSize + (p.desc d).totalSize)
    ((p.listDel e prev).decCount e index, prev)
  else (p, d)

/-- A freed buffer takes in the one behind it, if it is free. -/
def mergeNext (index : Nat) : Pool :=
  let next := d + (p.desc d).totalSize.toNat
  if 0 < (p.desc next).totalSize then
    let p := p.setTotal d ((p.desc d).totalSize + (p.desc next).totalSize)
    (p.listDel e next).decCount e index
  else p

/-- What is behind a freed buffer gets to know its size. -/
def tellNext : Pool := p.setPrev (d + (p.desc d).totalSize.toNat) (p.desc d).totalSize

/-- A chunk goes back to the system (C++ `munmap`). -/
def unmap : Pool := { p with chunks := p.chunks.erase d }

def freeOwn : Pool :=
  let p := p.setTotal d (-(p.desc d).totalSize)
  let index := (p.desc d).memBinIndex.toNat
  if (p.mem e).memBinsCount index < memBinsThreshold then p.insertIntoFreelist e d
  else
    let (p, d) := p.mergePrev e d index
    let p := (p.mergeNext e d index).tellNext d
    if (p.desc d).totalSize = ((memChunkGrowSize - descSize : Nat) : Int) ∧ 2 ≤ (p.mem e).allocChunks then p.unmap d
    else p.insertIntoFreelist e d

/-- Frees a buffer, and whether it is to be put on the sync list of its owner (C++ `kupl_normal_free`). -/
def normalFree (ptr : Nat) : Pool × Bool :=
  let d := ptr - descSize
  let p := p.setRef d ((p.desc d).ref - 1)
  if 0 < (p.desc d).ref then (p, false)
  else if (p.desc d).memBinIndex < 0 then (p, false)
  else if (p.desc d).eid ≠ e then (p, true)
  else (p.freeOwn e d, false)

/-- What the lists of the pool say of its memory. -/
def arena : Arena where
  total d := (p.desc d).totalSize
  prevFree d := (p.desc d).prevFree
  listed := {d | ∃ e i, d ∈ (p.mem e).memBins i}
  bases := {c | c ∈ p.chunks}

end Pool

/-- The size of a request with its descriptor, aligned. -/
def actualSize (size align : BitVec 64) : BitVec 64 :=
  let actual := size + BitVec.ofNat 64 descSize
  (actual + align - 1) &&& ~~~(align - 1)

inductive Pc where
  | idle
  | enqueue (ptr : Nat) (next : Pc)
  | drain (rest : List Nat) (size : BitVec 64) (huge : Bool)
  | search (size actual : Nat)
  deriving DecidableEq

/-- The buffers that an executor took from its sync list and still has to free. -/
def Pc.rest : Pc → List Nat
  | .enqueue _ next => next.rest
  | .drain rest _ _ => rest
  | _ => []

/-- The pool, the alignment, where each executor is, and the buffers in the hands of the callers with the
sizes that these asked for. -/
structure State where
  pool : Pool
  alignLength : BitVec 64
  pc : Eid → Pc
  live : List (Nat × Nat)

inductive Label where
  | alloc (e : Eid) (size : BitVec 64) (huge : Bool)
  | drain (e : Eid)
  | search (e : Eid) (mapped : Option Nat)
  | free (e : Eid) (ptr : Nat)
  | enqueue (e : Eid)

/-- An executor goes on. -/
def State.goto (s : State) (e : Eid) (pc : Pc) : State := { s with pc := update s.pc e pc }

def State.work (s : State) (p : Pool) (e : Eid) (pc : Pc) : State := { s.goto e pc with pool := p }

def State.alloc (s : State) (e : Eid) (size : BitVec 64) (huge : Bool) : Option State :=
  if s.pc e = .idle ∧ size.toNat ≤ maxMallocInnerSize then
    some (s.work (s.pool.setMem e { s.pool.mem e with memSyncList := [] }) e
      (.drain (s.pool.mem e).memSyncList size huge))
  else none

/-- The buffers from the sync list are freed one by one, then the size is aligned. -/
def State.drain (s : State) (e : Eid) : Option State :=
  match s.pc e with
  | .drain (ptr :: rest) size huge =>
    let (p, remote) := s.pool.normalFree e ptr
    some (s.work p e (if remote then .enqueue ptr (.drain rest size huge) else .drain rest size huge))
  | .drain [] size huge =>
    let align := if huge then hugePageSize else s.alignLength
    let actual := (actualSize size align).toNat
    some { s.goto e (if memMaxSize < actual then .idle else .search size.toNat actual) with alignLength := align }
  | _ => none

/-- The bins are searched, and where they have nothing a chunk is mapped. -/
def State.search (s : State) (e : Eid) (mapped : Option Nat) : Option State :=
  match s.pc e with
  | .search size actual =>
    match s.pool.searchBins e actual with
    | some (p, ptr) => some { s.work p e .idle with live := (ptr, size) :: s.live }
    | none =>
      match mapped with
      | none => some (s.goto e .idle)
      | some base =>
        if ∀ c ∈ s.pool.chunks, c + memChunkGrowSize ≤ base ∨ base + memChunkGrowSize ≤ c then
          some (s.work (s.pool.growChunk e base) e (.search size actual))
        else none
  | _ => none

/-- A buffer in the hands of the callers is freed by some executor. -/
def State.free (s : State) (e : Eid) (ptr : Nat) : Option State :=
  if s.pc e = .idle ∧ ptr ∈ s.live.map Prod.fst then
    let (p, remote) := s.pool.normalFree e ptr
    some { s.work p e (if remote then .enqueue ptr .idle else .idle) with
      live := s.live.filter fun b => b.1 ≠ ptr }
  else none

/-- A freed buffer gets on the sync list of its owner. -/
def State.enqueue (s : State) (e : Eid) : Option State :=
  match s.pc e with
  | .enqueue ptr next =>
    let owner := (s.pool.desc (ptr - descSize)).eid
    let m := s.pool.mem owner
    some (s.work (s.pool.setMem owner { m with memSyncList := ptr :: m.memSyncList }) e next)
  | _ => none

def State.step (s : State) : Label → Option State
  | .alloc e size huge => s.alloc e size huge
  | .drain e => s.drain e
  | .search e mapped => s.search e mapped
  | .free e ptr => s.free e ptr
  | .enqueue e => s.enqueue e

/-- The memory of an executor at the start (C++ `kupl_normal_init`). -/
def kuplNormalInit : KuplMemory where
  allocChunks := 0
  memBins _ := []
  memBinsCount _ := 0
  memSyncList := []

/-- The state at the start; the alignment is that of the configuration (C++ `KUPL_MPOOL_ALIGN_SIZE`). -/
structure State.Init (s : State) : Prop where
  mem : ∀ e, s.pool.mem e = kuplNormalInit
  chunks : s.pool.chunks = []
  pc : ∀ e, s.pc e = .idle
  live : s.live = []
  align : 2 ≤ s.alignLength.toNat ∧ s.alignLength.toNat ≤ 2048

/-- The normal allocator. -/
def machine : Machine State Label where
  init := State.Init
  step := State.step

end Kupl.Mpool
