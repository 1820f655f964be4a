import Kupl.Executor.Standing
import Kupl.Machine.Run

/-!
# The executor ids that allocations use

The public allocations and frees look the pools of the caller up by its executor id
(`src/memory/mpool/kupl_mpool.cpp`, `src/memory/hbw/kupl_hbw.cpp`). A thread whose registration failed has
the id `KUPL_EXECUTOR_DEFAULT`, and `kupl_malloc` and `kupl_free` keep the id of the thread's first call.
Most of the functions below check the id; `kupl_memory_hbw_alloc_inner` does not.

C++ → Lean naming: `g_kupl_memory_pool`, `g_kupl_hbw_memory_pool` → `Table.normal`, `Table.hbw`; the
`static thread_local int geid` of `kupl_malloc` and of `kupl_free` → `mallocId`, `freeId`; the functions
keep their words.

A step is a call by one thread. The model logs which entries of the two tables are read or written; what
happens inside a pool is the subject of `Kupl.Mpool`. A block carries the number of the pool that it came
from, and a free may hand it, or blocks freed before it, back to that pool through the table.
-/

namespace Kupl.Expand
open Option

/-- C++ `kupl_mem_kind_t`; `other` is any value that is not in the enumeration. -/
inductive MemKind where
  | default
  | largeCap
  | highBw
  | other (v : Nat)

/-- C++ `KUPL_MAX_MALLOC_SIZE`. -/
def KUPL_MAX_MALLOC_SIZE : Nat := 2 ^ 37

/-- C++ `KUPL_MAX_MALLOC_INNER_SIZE`. -/
def KUPL_MAX_MALLOC_INNER_SIZE : Nat := 2 ^ 37

/-- C++ `MAX_ALLOC_SIZE`. -/
def MAX_ALLOC_SIZE : Nat := 2 ^ 32

/-- C++ `KUPL_EXECUTOR_DEFAULT`. -/
def KUPL_EXECUTOR_DEFAULT : Int := -1

/-- C++ `g_mpool_default_hbw`: only the warm-up sets it, which is never called. -/
def gMpoolDefaultHbw : Bool := false

inductive Table where
  | normal
  | hbw
  deriving DecidableEq, Repr

/-- An entry of a table that was read or written. -/
structure Access where
  table : Table
  index : Int
  deriving DecidableEq, Repr

/-- The tables have `pu_cnt` entries. -/
def Access.Inside (host : Host) (a : Access) : Prop := 0 ≤ a.index ∧ a.index < host.puCnt

/-- What a free is given: a null pointer, a block that stays with the lists of the caller, or one after
which blocks of the pool `eid` go back to it. -/
inductive Given where
  | null
  | stays
  | returns (eid : Nat)
  deriving DecidableEq, Repr

/-- A block that some allocation handed out carries the number of its pool. -/
def Given.From (descs : List Nat) : Given → Prop
  | .returns eid => eid ∈ descs
  | _ => True

instance (descs : List Nat) : (g : Given) → Decidable (g.From descs)
  | .null => inferInstanceAs (Decidable True)
  | .stays => inferInstanceAs (Decidable True)
  | .returns eid => inferInstanceAs (Decidable (eid ∈ descs))

/-- The globals, the thread-local ids, the pool numbers in the blocks handed out, and the accesses so far.
An id is a C++ `int`. -/
structure Process where
  globals : Globals
  mallocId : Nat → Option Int
  freeId : Nat → Option Int
  descs : List Nat
  accesses : List Access

/-- The id as a C++ `int`. -/
def geidOf : Option Nat → Int
  | none => KUPL_EXECUTOR_DEFAULT
  | some e => e

/-- The bins behind an entry of a table. -/
def Globals.memoryAt (g : Globals) (table : Table) (i : Int) : Option Memory :=
  if 0 ≤ i then
    (match table with
      | .normal => g.pool i.toNat
      | .hbw => g.hbwPool i.toNat).bind g.heap.memories
  else none

/-- The entries that the registration of thread `t` may write: those at the end of the pool, after
`kupl_memory_expand` has compared its size with that of the tables. -/
def Globals.registerAccesses (g : Globals) (host : Host) (t : Nat) : List Access :=
  if g.globalId t = none ∧ g.poolSize < host.puCnt then
    [⟨.normal, g.poolSize⟩, ⟨.hbw, g.poolSize⟩]
  else []

namespace Process

/-- An entry is read. -/
def look (s : Process) (table : Table) (i : Int) : Process :=
  { s with accesses := ⟨table, i⟩ :: s.accesses }

/-- An allocation from the pool at an entry; the block carries the number of the pool. -/
def fastAlloc (s : Process) (table : Table) (geid : Int) : Process :=
  { s.look table geid with
    descs := match s.globals.memoryAt table geid with
      | none => s.descs
      | some mem => mem.eid :: s.descs }

def fastFree (s : Process) (table : Table) (geid : Int) : Given → Process
  | .returns eid => (s.look table geid).look table eid
  | _ => s.look table geid

/-- `kupl_memory_alloc_inner`. -/
def kuplMemoryAllocInner (s : Process) (size : Nat) (geid : Int) : Process :=
  if size = 0 ∨ size > KUPL_MAX_MALLOC_INNER_SIZE ∨ geid < 0 ∨ geid ≥ s.globals.poolSize then s
  else s.fastAlloc .normal geid

/-- `kupl_memory_hbw_alloc_inner`. -/
def kuplMemoryHbwAllocInner (s : Process) (geid : Int) : Process := s.fastAlloc .hbw geid

/-- `kupl_memory_free_inner` and `kupl_memory_hbw_free_inner`, which differ in the table. -/
def freeInner (s : Process) (table : Table) (given : Given) (geid : Int) : Process :=
  if given = .null ∨ geid < 0 ∨ geid ≥ s.globals.poolSize then s
  else s.fastFree table geid given

/-- `kupl_memory_free_inner`. -/
def kuplMemoryFreeInner (s : Process) (given : Given) (geid : Int) : Process :=
  s.freeInner .normal given geid

/-- `kupl_memory_hbw_free_inner`. -/
def kuplMemoryHbwFreeInner (s : Process) (given : Given) (geid : Int) : Process :=
  s.freeInner .hbw given geid

section Calls
variable (s : Process) (host : Host) (ok : Mallocs) (t : Nat)

/-- `kupl_get_executor_num`. -/
def getExecutorNum : Option (Process × Int) :=
  (s.globals.kuplGetExecutorNum host ok t).map fun r =>
    ({ s with
        globals := r.1
        accesses := s.globals.registerAccesses host t ++ s.accesses }, geidOf r.2)

/-- The initialiser of `geid` in `kupl_malloc`. -/
def mallocGeid : Option (Process × Int) :=
  match s.mallocId t with
  | some geid => some (s, geid)
  | none => (s.getExecutorNum host ok t).map fun r =>
      ({ r.1 with mallocId := Function.update r.1.mallocId t (some r.2) }, r.2)

/-- The initialiser of `geid` in `kupl_free`. -/
def freeGeid : Option (Process × Int) :=
  match s.freeId t with
  | some geid => some (s, geid)
  | none => (s.getExecutorNum host ok t).map fun r =>
      ({ r.1 with freeId := Function.update r.1.freeId t (some r.2) }, r.2)

/-- `kupl_malloc`. -/
def kuplMalloc (kind : MemKind) (size : Nat) : Option Process :=
  if size > KUPL_MAX_MALLOC_SIZE then some s
  else
    (s.mallocGeid host ok t).map fun r =>
      match kind with
      | .largeCap => r.1.kuplMemoryAllocInner size r.2
      | .highBw => r.1.kuplMemoryHbwAllocInner r.2
      | .default =>
        if gMpoolDefaultHbw then r.1.kuplMemoryHbwAllocInner r.2
        else r.1.kuplMemoryAllocInner size r.2
      | .other _ => r.1

/-- `kupl_free`. -/
def kuplFree (kind : MemKind) (given : Given) : Option Process :=
  (s.freeGeid host ok t).map fun r =>
    match kind with
    | .largeCap => r.1.kuplMemoryFreeInner given r.2
    | .highBw => r.1.kuplMemoryHbwFreeInner given r.2
    | .default =>
      if gMpoolDefaultHbw then r.1.kuplMemoryHbwFreeInner given r.2
      else r.1.kuplMemoryFreeInner given r.2
    | .other _ => r.1

/-- `kupl_hbw_malloc_bind`. -/
def kuplHbwMallocBind : Option Process :=
  (s.getExecutorNum host ok t).map fun r =>
    if r.2 < 0 ∨ r.2 ≥ r.1.globals.poolSize then r.1 else r.1.kuplMemoryHbwAllocInner r.2

/-- `kupl_hbw_malloc`; `hbw` is what `kupl_hbw_check_available` finds. -/
def kuplHbwMalloc (s : Process) (host : Host) (hbw : Bool) (ok : Mallocs) (t size : Nat) :
    Option Process :=
  if size = 0 ∨ size > MAX_ALLOC_SIZE ∨ hbw = false then some s else s.kuplHbwMallocBind host ok t

/-- `kupl_hbw_free`. -/
def kuplHbwFree (given : Given) : Option Process :=
  if given = .null then some s
  else (s.getExecutorNum host ok t).map fun r => r.1.kuplMemoryHbwFreeInner given r.2

end Calls

end Process

/-- A call by thread `t`, and which allocations of a registration in it succeed. -/
inductive Op where
  | register (t : Nat) (ok : Mallocs)
  | malloc (t : Nat) (ok : Mallocs) (kind : MemKind) (size : Nat)
  | free (t : Nat) (ok : Mallocs) (kind : MemKind) (given : Given)
  | hbwMalloc (t : Nat) (ok : Mallocs) (size : Nat)
  | hbwFree (t : Nat) (ok : Mallocs) (given : Given)

def Process.step (host : Host) (hbw : Bool) (s : Process) : Op → Option Process
  | .register t ok => (s.getExecutorNum host ok t).map (·.1)
  | .malloc t ok kind size => s.kuplMalloc host ok t kind size
  | .free t ok kind given => if given.From s.descs then s.kuplFree host ok t kind given else none
  | .hbwMalloc t ok size => s.kuplHbwMalloc host hbw ok t size
  | .hbwFree t ok given => if given.From s.descs then s.kuplHbwFree host ok t given else none

/-- The process after `kupl_init`. -/
def Process.start (count avail : Nat) : Process :=
  ⟨Globals.start count avail, fun _ => none, fun _ => none, [], []⟩

/-- The calls of a process that starts with `count` executors and `avail` available processors. -/
def allocMachine (host : Host) (hbw : Bool) (count avail : Nat) : Machine Process Op :=
  ⟨fun s => s = Process.start count avail, Process.step host hbw⟩

/-- An executor id that a thread was given has bins of its own, and every access was inside the
tables. -/
structure Safe (host : Host) (s : Process) : Prop where
  owned : ∀ t e, s.globals.globalId t = some e → e < s.globals.executorCount → s.globals.Owned e
  inside : ∀ a ∈ s.accesses, a.Inside host

/-- A thread that asks `kupl_malloc` for high-bandwidth memory has an id: the one that its first
`kupl_malloc` kept or, at that call, one that it was given before or is given now. -/
def Identified (host : Host) (s : Process) : Op → Prop
  | .malloc t ok .highBw size => size > KUPL_MAX_MALLOC_SIZE ∨
    match s.mallocId t with
    | some geid => 0 ≤ geid
    | none => s.globals.globalId t ≠ none ∨ s.globals.Registers host ok
  | _ => True

/-! ### The ids in use -/

/-- No id, or one that a thread was given. -/
def Globals.Known (g : Globals) (geid : Int) : Prop :=
  geid = KUPL_EXECUTOR_DEFAULT ∨ ∃ t e, geid = (e : Nat) ∧ g.globalId t = some e

/-- The ids kept by the threads and those in the blocks were given to threads. -/
structure Tracked (host : Host) (s : Process) : Prop where
  standing : s.globals.Standing host
  mallocId : ∀ t geid, s.mallocId t = some geid → s.globals.Known geid
  freeId : ∀ t geid, s.freeId t = some geid → s.globals.Known geid
  descs : ∀ e ∈ s.descs, ∃ t, s.globals.globalId t = some e

section Track
variable {host : Host} {hbw : Bool} {s s' : Process} {ok : Mallocs} {t : Nat} {geid : Int} {table : Table}
  {given : Given}

lemma Globals.Standing.entry {g : Globals} (S : g.Standing host) (K : g.Known geid) (nonneg : 0 ≤ geid)
    (table : Table) : Access.Inside host ⟨table, geid⟩ ∧
      ∃ mem, g.memoryAt table geid = some mem ∧ ∃ t, g.globalId t = some mem.eid := by
  rcases K with rfl | ⟨t, e, rfl, at_t⟩
  · cases nonneg
  · have lt := S.ids t e at_t
    obtain ⟨-, m, m', em, em', -, eh, eh'⟩ := S.owned e (Nat.lt_of_lt_of_le lt S.pooled)
    refine ⟨⟨nonneg, Int.ofNat_lt.2 (Nat.lt_of_lt_of_le lt S.tabled)⟩, ⟨e⟩, ?_, t, at_t⟩
    unfold Globals.memoryAt
    rw [if_pos nonneg, Int.toNat_natCast]
    cases table with
    | normal => rw [em, bind_some, eh]
    | hbw => rw [em', bind_some, eh']

def Insides (host : Host) (s : Process) : Prop := ∀ a ∈ s.accesses, a.Inside host

/-- What a call leaves where the ids in use are known before it. -/
def Goes (host : Host) (cond : Prop) (s s' : Process) : Prop :=
  Tracked host s' ∧ (Insides host s → (Insides host s' ↔ cond))

lemma look_insides {i : Int} : Insides host (s.look table i) ↔ Access.Inside host ⟨table, i⟩ ∧ Insides host s :=
  List.forall_mem_cons

section
variable (T : Tracked host s)
include T

lemma fastAlloc_goes (K : s.globals.Known geid) (table : Table) :
    Goes host (0 ≤ geid) s (s.fastAlloc table geid) := by
  refine ⟨⟨T.standing, T.mallocId, T.freeId, ?_⟩, fun before => ⟨fun after => ?_, fun nonneg => ?_⟩⟩
  · by_cases nonneg : 0 ≤ geid
    · obtain ⟨-, mem, at_i, owner⟩ := T.standing.entry K nonneg table
      intro e mem_e
      simp only [Process.fastAlloc, at_i] at mem_e
      rcases List.mem_cons.1 mem_e with rfl | old
      · exact owner
      · exact T.descs e old
    · intro e mem_e
      simp only [Process.fastAlloc, Globals.memoryAt, if_neg nonneg] at mem_e
      exact T.descs e mem_e
  · exact (look_insides.1 after).1.1
  · exact look_insides.2 ⟨(T.standing.entry K nonneg table).1, before⟩

lemma fastAlloc_inside (K : s.globals.Known geid) (nonneg : 0 ≤ geid)
    (table : Table) : Goes host True s (s.fastAlloc table geid) := by
  obtain ⟨T', iff⟩ := fastAlloc_goes T K table
  exact ⟨T', fun before => iff_of_true ((iff before).2 nonneg) trivial⟩

lemma goes_refl : Goes host True s s :=
  ⟨T, fun before => iff_of_true before trivial⟩

lemma kuplMemoryAllocInner_goes (K : s.globals.Known geid) (size : Nat) :
    Goes host True s (s.kuplMemoryAllocInner size geid) := by
  unfold Process.kuplMemoryAllocInner
  split
  · exact goes_refl T
  · exact fastAlloc_inside T K (by omega) .normal

lemma freeInner_goes (K : s.globals.Known geid) (from_s : given.From s.descs) :
    Goes host True s (s.freeInner table given geid) := by
  unfold Process.freeInner
  split
  · exact goes_refl T
  · rename_i checked
    have own := (T.standing.entry K (by omega) table).1
    have tracked : ∀ {l}, Tracked host { s with accesses := l } :=
      ⟨T.standing, T.mallocId, T.freeId, T.descs⟩
    cases given with
    | null => exact absurd (.inl rfl) checked
    | stays =>
      exact ⟨tracked, fun before => iff_of_true (look_insides.2 ⟨own, before⟩) trivial⟩
    | returns eid =>
      obtain ⟨u, at_u⟩ := T.descs eid from_s
      have back := (T.standing.entry (.inr ⟨u, eid, rfl, at_u⟩) (Int.natCast_nonneg _) table).1
      refine ⟨tracked, fun before => iff_of_true ?_ trivial⟩
      exact look_insides.2 ⟨back, look_insides.2 ⟨own, before⟩⟩

lemma getExecutorNum_goes (e : s.getExecutorNum host ok t = some (s', geid)) :
    Goes host True s s' ∧ s'.globals.Known geid ∧ s'.descs = s.descs ∧ s'.mallocId = s.mallocId ∧
      s'.freeId = s.freeId ∧
      (0 ≤ geid ↔ s.globals.globalId t ≠ none ∨ s.globals.Registers host ok) ∧
      ∀ i, s.globals.Known i → s'.globals.Known i := by
  obtain ⟨⟨g, r⟩, call, eq⟩ := map_eq_some_iff.1 e
  cases eq
  obtain ⟨S, rfl, has, ids⟩ := T.standing.getExecutorNum_standing call
  have known : ∀ i, s.globals.Known i → g.Known i := by
    rintro i (none | ⟨u, e, rfl, at_u⟩)
    · exact .inl none
    · exact .inr ⟨u, e, rfl, ids u e at_u⟩
  refine ⟨⟨⟨S, ?_, ?_, ?_⟩, fun before => iff_of_true ?_ trivial⟩, ?_, rfl, rfl, rfl, ?_, known⟩
  · exact fun u i at_u => known i (T.mallocId u i at_u)
  · exact fun u i at_u => known i (T.freeId u i at_u)
  · intro e mem
    obtain ⟨u, at_u⟩ := T.descs e mem
    exact ⟨u, ids u e at_u⟩
  · intro a mem
    rcases List.mem_append.1 mem with new | old
    · unfold Globals.registerAccesses at new
      split at new
      · rename_i room
        have lt : (s.globals.poolSize : Int) < host.puCnt := Int.ofNat_lt.2 room.2
        simp only [List.mem_cons, List.not_mem_nil, or_false] at new
        rcases new with rfl | rfl
        · exact ⟨Int.natCast_nonneg _, lt⟩
        · exact ⟨Int.natCast_nonneg _, lt⟩
      · cases new
    · exact before a old
  · cases at_t : g.globalId t with
    | none => exact .inl rfl
    | some e => exact .inr ⟨t, e, rfl, at_t⟩
  · rw [← has]
    cases at_t : g.globalId t with
    | none => exact ⟨fun nonneg => (nomatch nonneg), fun no => absurd rfl no⟩
    | some e => exact ⟨fun _ => nofun, fun _ => Int.natCast_nonneg _⟩

omit T in
lemma Goes.trans {c : Prop} {s₁ : Process} (g : Goes host True s s₁) (g' : Goes host c s₁ s') :
    Goes host c s s' :=
  ⟨g'.1, fun before => g'.2 ((g.2 before).2 trivial)⟩

lemma mallocGeid_goes (e : s.mallocGeid host ok t = some (s', geid)) :
    Goes host True s s' ∧ s'.globals.Known geid ∧ (0 ≤ geid ↔ match s.mallocId t with
        | some kept => 0 ≤ kept
        | none => s.globals.globalId t ≠ none ∨ s.globals.Registers host ok) := by
  unfold Process.mallocGeid at e
  cases kept : s.mallocId t with
  | some i =>
    rw [kept] at e
    cases e
    exact ⟨goes_refl T, T.mallocId t _ kept, Iff.rfl⟩
  | none =>
    rw [kept] at e
    obtain ⟨⟨s₁, i⟩, call, eq⟩ := map_eq_some_iff.1 e
    cases eq
    obtain ⟨⟨T₁, in₁⟩, known, -, -, -, has, -⟩ := getExecutorNum_goes T call
    refine ⟨⟨⟨T₁.standing, ?_, T₁.freeId, T₁.descs⟩, in₁⟩, known, has⟩
    intro u j at_u
    by_cases mine : u = t
    · simp only [mine, Function.update_self, Option.some.injEq] at at_u
      rw [← at_u]
      exact known
    · simp only [Function.update_of_ne mine] at at_u
      exact T₁.mallocId u j at_u

lemma freeGeid_goes (e : s.freeGeid host ok t = some (s', geid)) :
    Goes host True s s' ∧ s'.globals.Known geid ∧ s'.descs = s.descs := by
  unfold Process.freeGeid at e
  cases kept : s.freeId t with
  | some i =>
    rw [kept] at e
    cases e
    exact ⟨goes_refl T, T.freeId t _ kept, rfl⟩
  | none =>
    rw [kept] at e
    obtain ⟨⟨s₁, i⟩, call, eq⟩ := map_eq_some_iff.1 e
    cases eq
    obtain ⟨⟨T₁, in₁⟩, known, descs, -⟩ := getExecutorNum_goes T call
    refine ⟨⟨⟨T₁.standing, T₁.mallocId, ?_, T₁.descs⟩, in₁⟩, known, descs⟩
    intro u j at_u
    by_cases mine : u = t
    · simp only [mine, Function.update_self, Option.some.injEq] at at_u
      rw [← at_u]
      exact known
    · simp only [Function.update_of_ne mine] at at_u
      exact T₁.freeId u j at_u

end

/-! ### The calls -/

section
variable (T : Tracked host s)
include T

lemma kuplMalloc_goes {kind : MemKind} {size : Nat} (e : s.kuplMalloc host ok t kind size = some s') :
    Goes host (Identified host s (.malloc t ok kind size)) s s' := by
  unfold Process.kuplMalloc at e
  split at e
  · rename_i large
    cases e
    refine ⟨T, fun before => iff_of_true before ?_⟩
    cases kind with
    | highBw => exact .inl large
    | default | largeCap | other v => trivial
  · rename_i small
    obtain ⟨⟨s₁, geid⟩, call, eq⟩ := map_eq_some_iff.1 e
    obtain ⟨first, known, has⟩ := mallocGeid_goes T call
    cases kind with
    | default | largeCap =>
      cases eq
      exact first.trans (kuplMemoryAllocInner_goes first.1 known size)
    | highBw =>
      -- the only call without a check of the id
      cases eq
      obtain ⟨T', iff⟩ := first.trans (fastAlloc_goes first.1 known .hbw)
      refine ⟨T', fun before => (iff before).trans (has.trans ?_)⟩
      exact ⟨.inr, fun id => id.resolve_left small⟩
    | other v =>
      cases eq
      exact first

lemma kuplFree_goes {kind : MemKind} (from_s : given.From s.descs)
    (e : s.kuplFree host ok t kind given = some s') : Goes host True s s' := by
  obtain ⟨⟨s₁, geid⟩, call, eq⟩ := map_eq_some_iff.1 e
  obtain ⟨first, known, descs⟩ := freeGeid_goes T call
  have given₁ : given.From s₁.descs := by rwa [descs]
  cases kind with
  | default | largeCap | highBw =>
    cases eq
    exact first.trans (freeInner_goes first.1 known given₁)
  | other v =>
    cases eq
    exact first

lemma kuplHbwMalloc_goes {size : Nat} (e : s.kuplHbwMalloc host hbw ok t size = some s') : Goes host True s s' := by
  unfold Process.kuplHbwMalloc at e
  split at e
  · cases e
    exact goes_refl T
  · obtain ⟨⟨s₁, geid⟩, call, eq⟩ := map_eq_some_iff.1 e
    obtain ⟨first, known, -⟩ := getExecutorNum_goes T call
    split at eq
    · cases eq
      exact first
    · cases eq
      exact first.trans (fastAlloc_inside first.1 known (by omega) .hbw)

lemma kuplHbwFree_goes (from_s : given.From s.descs)
    (e : s.kuplHbwFree host ok t given = some s') : Goes host True s s' := by
  unfold Process.kuplHbwFree at e
  split at e
  · cases e
    exact goes_refl T
  · obtain ⟨⟨s₁, geid⟩, call, eq⟩ := map_eq_some_iff.1 e
    obtain ⟨first, known, descs, -⟩ := getExecutorNum_goes T call
    cases eq
    refine first.trans (freeInner_goes first.1 known ?_)
    rwa [descs]

lemma step_goes {a : Op} (e : s.step host hbw a = some s') : Goes host (Identified host s a) s s' := by
  cases a with
  | register t ok =>
    obtain ⟨⟨s₁, geid⟩, call, eq⟩ := map_eq_some_iff.1 e
    cases eq
    exact (getExecutorNum_goes T call).1
  | malloc t ok kind size => exact kuplMalloc_goes T e
  | free t ok kind given =>
    rw [Process.step] at e
    split at e
    · rename_i from_s
      exact kuplFree_goes T from_s e
    · cases e
  | hbwMalloc t ok size => exact kuplHbwMalloc_goes T e
  | hbwFree t ok given =>
    rw [Process.step] at e
    split at e
    · rename_i from_s
      exact kuplHbwFree_goes T from_s e
    · cases e

lemma Tracked.owned (e : Nat) (at_t : s.globals.globalId t = some e) : s.globals.Owned e :=
  T.standing.owned e (Nat.lt_of_lt_of_le (T.standing.ids t e at_t) T.standing.pooled)

lemma Tracked.safe_iff : Safe host s ↔ Insides host s :=
  ⟨fun safe => safe.inside, fun inside => ⟨fun _ e at_t _ => T.owned e at_t, inside⟩⟩

end

end Track

section Runs
variable {host : Host} {hbw : Bool} {count avail : Nat} {s : Process}

lemma start_tracked (le : count ≤ avail) (le' : count ≤ host.puCnt) : Tracked host (Process.start count avail) :=
  ⟨Globals.start_standing le le', nofun, nofun, nofun⟩

lemma tracked_of_reach (le : count ≤ avail) (le' : count ≤ host.puCnt)
    (h : (allocMachine host hbw count avail).Reach (Identified host) s) : Tracked host s ∧ Insides host s := by
  refine h.inv (I := fun s => Tracked host s ∧ Insides host s) ?_ ?_
  · rintro s rfl
    exact ⟨start_tracked le le', nofun⟩
  · rintro s a s' ⟨T, before⟩ named st
    obtain ⟨T', iff⟩ := step_goes T st
    exact ⟨T', (iff before).2 named⟩

lemma start_getExecutorNum {e : Nat} (lt : e < count) (ok : Mallocs) :
    (Globals.start count avail).kuplGetExecutorNum host ok e = some (Globals.start count avail, some e) := by
  have id : (Globals.start count avail).globalId e = some e := if_pos lt
  have below : e < (Globals.start count avail).executorCount := lt
  unfold Globals.kuplGetExecutorNum
  simp only [id, map_some, filter_some, below, decide_true, if_true]

lemma start_malloc {e : Nat} (host : Host) (lt : e < count) (lt' : e < avail) :
    ∃ s', (Process.start count avail).kuplMalloc host .ok e .largeCap 1 = some s' ∧
      ⟨.normal, e⟩ ∈ s'.accesses := by
  have asked : (Process.start count avail).getExecutorNum host .ok e = some ({ Process.start count avail with
        accesses := (Globals.start count avail).registerAccesses host e ++ [] }, (e : Int)) := by
    simp only [Process.getExecutorNum, Process.start, start_getExecutorNum lt, map_some]
    rfl
  obtain ⟨s₁, call, size⟩ : ∃ s₁, (Process.start count avail).mallocGeid host .ok e =
      some (s₁, (e : Int)) ∧ s₁.globals.poolSize = avail := by
    have idle : (Process.start count avail).mallocId e = none := rfl
    simp only [Process.mallocGeid, idle, asked, map_some]
    exact ⟨_, rfl, rfl⟩
  have own : ¬ ((1 : Nat) = 0 ∨ 1 > KUPL_MAX_MALLOC_INNER_SIZE ∨ (e : Int) < 0 ∨
    (e : Int) ≥ s₁.globals.poolSize) := by
    rw [size, KUPL_MAX_MALLOC_INNER_SIZE]
    omega
  refine ⟨s₁.kuplMemoryAllocInner 1 e, ?_, ?_⟩
  · simp only [Process.kuplMalloc, call, map_some]
    rfl
  · rw [Process.kuplMemoryAllocInner, if_neg own]
    exact List.mem_cons_self

/-- Every id that is handed out has bins of its own, and a call stays inside the tables just where it is
identified, exactly where `kupl_init` starts with no more executors than available and than online
processors. -/
theorem allocs_safe_iff (host : Host) (hbw : Bool) (count avail : Nat) :
    (∀ s, (allocMachine host hbw count avail).Reach (Identified host) s →
      Safe host s ∧ ∀ a s', (allocMachine host hbw count avail).step s a = some s' →
        (Safe host s' ↔ Identified host s a)) ↔
    count ≤ avail ∧ count ≤ host.puCnt := by
  refine ⟨fun all => ?_, fun ⟨le, le'⟩ s h => ?_⟩
  · have first : (allocMachine host hbw count avail).Reach (Identified host)
        (Process.start count avail) := .init rfl
    obtain ⟨safe, steps⟩ := all _ first
    have le : count ≤ avail := by
      by_contra more
      -- the first executor without bins
      have at_t : (Globals.start count avail).globalId avail = some avail := if_pos (by omega)
      have own := (safe.owned avail avail at_t (by show avail < count; omega)).1
      exact absurd own (Nat.lt_irrefl avail)
    refine ⟨le, ?_⟩
    by_contra more
    -- the first executor whose bins are behind the end of the table
    have lt : host.puCnt < count := by omega
    obtain ⟨s', call, read⟩ := start_malloc host lt (Nat.lt_of_lt_of_le lt le)
    have safe' := (steps (.malloc host.puCnt .ok .largeCap 1) s' call).2 trivial
    have inside := safe'.inside _ read
    exact absurd inside.2 (Int.lt_irrefl _)
  · obtain ⟨T, before⟩ := tracked_of_reach le le' h
    refine ⟨T.safe_iff.2 before, fun a s' st => ?_⟩
    obtain ⟨T', iff⟩ := step_goes T st
    rw [T'.safe_iff]
    exact iff before

/-- Two executors on two processors: a third thread finds no room in the pool, and its
`kupl_malloc` of high-bandwidth memory reads the entry in front of the table. -/
theorem allocs_safe_not : ¬ ∀ (host : Host) (hbw : Bool) (count avail : Nat) (s : Process),
    (allocMachine host hbw count avail).Reachable s → Safe host s := by
  intro all
  obtain ⟨s, h, read⟩ := Machine.exists_reach (M := allocMachine ⟨2, 64⟩ true 2 2) (g := fun _ _ => True)
    (P := fun s => ⟨.hbw, -1⟩ ∈ s.accesses) [.malloc 7 .ok .highBw 64] rfl (by decide +kernel)
  exact absurd ((all ⟨2, 64⟩ true 2 2 s h).inside _ read).1 (by decide)

end Runs
end Kupl.Expand
