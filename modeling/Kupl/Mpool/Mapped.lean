import Kupl.Mpool.Counters

/-!
# What the allocator maps and unmaps (`kupl_mpool.cpp`)

| source | here |
|---|---|
| `align_length`, a static variable of `kupl_normal_alloc` | `State.alignLength` |
| `g_kupl_user_align_config` | `Mapped.config` |
| a request above `MEM_MAX_SIZE` in `kupl_normal_alloc` | `MapLabel.map` |
| the free of such a buffer in `kupl_normal_free` | `MapLabel.freeDirect` |
| the argument of `munmap` and `munlock` in `kupl_normal_free` | `Direct.freeLength`, `Pool.freeLength` |
| a request to the pool of the high-bandwidth memory | `MapLabel.other` |

The machine is the one of `Normal`, with the buffers that are mapped by themselves. Their size goes through
`desc->total_size`, an `int`. All executors and both pools round requests with the one `align_length`, which
a request with huge pages sets and nobody sets back; of the second pool this is all that is seen here. `windowed`,
`unmaps`, `reserved` and `granted` are for the observer only: whether a request with huge pages was rounded, the mapped
and the passed lengths of each `munmap`, each ordinary request with its rounded size, and each rounded size with the
size of the buffer that the lists gave for it.
-/

namespace Kupl.Mpool
open Boundary List

/-- The descriptor of a buffer that is mapped by itself, and the length that was mapped. -/
structure Direct where
  ptr : Nat
  totalSize : BitVec 32
  mapped : BitVec 64

/-- The descriptor of a new mapping (C++ `desc->total_size = (int)actual`). -/
def Direct.ofActual (ptr : Nat) (actual : BitVec 64) : Direct := ⟨ptr, actual.setWidth 32, actual⟩

/-- The length that a free passes to `munmap` (C++ `(size_t)desc->total_size`). -/
def Direct.freeLength (b : Direct) : BitVec 64 := b.totalSize.signExtend 64

/-- The length that the free of an own buffer passes to `munmap`, where its chunk goes back to the system. -/
def Pool.ownLength (p : Pool) (e : Eid) (d : Nat) : Option (BitVec 64) :=
  if (p.mem e).memBinsCount (p.indexOf d) < memBinsThreshold then none
  else
    let (q, a) := p.coalesce e d
    if (q.desc a).totalSize = ((memChunkGrowSize - descSize : Nat) : Int) ∧ 2 ≤ (q.mem e).allocChunks then
      some (BitVec.ofInt 64 (q.desc a).totalSize)
    else none

/-- The length that a free passes to `munmap`, if it does (C++ `kupl_normal_free`). -/
def Pool.freeLength (p : Pool) (e : Eid) (ptr : Nat) : Option (BitVec 64) :=
  let d := ptr - descSize
  let p := p.setRef d ((p.desc d).ref - 1)
  if 0 < (p.desc d).ref then none
  else if (p.desc d).memBinIndex < 0 then none
  else if (p.desc d).eid ≠ e then none
  else p.ownLength e d

structure Rounding where
  size : BitVec 64
  huge : Bool
  actual : BitVec 64

/-- The request that an executor rounds up once its sync list is empty. -/
def State.rounds (s : State) (e : Eid) : Option Rounding :=
  match s.pc e with
  | .drain [] size huge => some ⟨size, huge, actualSize size (if huge then hugePageSize else s.alignLength)⟩
  | _ => none

/-- The pool, the configured alignment, the buffers that are mapped by themselves, and what was seen. -/
structure Mapped where
  state : State
  config : BitVec 64
  direct : List Direct
  windowed : Bool
  unmaps : List (BitVec 64 × BitVec 64)
  reserved : List (BitVec 64 × BitVec 64)
  granted : List (Nat × Int)

inductive MapLabel where
  | pool (a : Label)
  | map (e : Eid) (mapped : Option Nat)
  | freeDirect (e : Eid) (ptr : Nat)
  | other (size : BitVec 64) (huge : Bool)

namespace Mapped
variable (s : Mapped)

def round (r : Rounding) : Mapped :=
  { s with
    windowed := s.windowed || r.huge
    reserved := if r.huge then s.reserved else (r.size, r.actual) :: s.reserved }

/-- What is seen of a step of the pool. -/
def observe : Label → Mapped
  | .drain e =>
    match s.state.rounds e with
    | some r => s.round r
    | none => s
  | .search e _ =>
    match s.state.pc e with
    | .search _ actual =>
      match s.state.pool.searchBins e actual with
      | some (p, ptr) => { s with granted := (actual, -(p.desc (ptr - descSize)).totalSize) :: s.granted }
      | none => s
    | _ => s
  | .free e ptr =>
    match s.state.pool.freeLength e ptr with
    | some passed => { s with unmaps := (BitVec.ofNat 64 memChunkGrowSize, passed) :: s.unmaps }
    | none => s
  | _ => s

/-- The step rounds a request up that does not come from a chunk. -/
def Large (a : Label) : Prop := ∃ e, a = .drain e ∧ ∃ r, s.state.rounds e = some r ∧ memMaxSize < r.actual.toNat

instance : DecidablePred s.Large := fun a =>
  match a with
  | .drain e =>
    decidable_of_iff (∃ r ∈ s.state.rounds e, memMaxSize < r.actual.toNat) (by simp [Large])
  | .alloc .. | .search .. | .free .. | .enqueue .. => .isFalse (by simp [Large])

/-- A step of the pool, for requests that come from a chunk. -/
def poolStep (a : Label) : Option Mapped :=
  if s.Large a then none
  else (s.state.step a).map fun t => { s.observe a with state := t }

/-- A large request is rounded up and mapped, unless the system has no memory. -/
def mapStep (e : Eid) (mapped : Option Nat) : Option Mapped :=
  match s.state.rounds e with
  | none => none
  | some r =>
    if memMaxSize < r.actual.toNat then
      (s.state.drain e).bind fun t =>
        match mapped with
        | none => some { s.round r with state := t }
        | some ptr =>
          if ∀ b ∈ s.direct, b.ptr ≠ ptr then
            some { s.round r with state := t, direct := .ofActual ptr r.actual :: s.direct }
          else none
    else none

/-- The buffer behind a pointer. -/
def directAt (ptr : Nat) : Option Direct := s.direct.find? fun b => b.ptr = ptr

/-- A buffer that is mapped by itself is unmapped, whoever frees it. -/
def freeDirect (e : Eid) (ptr : Nat) : Option Mapped :=
  if s.state.pc e = .idle then
    (s.directAt ptr).map fun b =>
      { s with direct := s.direct.filter (·.ptr ≠ ptr), unmaps := (b.mapped, b.freeLength) :: s.unmaps }
  else none

def otherStep (size : BitVec 64) (huge : Bool) : Option Mapped :=
  let align := if huge then hugePageSize else s.state.alignLength
  if size.toNat ≤ maxMallocInnerSize then
    some { s.round ⟨size, huge, actualSize size align⟩ with state := { s.state with alignLength := align } }
  else none

def step : MapLabel → Option Mapped
  | .pool a => s.poolStep a
  | .map e mapped => s.mapStep e mapped
  | .freeDirect e ptr => s.freeDirect e ptr
  | .other size huge => s.otherStep size huge

/-- The state at the start. -/
structure Init (s : Mapped) : Prop where
  state : s.state.Init
  config : s.config = s.state.alignLength
  direct : s.direct = []
  windowed : s.windowed = false
  unmaps : s.unmaps = []
  reserved : s.reserved = []
  granted : s.granted = []

end Mapped

/-- The allocator with its mappings. -/
def mapMachine : Machine Mapped MapLabel where
  init := Mapped.Init
  step := Mapped.step

variable {p q : Pool} {e : Eid} {d x ptr : Nat} {B : Set Nat} {s s' : Mapped} {size align : BitVec 64} {b : Direct}
  {r : Rounding}

/-! ### The lengths -/

lemma Direct.freeLength_iff {actual : BitVec 64} (small : actual.toNat < 2 ^ 38) :
    (Direct.ofActual ptr actual).freeLength = actual ↔ actual.toNat < 2 ^ 31 := by
  have low : ((actual.setWidth 32).setWidth 64).toNat = actual.toNat % 2 ^ 32 := by
    rw [BitVec.toNat_setWidth, BitVec.toNat_setWidth]
    omega
  have sign : (actual.setWidth 32).msb = decide (2 ^ 31 ≤ actual.toNat % 2 ^ 32) := by
    rw [BitVec.msb_eq_decide, BitVec.toNat_setWidth]
  rw [← BitVec.toNat_inj, Direct.freeLength, Direct.ofActual, BitVec.toNat_signExtend, low, sign]
  by_cases neg : 2 ^ 31 ≤ actual.toNat % 2 ^ 32
  · rw [if_pos (decide_eq_true neg)]
    omega
  · rw [if_neg (by simpa using neg)]
    omega

namespace Pool

lemma coalesces_setRef {r : BitVec 16} : (p.setRef x r).Coalesces e d ↔ p.Coalesces e d := by
  simp only [Coalesces, indexOf, index_setRef]
  rfl

lemma completes_setRef {r : BitVec 16} : (p.setRef x r).Completes e d ↔ p.Completes e d := by
  have prev (y) : ((p.setRef x r).desc y).prevFree = (p.desc y).prevFree :=
    setDesc_keeps Desc.prevFree rfl
  simp only [Completes, mergedSize, prevOf, nextOf, total_setRef, prev]
  rfl

/-- The free of an own buffer sends its chunk back to the system. -/
def Returns (p : Pool) (e : Eid) (d : Nat) : Prop := (p.desc d).eid = e ∧ p.Coalesces e d ∧ p.Completes e d

instance : Decidable (p.Returns e d) := inferInstanceAs (Decidable (_ ∧ _))

end Pool

lemma Heap.ownLength_eq (K : Heap p B none) (mem : d ∈ B) (used : (p.desc d).totalSize < 0)
    (own : (p.desc d).eid = e) :
    p.ownLength e d = if p.Coalesces e d ∧ p.Completes e d then
      some (BitVec.ofNat 64 (memChunkGrowSize - descSize)) else none := by
  obtain ⟨q, a, eq, -, -, -, -, total, alloc, -⟩ := K.coalesce_spec mem used own
  unfold Pool.ownLength
  by_cases few : (p.mem e).memBinsCount (p.indexOf d) < memBinsThreshold
  · rw [if_pos few, if_neg]
    exact fun h => BitVec.not_le.2 few h.1
  · rw [if_neg few, eq]
    dsimp only
    rw [total, alloc]
    by_cases whole : p.mergedSize d = ((memChunkGrowSize - descSize : Nat) : Int) ∧ 2 ≤ (p.mem e).allocChunks
    · rw [if_pos whole, if_pos ⟨BitVec.not_lt.1 few, whole⟩, whole.1]
      rfl
    · rw [if_neg whole, if_neg fun h => whole h.2]

lemma Held.freeLength_eq (K : Heap p B none) (H : Held p B 1 ptr) :
    p.freeLength e ptr = if p.Returns e (ptr - descSize) then
      some (BitVec.ofNat 64 (memChunkGrowSize - descSize)) else none := by
  have zero : (p.desc (ptr - descSize)).ref - 1 = 0 := by
    rw [H.ref]
    rfl
  have index := K.index _ H.mem nofun
  rw [Pool.freeLength, zero, Pool.ref_setRef, if_neg (by decide), Pool.index_setRef, if_neg (Int.not_lt.2 index),
    Pool.eid_setRef]
  by_cases own : (p.desc (ptr - descSize)).eid = e
  · have used : ((p.setRef (ptr - descSize) 0).desc (ptr - descSize)).totalSize < 0 := by
      rw [Pool.total_setRef]
      exact H.used
    have own' : ((p.setRef (ptr - descSize) 0).desc (ptr - descSize)).eid = e := by
      rw [Pool.eid_setRef, own]
    rw [if_neg (not_not.2 own), K.setRef.ownLength_eq H.mem used own']
    refine if_congr ?_ rfl rfl
    rw [Pool.coalesces_setRef, Pool.completes_setRef]
    exact (and_iff_right own).symm
  · rw [if_pos own, if_neg fun h => own h.1]

/-! ### The sizes of the buffers that the lists give -/

namespace Pool
variable {actual index : Nat}

lemma total_insert : ((p.insertIntoFreelist e d).desc x).totalSize = (p.desc x).totalSize :=
  setDesc_keeps Desc.totalSize rfl

variable {res : Pool × Nat}

lemma splitBuffer_total (h : p.splitBuffer e d actual index = res) :
    (res.1.desc (res.2 - descSize)).totalSize = -(actual : Int) := by
  subst h
  obtain ⟨u, hu⟩ : ∃ u, d + ((p.desc d).totalSize - actual).toNat = u := ⟨_, rfl⟩
  simp only [splitBuffer, hu, Nat.add_sub_cancel, total_setRef, total_insert]
  show ((p.splitTags d actual).desc u).totalSize = _
  simp only [splitTags, hu, total_setPrev]
  rw [setTotal, setDesc_self]

lemma takeBuffer_total (h : p.takeBuffer e d index = res) :
    (res.1.desc (res.2 - descSize)).totalSize = -(p.desc d).totalSize := by
  subst h
  simp only [takeBuffer, Nat.add_sub_cancel, total_setRef, total_setPrev]
  rw [setTotal, setDesc_self]
  rfl

lemma travelList_tight {l : List Nat} (h : p.travelList e actual index l = some res) :
    (actual : Int) ≤ -(res.1.desc (res.2 - descSize)).totalSize ∧
      -(res.1.desc (res.2 - descSize)).totalSize < actual + minBufferSize := by
  have positive : (0 : Int) < (minBufferSize : Int) := by decide
  induction l with
  | nil => cases h
  | cons d next ih =>
    rw [travelList] at h
    split at h
    · split at h
      · cases h
        rw [splitBuffer_total rfl]
        omega
      · cases h
        rw [takeBuffer_total rfl]
        omega
    · exact ih h

lemma searchBins_tight (h : p.searchBins e actual = some res) :
    (actual : Int) ≤ -(res.1.desc (res.2 - descSize)).totalSize ∧
      -(res.1.desc (res.2 - descSize)).totalSize < actual + minBufferSize := by
  obtain ⟨index, -, found⟩ := exists_of_findSome?_eq_some h
  exact travelList_tight found

end Pool

/-! ### The steps -/

namespace Mapped
variable {t : State} {a : Label}

lemma rounds_actual (h : t.rounds e = some r) : t.pc e = .drain [] r.size r.huge ∧
      r.actual = actualSize r.size (if r.huge then hugePageSize else t.alignLength) := by
  unfold State.rounds at h
  split at h
  · rename_i size huge at'
    cases h
    exact ⟨at', rfl⟩
  · cases h

lemma align_le (I : Inv t B) (huge : Bool) : 1 ≤ (if huge then hugePageSize else t.alignLength).toNat ∧
      (if huge then hugePageSize else t.alignLength).toNat ≤ hugePageSize.toNat := by
  cases huge with
  | true =>
    have pos : 1 ≤ hugePageSize.toNat := by decide
    exact ⟨pos, Nat.le_refl _⟩
  | false => exact I.align

lemma rounds_small (I : Inv t B) (h : t.rounds e = some r) : r.actual.toNat < 2 ^ 38 := by
  obtain ⟨at', actual⟩ := rounds_actual h
  have small : r.size.toNat ≤ maxMallocInnerSize := by
    have ok := I.pc e
    rw [at'] at ok
    exact ok
  have limit : maxMallocInnerSize = 2 ^ 37 := rfl
  have page : hugePageSize.toNat = 2 ^ 21 := by decide
  have desc : descSize = 48 := rfl
  obtain ⟨pos, le⟩ := align_le I r.huge
  have := actualSize_lt small pos le
  rw [actual]
  omega

lemma align_drain {t t' : State} (at' : t.rounds e = some r) (h : t.drain e = some t') :
    t'.alignLength = if r.huge then hugePageSize else t.alignLength := by
  unfold State.rounds at at'
  split at at'
  · rename_i isPc
    cases at'
    rw [State.drain, isPc] at h
    cases h
    rfl
  · cases at'

lemma align_step {t t' : State} (other : ∀ e, a = .drain e → t.rounds e = none)
    (h : t.step a = some t') : t'.alignLength = t.alignLength := by
  cases a with
  | alloc e size huge =>
    rw [State.step, State.alloc] at h
    split at h
    · cases h
      rfl
    · cases h
  | drain e =>
    have none := other e rfl
    rw [State.step, State.drain] at h
    split at h
    · cases h
      rfl
    · rename_i at'
      rw [State.rounds, at'] at none
      cases none
    · cases h
  | search e mapped =>
    rw [State.step, State.search] at h
    split at h
    · split at h
      · cases h
        rfl
      · split at h
        · cases h
          rfl
        · split at h
          · cases h
            rfl
          · cases h
    · cases h
  | free e ptr =>
    rw [State.step, State.free] at h
    split at h
    · cases h
      rfl
    · cases h
  | enqueue e =>
    rw [State.step, State.enqueue] at h
    split at h
    · cases h
      rfl
    · cases h

lemma observe_direct (a : Label) : (s.observe a).direct = s.direct := by
  unfold observe
  cases a with
  | drain e | free e ptr =>
    dsimp only
    split <;> rfl
  | search e mapped =>
    dsimp only
    split
    · split <;> rfl
    · rfl
  | alloc e size huge | enqueue e => rfl

lemma observe_config (a : Label) : (s.observe a).config = s.config := by
  unfold observe
  cases a with
  | drain e | free e ptr =>
    dsimp only
    split <;> rfl
  | search e mapped =>
    dsimp only
    split
    · split <;> rfl
    · rfl
  | alloc e size huge | enqueue e => rfl

lemma pool_cases (h : s.poolStep a = some s') :
    ¬ s.Large a ∧ s.state.step a = some s'.state ∧ s' = { s.observe a with state := s'.state } := by
  unfold poolStep at h
  split at h
  · cases h
  · rename_i small
    obtain ⟨t, ht, rfl⟩ := Option.map_eq_some_iff.1 h
    exact ⟨small, ht, rfl⟩

lemma map_cases {mapped : Option Nat} (h : s.mapStep e mapped = some s') :
    ∃ r t, s.state.rounds e = some r ∧ s.state.drain e = some t ∧ (s' = { s.round r with state := t } ∨
        ∃ ptr, s' = { s.round r with state := t, direct := .ofActual ptr r.actual :: s.direct }) := by
  unfold mapStep at h
  split at h
  · cases h
  · rename_i r at'
    split at h
    · obtain ⟨t, ht, h⟩ := Option.bind_eq_some_iff.1 h
      refine ⟨r, t, at', ht, ?_⟩
      cases mapped with
      | none =>
        cases h
        exact .inl rfl
      | some ptr =>
        dsimp only at h
        split at h
        · cases h
          exact .inr ⟨ptr, rfl⟩
        · cases h
    · cases h

lemma freeDirect_cases (h : s.freeDirect e ptr = some s') : ∃ b, s.directAt ptr = some b ∧ b ∈ s.direct ∧
      s' = { s with direct := s.direct.filter (·.ptr ≠ ptr), unmaps := (b.mapped, b.freeLength) :: s.unmaps } := by
  unfold freeDirect at h
  split at h
  · obtain ⟨b, hb, rfl⟩ := Option.map_eq_some_iff.1 h
    exact ⟨b, hb, mem_of_find?_eq_some hb, rfl⟩
  · cases h

lemma other_cases {huge : Bool} (h : s.otherStep size huge = some s') :
    s' = { s.round ⟨size, huge, actualSize size (if huge then hugePageSize else s.state.alignLength)⟩ with
      state := { s.state with alignLength := if huge then hugePageSize else s.state.alignLength } } := by
  unfold otherStep at h
  dsimp only at h
  split at h
  · cases h
    rfl
  · cases h

lemma exists_inv (h : mapMachine.Reachable s) : ∃ B, Inv s.state B := by
  induction h with
  | init h => exact ⟨∅, .init h.state⟩
  | @step s a s' _ _ st ih =>
    obtain ⟨B, I⟩ := ih
    have next {a : Label} {t : State} (ht : s.state.step a = some t) : ∃ C, Inv t C := by
      by_cases spared : Spared s.state a
      · obtain ⟨C, S⟩ := I.step spared ht
        exact ⟨C, S.inv⟩
      · exact ⟨B, (I.step_lost spared ht).1⟩
    cases a with
    | pool a => exact next (pool_cases st).2.1
    | map e mapped =>
      obtain ⟨r, t, -, ht, eq⟩ := map_cases st
      have ht' : s.state.step (.drain e) = some t := ht
      obtain rfl | ⟨ptr, rfl⟩ := eq
      · exact next ht'
      · exact next ht'
    | freeDirect e ptr =>
      obtain ⟨b, -, -, rfl⟩ := freeDirect_cases st
      exact ⟨B, I⟩
    | other size huge =>
      rw [other_cases st]
      exact ⟨B, I.heap, I.live, I.distinct, I.waits, I.apart, I.pc, align_le I huge⟩

/-! ### The lengths that are unmapped -/

/-- What a free unmaps is what was mapped: the buffer is below 2³¹ bytes, or its chunk stays. -/
def Fits (s : Mapped) : MapLabel → Prop
  | .pool (.free e ptr) => ¬ s.state.pool.Returns e (ptr - descSize)
  | .freeDirect _ ptr => ∀ b, s.directAt ptr = some b → b.mapped.toNat < 2 ^ 31
  | _ => True

/-- Every `munmap` was given the length that was mapped. -/
def Exact (s : Mapped) : Prop := ∀ u ∈ s.unmaps, u.2 = u.1

/-- The descriptors of the buffers that are mapped by themselves. -/
def Sized (s : Mapped) : Prop := ∀ b ∈ s.direct, b = .ofActual b.ptr b.mapped ∧ b.mapped.toNat < 2 ^ 38

lemma sized (h : mapMachine.Reachable s) : s.Sized := by
  induction h with
  | init h =>
    intro b hb
    rw [h.direct] at hb
    cases hb
  | @step s a s' reach _ st ih =>
    obtain ⟨B, I⟩ := exists_inv reach
    cases a with
    | pool a =>
      obtain ⟨-, -, eq⟩ := pool_cases st
      have same : s'.direct = s.direct := by
        rw [eq]
        exact observe_direct a
      intro b hb
      rw [same] at hb
      exact ih b hb
    | map e mapped =>
      obtain ⟨r, t, at', -, rfl | ⟨ptr, rfl⟩⟩ := map_cases st
      · exact ih
      · intro b hb
        obtain rfl | old := mem_cons.1 hb
        · exact ⟨rfl, rounds_small I at'⟩
        · exact ih b old
    | freeDirect e ptr =>
      obtain ⟨b, -, -, rfl⟩ := freeDirect_cases st
      exact fun b hb => ih b (mem_of_mem_filter hb)
    | other size huge =>
      rw [other_cases st]
      exact ih

lemma observe_unmaps (other : ∀ e ptr, a ≠ .free e ptr) : (s.observe a).unmaps = s.unmaps := by
  unfold observe
  cases a with
  | drain e =>
    dsimp only
    split <;> rfl
  | search e mapped =>
    dsimp only
    split
    · split <;> rfl
    · rfl
  | free e ptr => exact absurd rfl (other e ptr)
  | alloc e size huge | enqueue e => rfl

lemma exact_free {B : Set Nat} (I : Inv s.state B) (E : s.Exact) (h : s.poolStep (.free e ptr) = some s') :
    s'.Exact ↔ ¬ s.state.pool.Returns e (ptr - descSize) := by
  obtain ⟨-, st, eq⟩ := pool_cases h
  have H : Held s.state.pool B 1 ptr := by
    rw [State.step, State.free] at st
    split at st
    · rename_i can
      obtain ⟨b, hb, isB⟩ := mem_map.1 can.2
      exact isB ▸ (I.live b hb).1
    · cases st
  have unmaps : s'.unmaps = (s.observe (.free e ptr)).unmaps := by rw [eq]
  unfold Exact
  rw [unmaps]
  unfold observe
  dsimp only
  rw [H.freeLength_eq I.heap]
  by_cases returns : s.state.pool.Returns e (ptr - descSize)
  · rw [if_pos returns]
    refine iff_of_false (fun exact => ?_) (not_not.2 returns)
    exact absurd (exact _ mem_cons_self) (by decide)
  · rw [if_neg returns]
    exact iff_of_true E returns

lemma exact_step {a : MapLabel} (reach : mapMachine.Reachable s) (E : s.Exact) (h : s.step a = some s') :
    s'.Exact ↔ s.Fits a := by
  obtain ⟨B, I⟩ := exists_inv reach
  cases a with
  | pool a =>
    by_cases free : ∃ e ptr, a = .free e ptr
    · obtain ⟨e, ptr, rfl⟩ := free
      exact exact_free I E h
    · have other (e ptr) : a ≠ .free e ptr := fun eq => free ⟨e, ptr, eq⟩
      have fits : s.Fits (.pool a) := by
        cases a with
        | free e ptr => exact absurd rfl (other e ptr)
        | alloc e size huge | drain e | search e mapped | enqueue e => trivial
      obtain ⟨-, -, eq⟩ := pool_cases h
      refine iff_of_true ?_ fits
      have unmaps : s'.unmaps = s.unmaps := by
        rw [eq]
        exact observe_unmaps other
      rw [Exact, unmaps]
      exact E
  | map e mapped =>
    refine iff_of_true ?_ trivial
    obtain ⟨r, t, -, -, rfl | ⟨ptr, rfl⟩⟩ := map_cases h
    · exact E
    · exact E
  | freeDirect e ptr =>
    obtain ⟨b, at', mem, rfl⟩ := freeDirect_cases h
    obtain ⟨made, small⟩ := sized reach b mem
    have right : b.freeLength = b.mapped ↔ b.mapped.toNat < 2 ^ 31 := by
      have := @Direct.freeLength_iff b.ptr _ small
      rwa [← made] at this
    constructor
    · intro exact c hc
      rw [at'] at hc
      cases hc
      exact right.1 (exact _ mem_cons_self)
    · intro fits u hu
      obtain rfl | old := mem_cons.1 hu
      · exact right.2 (fits b at')
      · exact E u old
  | other size huge =>
    rw [other_cases h]
    exact iff_of_true E trivial

lemma Init.exact (h : s.Init) : s.Exact := by
  intro u hu
  rw [h.unmaps] at hu
  cases hu

lemma exact_of_reach (h : mapMachine.Reach Fits s) : s.Exact := by
  induction h with
  | init h => exact h.exact
  | step before fits h ih => exact (exact_step before.reachable ih h).2 fits

/-! ### The amounts that are reserved -/

/-- The request has huge pages, no such request was rounded before, or it is rounded to the same size. -/
def Unmoved (s : Mapped) (size : BitVec 64) (huge : Bool) : Prop :=
  huge = false → s.windowed = false ∨ actualSize size hugePageSize = actualSize size s.config

/-- The step rounds no ordinary request with the alignment of huge pages. -/
def Alone (s : Mapped) : MapLabel → Prop
  | .pool (.drain e) => ∀ r, s.state.rounds e = some r → s.Unmoved r.size r.huge
  | .map e _ => ∀ r, s.state.rounds e = some r → s.Unmoved r.size r.huge
  | .other size huge => s.Unmoved size huge
  | _ => True

/-- The ordinary requests have reserved what follows from their sizes and the configuration. -/
def Plain (s : Mapped) : Prop := ∀ x ∈ s.reserved, x.2 = actualSize x.1 s.config

/-- The lists gave buffers of the reserved sizes, up to rests that are too small to be split off. -/
def Tight (s : Mapped) : Prop := ∀ g ∈ s.granted, (g.1 : Int) ≤ g.2 ∧ g.2 < g.1 + minBufferSize

/-- The one alignment is that of huge pages from the first window on. -/
def Leaks (s : Mapped) : Prop := s.state.alignLength = if s.windowed then hugePageSize else s.config

lemma observe_reserved (other : ∀ e, a = .drain e → s.state.rounds e = none) :
    (s.observe a).windowed = s.windowed ∧ (s.observe a).reserved = s.reserved := by
  unfold observe
  cases a with
  | drain e =>
    dsimp only
    rw [other e rfl]
    exact ⟨rfl, rfl⟩
  | search e mapped =>
    dsimp only
    split
    · split <;> exact ⟨rfl, rfl⟩
    · exact ⟨rfl, rfl⟩
  | free e ptr =>
    dsimp only
    split <;> exact ⟨rfl, rfl⟩
  | alloc e size huge | enqueue e => exact ⟨rfl, rfl⟩

lemma pool_rounds (h : s.poolStep a = some s') :
    (∃ e r, a = .drain e ∧ s.state.rounds e = some r ∧ s.state.drain e = some s'.state ∧
      s' = { s.round r with state := s'.state }) ∨
    (∀ e, a = .drain e → s.state.rounds e = none) ∧ s'.state.alignLength = s.state.alignLength ∧
      s'.windowed = s.windowed ∧ s'.reserved = s.reserved ∧ s'.config = s.config := by
  obtain ⟨-, st, eq⟩ := pool_cases h
  by_cases rounds : ∃ e r, a = .drain e ∧ s.state.rounds e = some r
  · obtain ⟨e, r, rfl, at'⟩ := rounds
    refine .inl ⟨e, r, rfl, at', st, ?_⟩
    have seen : s.observe (.drain e) = s.round r := by
      unfold observe
      dsimp only
      rw [at']
    rw [← seen]
    exact eq
  · have other (e) (isA : a = .drain e) : s.state.rounds e = none := by
      cases at' : s.state.rounds e with
      | none => rfl
      | some r => exact absurd ⟨e, r, isA, at'⟩ rounds
    obtain ⟨windowed, reserved⟩ := observe_reserved other
    refine .inr ⟨other, align_step other st, ?_, ?_, ?_⟩
    · rw [eq]
      exact windowed
    · rw [eq]
      exact reserved
    · rw [eq]
      exact observe_config a

lemma Leaks.round {l : List Direct} (L : s.Leaks)
    (align : t.alignLength = if r.huge then hugePageSize else s.state.alignLength) :
    Leaks { s.round r with state := t, direct := l } := by
  show t.alignLength = if (s.windowed || r.huge) = true then hugePageSize else s.config
  rw [align, L]
  cases r.huge with
  | true =>
    rw [Bool.or_true]
    rfl
  | false =>
    rw [Bool.or_false]
    rfl

lemma leaks (h : mapMachine.Reachable s) : s.Leaks := by
  induction h with
  | @init s h =>
    rw [Leaks, h.windowed, h.config]
    rfl
  | @step s a s' reach _ st ih =>
    cases a with
    | pool a =>
      obtain ⟨e, r, -, at', drain, eq⟩ | ⟨-, align, windowed, -, config⟩ := pool_rounds st
      · rw [eq]
        exact ih.round (align_drain at' drain)
      · rw [Leaks, align, windowed, config]
        exact ih
    | map e mapped =>
      obtain ⟨r, t, at', drain, rfl | ⟨ptr, rfl⟩⟩ := map_cases st
      · exact ih.round (align_drain at' drain)
      · exact ih.round (align_drain at' drain)
    | freeDirect e ptr =>
      obtain ⟨b, -, -, rfl⟩ := freeDirect_cases st
      exact ih
    | other size huge =>
      rw [other_cases st]
      exact ih.round rfl

lemma Plain.round_iff {l : List Direct} (P : s.Plain) (L : s.Leaks)
    (actual : r.actual = actualSize r.size (if r.huge then hugePageSize else s.state.alignLength)) :
    Plain { s.round r with state := t, direct := l } ↔ s.Unmoved r.size r.huge := by
  show (∀ x ∈ if r.huge then s.reserved else (r.size, r.actual) :: s.reserved, x.2 = actualSize x.1 s.config) ↔
    (r.huge = false → _)
  cases huge : r.huge with
  | true =>
    refine iff_of_true ?_ nofun
    exact P
  | false =>
    rw [huge, if_neg nofun, L] at actual
    have first : (∀ x ∈ (r.size, r.actual) :: s.reserved, x.2 = actualSize x.1 s.config) ↔
        r.actual = actualSize r.size s.config :=
      ⟨fun all => all _ mem_cons_self, fun one x hx => (mem_cons.1 hx).elim (fun eq => eq ▸ one) (P x)⟩
    rw [if_neg nofun, first, actual]
    cases s.windowed with
    | true =>
      rw [if_pos rfl]
      exact ⟨fun same _ => .inr same, fun alone => (alone rfl).resolve_left nofun⟩
    | false =>
      rw [if_neg nofun]
      exact iff_of_true rfl fun _ => .inl rfl

lemma plain_step {a : MapLabel} (reach : mapMachine.Reachable s) (P : s.Plain) (h : s.step a = some s') :
    s'.Plain ↔ s.Alone a := by
  have L := leaks reach
  have only {e : Eid} {r : Rounding} (at' : s.state.rounds e = some r) :
      s.Unmoved r.size r.huge ↔ ∀ r, s.state.rounds e = some r → s.Unmoved r.size r.huge := by
    refine ⟨fun one r' at'' => ?_, fun all => all r at'⟩
    obtain rfl := Option.some.inj (at'.symm.trans at'')
    exact one
  cases a with
  | pool a =>
    obtain ⟨e, r, rfl, at', -, eq⟩ | ⟨other, -, -, reserved, config⟩ := pool_rounds h
    · rw [eq, P.round_iff L (rounds_actual at').2]
      exact only at'
    · have alone : s.Alone (.pool a) := by
        cases a with
        | drain e =>
          intro r at'
          rw [other e rfl] at at'
          cases at'
        | alloc e size huge | search e mapped | free e ptr | enqueue e => trivial
      refine iff_of_true ?_ alone
      rw [Plain, reserved, config]
      exact P
  | map e mapped =>
    obtain ⟨r, t, at', -, rfl | ⟨ptr, rfl⟩⟩ := map_cases h
    · rw [P.round_iff L (rounds_actual at').2]
      exact only at'
    · rw [P.round_iff L (rounds_actual at').2]
      exact only at'
  | freeDirect e ptr =>
    refine iff_of_true ?_ trivial
    obtain ⟨b, -, -, rfl⟩ := freeDirect_cases h
    exact P
  | other size huge =>
    rw [other_cases h]
    exact P.round_iff L rfl

lemma plain_of_reach (h : mapMachine.Reach Alone s) : s.Plain := by
  induction h with
  | init h =>
    intro x hx
    rw [h.reserved] at hx
    cases hx
  | step before alone st ih => exact (plain_step before.reachable ih st).2 alone

lemma observe_granted (other : ∀ e mapped, a ≠ .search e mapped) : (s.observe a).granted = s.granted := by
  unfold observe
  cases a with
  | drain e | free e ptr =>
    dsimp only
    split <;> rfl
  | search e mapped => exact absurd rfl (other e mapped)
  | alloc e size huge | enqueue e => rfl

lemma tight (h : mapMachine.Reachable s) : s.Tight := by
  induction h with
  | init h =>
    intro g hg
    rw [h.granted] at hg
    cases hg
  | @step s a s' reach _ st ih =>
    cases a with
    | pool a =>
      obtain ⟨-, -, eq⟩ := pool_cases st
      have granted : s'.granted = (s.observe a).granted := by rw [eq]
      intro g hg
      rw [granted] at hg
      by_cases search : ∃ e mapped, a = .search e mapped
      · obtain ⟨e, mapped, rfl⟩ := search
        unfold observe at hg
        dsimp only at hg
        split at hg
        · split at hg
          · rename_i found
            obtain rfl | old := mem_cons.1 hg
            · exact Pool.searchBins_tight found
            · exact ih g old
          · exact ih g hg
        · exact ih g hg
      · rw [observe_granted fun e mapped is => search ⟨e, mapped, is⟩] at hg
        exact ih g hg
    | map e mapped =>
      obtain ⟨r, t, -, -, rfl | ⟨ptr, rfl⟩⟩ := map_cases st
      · exact ih
      · exact ih
    | freeDirect e ptr =>
      obtain ⟨b, -, -, rfl⟩ := freeDirect_cases st
      exact ih
    | other size huge =>
      rw [other_cases st]
      exact ih

end Mapped

/-- In every run that frees no mapping of 2 GiB or more and sends no chunk back, each `munmap` gets the length
that was mapped; a free that does otherwise passes another length. -/
theorem unmaps_exact (h : mapMachine.Reach Mapped.Fits s) :
    s.Exact ∧ ∀ a s', mapMachine.step s a = some s' → (s'.Exact ↔ s.Fits a) :=
  ⟨Mapped.exact_of_reach h, fun _ _ st => Mapped.exact_step h.reachable (Mapped.exact_of_reach h) st⟩

/-- Nothing is mapped yet, and the alignment is that of `State.start`. -/
def Mapped.start : Mapped where
  state := State.start
  config := State.start.alignLength
  direct := []
  windowed := false
  unmaps := []
  reserved := []
  granted := []

lemma Mapped.start_init : Mapped.start.Init := ⟨State.start_init, rfl, rfl, rfl, rfl, rfl, rfl⟩

/-- A buffer of 8 MiB is mapped and freed. -/
theorem unmaps_exact_mapping : ∃ s : Mapped, s.Exact ∧ s.unmaps = [(8388656, 8388656)] := by
  obtain ⟨s₂, two, one, s₃, third, unmaps⟩ : ∃ s₂,
      ((mapMachine.step Mapped.start (.pool (.alloc 0 8388608 false))).bind fun s₁ =>
        mapMachine.step s₁ (.map 0 (some 4096))) = some s₂ ∧
      s₂.directAt 4096 = some (.ofActual 4096 8388656) ∧
      ∃ s₃, mapMachine.step s₂ (.freeDirect 0 4096) = some s₃ ∧ s₃.unmaps = [(8388656, 8388656)] :=
    ⟨_, rfl, rfl, _, rfl, rfl⟩
  obtain ⟨s₁, first, second⟩ := Option.bind_eq_some_iff.1 two
  have small : s₂.Fits (.freeDirect 0 4096) := by
    intro b hb
    rw [one] at hb
    cases hb
    decide
  have asks : Mapped.start.Fits (.pool (.alloc 0 8388608 false)) := trivial
  have maps : s₁.Fits (.map 0 (some 4096)) := trivial
  have reach₁ : mapMachine.Reach Mapped.Fits s₁ := .step (.init Mapped.start_init) asks first
  have reach₂ : mapMachine.Reach Mapped.Fits s₂ := .step reach₁ maps second
  exact ⟨s₃, (unmaps_exact (.step reach₂ small third)).1, unmaps⟩

/-- A buffer of 2 GiB is mapped and freed: the size is negative as an `int`. -/
theorem unmaps_exact_not : ∃ s : Mapped, mapMachine.Reachable s ∧ ¬ s.Exact ∧
    s.unmaps = [(2147483696, 18446744071562067968 + 48)] := by
  refine Machine.shown (P := fun s => s.unmaps = [(2147483696, 18446744071562067968 + 48)])
    [.pool (.alloc 0 2147483648 false), .map 0 (some 4096), .freeDirect 0 4096] Mapped.start_init (by decide +kernel)
    fun s _ unmaps => ⟨fun exact => ?_, unmaps⟩
  have wrong := exact _ (unmaps ▸ mem_cons_self)
  exact absurd wrong (by decide)

/-- In every run that rounds no ordinary request once a window asked for huge pages, unless the size is the same,
each ordinary request reserves what follows from its size and the configuration, so that any two such runs with one
configuration agree; a rounding that does otherwise reserves another amount. -/
theorem reserved_plain (h : mapMachine.Reach Mapped.Alone s) : s.Plain ∧ s.Tight ∧
    (∀ t, mapMachine.Reach Mapped.Alone t → t.config = s.config →
      ∀ x ∈ s.reserved, ∀ y ∈ t.reserved, x.1 = y.1 → x.2 = y.2) ∧
    ∀ a s', mapMachine.step s a = some s' → (s'.Plain ↔ s.Alone a) := by
  have P := Mapped.plain_of_reach h
  refine ⟨P, Mapped.tight h.reachable, fun t ht config x hx y hy size => ?_, fun _ _ st => ?_⟩
  · calc x.2 = actualSize x.1 s.config := P x hx
      _ = actualSize y.1 t.config := by rw [size, config]
      _ = y.2 := (Mapped.plain_of_reach ht y hy).symm
  · exact Mapped.plain_step h.reachable P st

/-- An ordinary request, and a window after it. -/
theorem reserved_plain_window : ∃ s : Mapped, s.Plain ∧ s.reserved = [(100, 152)] ∧ s.windowed = true := by
  obtain ⟨s₁, first, s₂, second, reserved, windowed⟩ : ∃ s₁,
    mapMachine.step Mapped.start (.other 100 false) = some s₁ ∧
      ∃ s₂, mapMachine.step s₁ (.other 2097152 true) = some s₂ ∧ s₂.reserved = [(100, 152)] ∧
        s₂.windowed = true :=
    ⟨_, rfl, _, rfl, rfl, rfl⟩
  have ordinary : Mapped.start.Alone (.other 100 false) := fun _ => .inl rfl
  have window : s₁.Alone (.other 2097152 true) := nofun
  have reach : mapMachine.Reach Mapped.Alone s₁ := .step (.init Mapped.start_init) ordinary first
  exact ⟨s₂, (reserved_plain (.step reach window second)).1, reserved, windowed⟩

/-- An ordinary request of 100 bytes reserves 2 MiB once a window has asked for huge pages. -/
theorem reserved_plain_not : ∃ s t : Mapped, mapMachine.Reachable s ∧ mapMachine.Reachable t ∧
    s.config = t.config ∧ s.reserved = [(100, 152)] ∧ t.reserved = [(100, 2097152)] := by
  let ordinary : List MapLabel := [.pool (.alloc 0 100 false), .pool (.drain 0), .pool (.search 0 (some 4096)),
    .pool (.search 0 none)]
  obtain ⟨s, hs, configS, reservedS⟩ := Machine.exists_reach (M := mapMachine) (g := fun _ _ => True)
    (P := fun s => s.config = Mapped.start.config ∧ s.reserved = [(100, 152)]) ordinary Mapped.start_init
    (by decide +kernel)
  obtain ⟨t, ht, configT, reservedT⟩ := Machine.exists_reach (M := mapMachine) (g := fun _ _ => True)
    (P := fun s => s.config = Mapped.start.config ∧ s.reserved = [(100, 2097152)])
    ([.pool (.alloc 1 2097152 true), .map 1 (some 8388608)] ++ ordinary) Mapped.start_init (by decide +kernel)
  exact ⟨s, t, hs, ht, configS.trans configT.symm, reservedS, reservedT⟩

end Kupl.Mpool
