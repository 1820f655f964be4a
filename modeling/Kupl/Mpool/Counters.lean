import Kupl.Mpool.Tiling

/-!
# The counters of the bins and of the chunks (`kupl_mpool.cpp`)

`mem_bins_count` is to hold the lengths of the free lists and `alloc_chunks` the number of mapped chunks.
An insertion and the search keep this. A free of a buffer that coalesces does not always:

- it takes one from the count of the bin that the freed buffer remembers, for each neighbour that it takes
  from a list, whatever the bin of the neighbour is;
- a chunk that is whole again is unmapped and `alloc_chunks` is left as it was.

Between a counter and what it counts there is a *drift*, modulo 2³². A list operation moves it by the
difference of two bins (`KuplMemory.drift_drop`), and the counters are right as long as no bin drifts.
-/

namespace Kupl.Mpool
open Boundary List
open Function (update update_eq_self update_idem update_of_ne update_self)

variable {p q : Pool} {e e' : Eid} {d x i j index : Nat} {B : Set Nat} {m : KuplMemory} {s s' : State}

/-! ### The drift of a counter -/

namespace KuplMemory

/-- A buffer is taken from its list and one is taken from the count of a bin. -/
def drop (m : KuplMemory) (d index : Nat) : KuplMemory :=
  { m with
    memBins := fun i => (m.memBins i).erase d
    memBinsCount := update m.memBinsCount index (m.memBinsCount index - 1) }

/-- A buffer is put in front of a list, and counted. -/
def push (m : KuplMemory) (d index : Nat) : KuplMemory :=
  { m with
    memBins := update m.memBins index (d :: m.memBins index)
    memBinsCount := update m.memBinsCount index (m.memBinsCount index + 1) }

/-- How far the count of a bin is off. -/
def drift (m : KuplMemory) (i : Nat) : BitVec 32 :=
  m.memBinsCount i - BitVec.ofNat 32 (m.memBins i).length

/-- A buffer is in one list, once. -/
structure Tidy (m : KuplMemory) : Prop where
  once : ∀ i j d, d ∈ m.memBins i → d ∈ m.memBins j → i = j
  nodup : ∀ i, (m.memBins i).Nodup

def Counted (m : KuplMemory) : Prop := ∀ i, (m.memBinsCount i).toNat = (m.memBins i).length

lemma counted_iff : m.Counted ↔ (∀ i, m.drift i = 0) ∧ ∀ i, (m.memBins i).length < 2 ^ 32 := by
  constructor
  · intro C
    refine ⟨fun i => ?_, fun i => ?_⟩
    · rw [drift, ← C i, BitVec.ofNat_toNat, BitVec.setWidth_eq]
      exact BitVec.sub_self _
    · rw [← C i]
      exact (m.memBinsCount i).isLt
  · rintro ⟨none, small⟩ i
    have same : m.memBinsCount i = BitVec.ofNat 32 (m.memBins i).length := by
      have := none i
      rw [drift] at this
      grind
    rw [same, BitVec.toNat_ofNat, Nat.mod_eq_of_lt (small i)]

lemma Tidy.drop (T : m.Tidy) : (m.drop d index).Tidy where
  once i j x hi hj := T.once i j x (mem_of_mem_erase hi) (mem_of_mem_erase hj)
  nodup i := (T.nodup i).erase d

lemma drift_push : (m.push d index).drift i = m.drift i := by
  unfold drift push
  dsimp only
  by_cases same : i = index
  · subst same
    rw [update_self, update_self, length_cons, BitVec.ofNat_add]
    grind
  · rw [update_of_ne same, update_of_ne same]

lemma drift_drop (T : m.Tidy) (h : d ∈ m.memBins j) : (m.drop d index).drift i =
      m.drift i + (if i = j then 1 else 0) - (if i = index then 1 else 0) := by
  have count : (m.drop d index).memBinsCount i = m.memBinsCount i - (if i = index then 1 else 0) := by
    show update m.memBinsCount index (m.memBinsCount index - 1) i = _
    by_cases same : i = index
    · rw [if_pos same, same, update_self]
    · rw [if_neg same, update_of_ne same]
      exact (BitVec.sub_zero _).symm
  have left : BitVec.ofNat 32 ((m.drop d index).memBins i).length =
      BitVec.ofNat 32 (m.memBins i).length - (if i = j then 1 else 0) := by
    show BitVec.ofNat 32 ((m.memBins i).erase d).length = _
    by_cases same : i = j
    · obtain ⟨k, len⟩ := Nat.exists_eq_add_one.2 (length_pos_of_mem h)
      rw [if_pos same, same, length_erase_of_mem h, len, Nat.add_sub_cancel, BitVec.ofNat_add]
      grind
    · have out : d ∉ m.memBins i := fun h' => same (T.once i j d h' h)
      rw [if_neg same, erase_of_not_mem out]
      exact (BitVec.sub_zero _).symm
  rw [drift, drift, count, left]
  grind

lemma drift_drop_own (T : m.Tidy) (h : d ∈ m.memBins index) : (m.drop d index).drift i = m.drift i := by
  rw [drift_drop T h]
  grind

lemma length_drop : ((m.drop d index).memBins i).length ≤ (m.memBins i).length :=
  (erase_sublist).length_le

lemma length_push : ((m.push d index).memBins i).length ≤ (m.memBins i).length + 1 := by
  show (update m.memBins index (d :: m.memBins index) i).length ≤ _
  by_cases same : i = index
  · rw [same, update_self, length_cons]
  · rw [update_of_ne same]
    exact Nat.le_succ _

end KuplMemory

/-! ### The counters of a pool -/

namespace Pool

def chunksOf (p : Pool) (e : Eid) : List Nat := p.chunks.filter fun c => (p.desc c).eid = e

/-- The counters of every executor say what they are to say. -/
structure Counts (p : Pool) : Prop where
  bins : ∀ e, (p.mem e).Counted
  chunks : ∀ e, (p.mem e).allocChunks.toNat = (p.chunksOf e).length

/-- No counter of the executor is at its last value. -/
structure Roomy (p : Pool) (e : Eid) : Prop where
  bins : ∀ i, ((p.mem e).memBins i).length + 1 < 2 ^ 32
  chunks : (p.chunksOf e).length + 1 < 2 ^ 32

lemma mem_drop : ((p.listDel e d).decCount e index).mem = update p.mem e ((p.mem e).drop d index) := by
  unfold decCount listDel setMem
  dsimp only
  rw [update_self, update_idem]
  rfl

lemma mem_insert : (p.insertIntoFreelist e d).mem = update p.mem e
    ((p.mem e).push d (kuplGetBinIndex (p.desc d).totalSize.toNat memoryBinSize)) := rfl

lemma eid_insert : ((p.insertIntoFreelist e d).desc x).eid = (p.desc x).eid := eid_setIndex

lemma chunksOf_congr (chunks : q.chunks = p.chunks)
    (eid : ∀ c ∈ p.chunks, (q.desc c).eid = (p.desc c).eid) (e : Eid) : q.chunksOf e = p.chunksOf e := by
  rw [chunksOf, chunksOf, chunks]
  apply filter_congr
  intro c hc
  rw [eid c hc]

lemma counts_iff (C : p.Counts) (chunks : ∀ e, q.chunksOf e = p.chunksOf e) (mem : q.mem = update p.mem e m)
    (alloc : m.allocChunks = (p.mem e).allocChunks) : q.Counts ↔ m.Counted := by
  constructor
  · intro D
    have := D.bins e
    rwa [mem, update_self] at this
  · intro counted
    refine ⟨fun e' => ?_, fun e' => ?_⟩
    · rw [mem]
      by_cases same : e' = e
      · rw [same, update_self]
        exact counted
      · rw [update_of_ne same]
        exact C.bins e'
    · rw [mem, chunks e', ← C.chunks e']
      by_cases same : e' = e
      · rw [same, update_self, alloc]
      · rw [update_of_ne same]

end Pool

/-! ### A free that coalesces -/

namespace Pool

/-- The bin that a buffer remembers. -/
def indexOf (p : Pool) (d : Nat) : Nat := (p.desc d).memBinIndex.toNat

/-- The free buffer before a buffer, where the tag says that there is one. -/
def prevOf (p : Pool) (d : Nat) : Nat := d - (p.desc d).prevFree.toNat

/-- What is behind a buffer. -/
def nextOf (p : Pool) (d : Nat) : Nat := d + (p.desc d).totalSize.natAbs

/-- So many buffers are counted in the bin that a freed buffer is merged. -/
def Coalesces (p : Pool) (e : Eid) (d : Nat) : Prop :=
  memBinsThreshold ≤ (p.mem e).memBinsCount (p.indexOf d)

/-- The free neighbours of a buffer are in the list of the bin that it remembers. -/
def Near (p : Pool) (e : Eid) (d : Nat) : Prop :=
  ((p.desc d).prevFree ≠ 0 → p.prevOf d ∈ (p.mem e).memBins (p.indexOf d)) ∧
  (0 < (p.desc (p.nextOf d)).totalSize → p.nextOf d ∈ (p.mem e).memBins (p.indexOf d))

def mergedSize (p : Pool) (d : Nat) : Int :=
  (if (p.desc d).prevFree ≠ 0 then (p.desc (p.prevOf d)).totalSize else 0) + (p.desc d).totalSize.natAbs +
    if 0 < (p.desc (p.nextOf d)).totalSize then (p.desc (p.nextOf d)).totalSize else 0

/-- A buffer makes its chunk whole, and there is another chunk (C++ `MEM_IS_WHOLE_CHUNK`). -/
def Completes (p : Pool) (e : Eid) (d : Nat) : Prop :=
  p.mergedSize d = ((memChunkGrowSize - descSize : Nat) : Int) ∧ 2 ≤ (p.mem e).allocChunks

/-- The lists and counts of the executor once the neighbours are merged. -/
def mergedMem (p : Pool) (e : Eid) (d : Nat) : KuplMemory :=
  let m := p.mem e
  let m := if (p.desc d).prevFree ≠ 0 then m.drop (p.prevOf d) (p.indexOf d) else m
  if 0 < (p.desc (p.nextOf d)).totalSize then m.drop (p.nextOf d) (p.indexOf d) else m

/-- A freed buffer takes in its free neighbours: the middle part of `freeOwn`. -/
def coalesce (p : Pool) (e : Eid) (d : Nat) : Pool × Nat :=
  let p := p.setTotal d (-(p.desc d).totalSize)
  let index := (p.desc d).memBinIndex.toNat
  let (p, d) := p.mergePrev e d index
  ((p.mergeNext e d index).tellNext d, d)

lemma freeOwn_eq : p.freeOwn e d =
    if (p.mem e).memBinsCount (p.indexOf d) < memBinsThreshold then
      (p.setTotal d (-(p.desc d).totalSize)).insertIntoFreelist e d
    else
      let (q, a) := p.coalesce e d
      if (q.desc a).totalSize = ((memChunkGrowSize - descSize : Nat) : Int) ∧
        2 ≤ (q.mem e).allocChunks then q.unmap a
      else q.insertIntoFreelist e a := by
  have index : ((p.setTotal d (-(p.desc d).totalSize)).desc d).memBinIndex.toNat = p.indexOf d := by
    rw [index_setTotal]
    rfl
  rw [← index]
  rfl

end Pool

namespace Heap

lemma mergePrev_spec (K : Heap p B (some d)) (mem : d ∈ B) (pos : 0 < (p.desc d).totalSize) (e : Eid) (index : Nat) :
    ∃ q a, p.mergePrev e d index = (q, a) ∧ q.mem = update p.mem e
        (if (p.desc d).prevFree ≠ 0 then (p.mem e).drop (p.prevOf d) index else p.mem e) ∧
      q.chunks = p.chunks ∧ (∀ x, (q.desc x).eid = (p.desc x).eid) ∧
      (∀ x, d < x → (q.desc x).totalSize = (p.desc x).totalSize) ∧
      (q.desc a).totalSize =
        (if (p.desc d).prevFree ≠ 0 then (p.desc (p.prevOf d)).totalSize else 0) + (p.desc d).totalSize ∧
      0 < (q.desc a).totalSize ∧ a + (q.desc a).totalSize.toNat = d + (p.desc d).totalSize.toNat := by
  unfold Pool.mergePrev
  by_cases ne : (p.desc d).prevFree ≠ 0
  · obtain ⟨a, -, ha, stop, posa, tag, is⟩ := K.ok.before mem rfl ne
    have isA : p.prevOf d = a := is.symm
    have posa : 0 < (p.desc a).totalSize := posa
    have stop : a + (p.desc a).totalSize.toNat = d := by
      rw [Pool.stop_eq posa]
      exact stop
    obtain ⟨g, isG⟩ : ∃ g, g = p.setTotal a ((p.desc a).totalSize + (p.desc d).totalSize) := ⟨_, rfl⟩
    have total : (g.desc a).totalSize = (p.desc a).totalSize + (p.desc d).totalSize := by
      rw [isG, Pool.setTotal, Pool.setDesc_self]
    have memG : g.mem = p.mem := by
      rw [isG]
      rfl
    rw [if_pos ne, if_pos ne, if_pos ne, isA]
    refine ⟨(g.listDel e a).decCount e index, a, ?_, ?_, ?_, fun x => ?_, fun x lt => ?_, total, ?_, ?_⟩
    · rw [isG, ← isA]
      rfl
    · rw [Pool.mem_drop, memG]
    · rw [isG]
      rfl
    · show (g.desc x).eid = _
      rw [isG, Pool.eid_setTotal]
    · have other : x ≠ a := by omega
      show (g.desc x).totalSize = _
      rw [isG, Pool.setTotal, Pool.setDesc_of_ne other]
    · show 0 < (g.desc a).totalSize
      omega
    · show a + (g.desc a).totalSize.toNat = _
      omega
  · rw [if_neg ne, if_neg ne, if_neg ne]
    refine ⟨p, d, rfl, (update_eq_self _ _).symm, rfl, fun _ => rfl, fun _ _ => rfl, ?_, pos, rfl⟩
    rw [Int.zero_add]

end Heap

lemma Pool.mergeNext_spec (e : Eid) (index : Nat) {n : Nat} (isN : d + (p.desc d).totalSize.toNat = n) :
    (p.mergeNext e d index).mem = update p.mem e
        (if 0 < (p.desc n).totalSize then (p.mem e).drop n index else p.mem e) ∧
      (p.mergeNext e d index).chunks = p.chunks ∧
      (∀ x, ((p.mergeNext e d index).desc x).eid = (p.desc x).eid) ∧
      ((p.mergeNext e d index).desc d).totalSize =
        (p.desc d).totalSize + if 0 < (p.desc n).totalSize then (p.desc n).totalSize else 0 := by
  unfold Pool.mergeNext
  rw [isN]
  by_cases free : 0 < (p.desc n).totalSize
  · rw [if_pos free, if_pos free, if_pos free]
    obtain ⟨g, isG⟩ : ∃ g, g = p.setTotal d ((p.desc d).totalSize + (p.desc n).totalSize) := ⟨_, rfl⟩
    have memG : g.mem = p.mem := by
      rw [isG]
      rfl
    rw [← isG]
    refine ⟨?_, ?_, fun x => ?_, ?_⟩
    · rw [Pool.mem_drop, memG]
    · show g.chunks = p.chunks
      rw [isG]
      rfl
    · show (g.desc x).eid = _
      rw [isG, Pool.eid_setTotal]
    · show (g.desc d).totalSize = _
      rw [isG, Pool.setTotal, Pool.setDesc_self]
  · rw [if_neg free, if_neg free, if_neg free, Int.add_zero]
    exact ⟨(update_eq_self _ _).symm, rfl, fun _ => rfl, rfl⟩

namespace Heap

lemma coalesce_spec (K : Heap p B none) (mem : d ∈ B) (used : (p.desc d).totalSize < 0) (own : (p.desc d).eid = e) :
    ∃ (q : Pool) (a : Nat), p.coalesce e d = (q, a) ∧ q.mem = update p.mem e (p.mergedMem e d) ∧
      q.chunks = p.chunks ∧ (∀ x, (q.desc x).eid = (p.desc x).eid) ∧ (q.desc a).eid = e ∧
      (q.desc a).totalSize = p.mergedSize d ∧ (q.mem e).allocChunks = (p.mem e).allocChunks ∧
      (p.Completes e d → a ∈ p.chunks) := by
  obtain ⟨r, isR⟩ : ∃ r, r = p.setTotal d (-(p.desc d).totalSize) := ⟨_, rfl⟩
  have K' : Heap r B (some d) := isR ▸ K.release mem used
  have total : (r.desc d).totalSize = (p.desc d).totalSize.natAbs := by
    rw [isR, Pool.setTotal, Pool.setDesc_self]
    show -(p.desc d).totalSize = _
    omega
  have pos : 0 < (r.desc d).totalSize := by omega
  have index : (r.desc d).memBinIndex.toNat = p.indexOf d := by
    rw [isR, Pool.index_setTotal]
    rfl
  have memR : r.mem = p.mem := by
    rw [isR]
    rfl
  have chunksR : r.chunks = p.chunks := by
    rw [isR]
    rfl
  have eidR (x) : (r.desc x).eid = (p.desc x).eid := by
    rw [isR, Pool.eid_setTotal]
  have prevR : (r.desc d).prevFree = (p.desc d).prevFree := by
    rw [isR]
    exact Pool.setDesc_keeps Desc.prevFree rfl
  have other {x : Nat} (ne : x ≠ d) : (r.desc x).totalSize = (p.desc x).totalSize := by
    rw [isR, Pool.setTotal, Pool.setDesc_of_ne ne]
  have prevOf : r.prevOf d = p.prevOf d := by
    rw [Pool.prevOf, prevR]
    rfl
  obtain ⟨q₁, a, eq₁, mem₁, chunks₁, eid₁, right₁, total₁, pos₁, stop₁⟩ :=
    K'.mergePrev_spec mem pos e (p.indexOf d)
  obtain ⟨C, P⟩ := K'.mergePrev (p.indexOf d) mem pos
  rw [eidR, own, eq₁] at P
  have ownA : (q₁.desc a).eid = e := P.own.trans ((eidR d).trans own)
  have isN : a + (q₁.desc a).totalSize.toNat = p.nextOf d := by
    rw [stop₁, total, Int.toNat_natCast]
    rfl
  have right : (q₁.desc (p.nextOf d)).totalSize = (p.desc (p.nextOf d)).totalSize := by
    have lt : d < p.nextOf d := by
      rw [Pool.nextOf]
      omega
    rw [right₁ _ lt, other (Nat.ne_of_gt lt)]
  obtain ⟨mem₂, chunks₂, eid₂, total₂⟩ := Pool.mergeNext_spec e (p.indexOf d) isN
  obtain ⟨D, N⟩ := P.heap.mergeNext (p.indexOf d) P.mem P.pos
  rw [ownA] at N
  obtain ⟨T, -⟩ := N.heap.tellNext N.mem N.pos
  obtain ⟨q, isQ⟩ : ∃ q, q = (q₁.mergeNext e a (p.indexOf d)).tellNext a := ⟨_, rfl⟩
  have memQ : q.mem = update p.mem e (p.mergedMem e d) := by
    have same : q.mem = (q₁.mergeNext e a (p.indexOf d)).mem := by
      rw [isQ]
      rfl
    rw [same, mem₂, mem₁, right, memR, prevR, prevOf, update_self, update_idem]
    rfl
  have chunksQ : q.chunks = p.chunks := by
    have same : q.chunks = (q₁.mergeNext e a (p.indexOf d)).chunks := by
      rw [isQ]
      rfl
    rw [same, chunks₂, chunks₁, chunksR]
  have eidQ (x) : (q.desc x).eid = (p.desc x).eid := by
    rw [isQ, Pool.tellNext, Pool.eid_setPrev, eid₂, eid₁, eidR]
  have totalQ : (q.desc a).totalSize = p.mergedSize d := by
    have before : (if (r.desc d).prevFree ≠ 0 then (r.desc (r.prevOf d)).totalSize else 0) =
        if (p.desc d).prevFree ≠ 0 then (p.desc (p.prevOf d)).totalSize else 0 := by
      rw [prevR, prevOf]
      split
      · have ne' : r.arena.prevFree d ≠ 0 := by
          show (r.desc d).prevFree ≠ 0
          rwa [prevR]
        obtain ⟨b, -, hb, stop, -, -, is⟩ := K'.ok.before mem rfl ne'
        have lt := K'.ok.lt_stop hb
        have isB : p.prevOf d = b := prevOf ▸ is.symm
        rw [isB]
        exact other (by omega)
      · rfl
    rw [isQ, Pool.tellNext, Pool.total_setPrev, total₂, total₁, right, before, total]
    rfl
  have alloc : (q.mem e).allocChunks = (p.mem e).allocChunks := by
    rw [memQ, update_self]
    unfold Pool.mergedMem
    split <;> split <;> rfl
  have ownQ : (q.desc a).eid = e := by
    rw [eidQ, ← eidR, ← eid₁, ownA]
  refine ⟨q, a, ?_, memQ, chunksQ, eidQ, ownQ, totalQ, alloc, fun whole => ?_⟩
  · unfold Pool.coalesce
    dsimp only
    rw [← isR, index, eq₁]
    rw [← isQ]
  · rw [← chunksQ, isQ]
    rw [← isQ] at T ⊢
    exact T.heap.ok.whole_base T.mem (totalQ.trans whole.1)

lemma freeOwn_spec (K : Heap p B none) (mem : d ∈ B) (used : (p.desc d).totalSize < 0) (own : (p.desc d).eid = e) :
    (¬ p.Coalesces e d ∧ p.freeOwn e d = (p.setTotal d (-(p.desc d).totalSize)).insertIntoFreelist e d) ∨
    (p.Coalesces e d ∧ ∃ (q : Pool) (a : Nat), q.mem = update p.mem e (p.mergedMem e d) ∧ q.chunks = p.chunks ∧
      (∀ x, (q.desc x).eid = (p.desc x).eid) ∧ (q.desc a).eid = e ∧
      (q.desc a).totalSize = p.mergedSize d ∧
      (p.Completes e d ∧ a ∈ p.chunks ∧ p.freeOwn e d = q.unmap a ∨
        ¬ p.Completes e d ∧ p.freeOwn e d = q.insertIntoFreelist e a)) := by
  rw [Pool.freeOwn_eq]
  by_cases few : (p.mem e).memBinsCount (p.indexOf d) < memBinsThreshold
  · rw [if_pos few]
    exact .inl ⟨BitVec.not_le.2 few, rfl⟩
  · rw [if_neg few]
    refine .inr ⟨BitVec.not_lt.1 few, ?_⟩
    obtain ⟨q, a, eq, memQ, chunksQ, eidQ, ownQ, totalQ, alloc, base⟩ := K.coalesce_spec mem used own
    rw [eq]
    dsimp only
    rw [totalQ, alloc]
    refine ⟨q, a, memQ, chunksQ, eidQ, ownQ, totalQ, ?_⟩
    by_cases whole : p.Completes e d
    · exact .inl ⟨whole, base whole, if_pos whole⟩
    · exact .inr ⟨whole, if_neg whole⟩

lemma prev_listed (K : Heap p B none) (mem : d ∈ B) (used : (p.desc d).totalSize < 0) (own : (p.desc d).eid = e)
    (ne : (p.desc d).prevFree ≠ 0) : p.prevOf d < d ∧ ∃ j, p.prevOf d ∈ (p.mem e).memBins j := by
  have K' := K.release mem used
  obtain ⟨r, isR⟩ : ∃ r, r = p.setTotal d (-(p.desc d).totalSize) := ⟨_, rfl⟩
  rw [← isR] at K'
  have prevR : r.arena.prevFree d = (p.desc d).prevFree := by
    rw [isR]
    exact Pool.setDesc_keeps Desc.prevFree rfl
  obtain ⟨a, ⟨e', j, listed⟩, ha, stop, -, -, is⟩ := K'.ok.before mem rfl (by rwa [prevR])
  have isA : p.prevOf d = a := by
    rw [is, prevR]
    rfl
  have lt := K'.ok.lt_stop ha
  have ownA : (r.desc a).eid = e := by
    have := K'.next_own ha (stop ▸ mem)
    rw [stop] at this
    rw [← this, isR, Pool.eid_setTotal, own]
  have same : e' = e := (K'.lists.binned e' j a listed).symm.trans ownA
  refine ⟨by omega, j, ?_⟩
  rw [isA, ← same]
  rw [isR] at listed
  exact listed

lemma next_listed (K : Heap p B none) (mem : d ∈ B) (own : (p.desc d).eid = e)
    (free : 0 < (p.desc (p.nextOf d)).totalSize) : ∃ j, p.nextOf d ∈ (p.mem e).memBins j := by
  have isStop : p.nextOf d = p.arena.stop d := rfl
  rw [isStop] at free ⊢
  have next : p.arena.stop d ∈ B := by
    obtain ⟨c, hc, -, -, next | tail⟩ := K.ok.home d mem
    · exact next
    · have := K.ok.dummy c hc
      rw [← tail, ← Pool.total_eq] at this
      omega
  obtain ⟨e', j, listed⟩ := (K.ok.listed _).2 ⟨next, free, nofun⟩
  have same : e' = e :=
    (K.lists.binned e' j _ listed).symm.trans ((K.next_own mem next).trans own)
  exact ⟨j, same ▸ listed⟩

end Heap

namespace KuplMemory

lemma drift_one {a : Nat} (T : m.Tidy) (none : ∀ i, m.drift i = 0) (h : a ∈ m.memBins j) :
    (∀ i, (m.drop a index).drift i = 0) ↔ a ∈ m.memBins index := by
  refine ⟨fun all => ?_, fun own i => (drift_drop_own T own).trans (none i)⟩
  by_contra out
  have other : index ≠ j := fun same => out (same ▸ h)
  have := all index
  rw [drift_drop T h, none, if_neg other, if_pos rfl] at this
  exact absurd this (by decide)

lemma drift_two {a b k : Nat} (T : m.Tidy) (none : ∀ i, m.drift i = 0) (h : a ∈ m.memBins j)
    (h' : b ∈ m.memBins k)
    (ne : b ≠ a) : (∀ i, ((m.drop a index).drop b index).drift i = 0) ↔ a ∈ m.memBins index ∧
      b ∈ m.memBins index := by
  have left {i : Nat} (mem : b ∈ m.memBins i) : b ∈ (m.drop a index).memBins i :=
    (mem_erase_of_ne ne).2 mem
  refine ⟨fun all => ?_, fun own i => ?_⟩
  · have := all index
    rw [drift_drop T.drop (left h'), drift_drop T h, none, if_pos rfl] at this
    by_cases first : index = j
    · by_cases second : index = k
      · exact ⟨first ▸ h, second ▸ h'⟩
      · rw [if_pos first, if_neg second] at this
        exact absurd this (by decide)
    · by_cases second : index = k
      · rw [if_neg first, if_pos second] at this
        exact absurd this (by decide)
      · rw [if_neg first, if_neg second] at this
        exact absurd this (by decide)
  · rw [drift_drop_own T.drop (left own.2), drift_drop_own T own.1, none]

end KuplMemory

namespace Heap

lemma mergedMem_drift (K : Heap p B none) (mem : d ∈ B) (used : (p.desc d).totalSize < 0) (own : (p.desc d).eid = e)
    (none : ∀ i, (p.mem e).drift i = 0) : (∀ i, (p.mergedMem e d).drift i = 0) ↔ p.Near e d := by
  have T : (p.mem e).Tidy := ⟨K.lists.once e, K.lists.nodup e⟩
  have behind : d < p.nextOf d := by
    rw [Pool.nextOf]
    omega
  unfold Pool.mergedMem Pool.Near
  dsimp only
  by_cases prev : (p.desc d).prevFree ≠ 0
  · obtain ⟨front, j, hj⟩ := K.prev_listed mem used own prev
    rw [if_pos prev]
    by_cases next : 0 < (p.desc (p.nextOf d)).totalSize
    · obtain ⟨k, hk⟩ := K.next_listed mem own next
      rw [if_pos next, KuplMemory.drift_two T none hj hk (by omega)]
      exact ⟨fun h => ⟨fun _ => h.1, fun _ => h.2⟩, fun h => ⟨h.1 prev, h.2 next⟩⟩
    · rw [if_neg next, KuplMemory.drift_one T none hj]
      exact ⟨fun h => ⟨fun _ => h, fun free => absurd free next⟩, fun h => h.1 prev⟩
  · rw [if_neg prev]
    by_cases next : 0 < (p.desc (p.nextOf d)).totalSize
    · obtain ⟨k, hk⟩ := K.next_listed mem own next
      rw [if_pos next, KuplMemory.drift_one T none hk]
      exact ⟨fun h => ⟨fun ne => absurd ne prev, fun _ => h⟩, fun h => h.2 next⟩
    · rw [if_neg next]
      exact ⟨fun _ => ⟨fun ne => absurd ne prev, fun free => absurd free next⟩, fun _ => none⟩

end Heap

namespace Pool

lemma length_mergedMem (i : Nat) : ((p.mergedMem e d).memBins i).length ≤ ((p.mem e).memBins i).length := by
  unfold mergedMem
  split
  · split
    · exact KuplMemory.length_drop.trans KuplMemory.length_drop
    · exact KuplMemory.length_drop
  · split
    · exact KuplMemory.length_drop
    · exact Nat.le_refl _

lemma allocChunks_mergedMem : (p.mergedMem e d).allocChunks = (p.mem e).allocChunks := by
  unfold mergedMem
  split <;> split <;> rfl

lemma Counts.freeOwn_iff (C : p.Counts) (R : p.Roomy e) (K : Heap p B none) (mem : d ∈ B)
    (used : (p.desc d).totalSize < 0) (own : (p.desc d).eid = e) :
    (p.freeOwn e d).Counts ↔ ¬ p.Coalesces e d ∨ p.Near e d ∧ ¬ p.Completes e d := by
  have counted := KuplMemory.counted_iff.1 (C.bins e)
  obtain ⟨few, free⟩ | ⟨many, q, a, memQ, chunksQ, eidQ, ownQ, -, spec⟩ := K.freeOwn_spec mem used own
  · refine iff_of_true ?_ (.inl few)
    rw [free]
    apply (counts_iff C ?_ (mem_insert (p := p.setTotal d (-(p.desc d).totalSize))) rfl).2
    · rw [KuplMemory.counted_iff]
      refine ⟨fun i => KuplMemory.drift_push.trans (counted.1 i), fun i => ?_⟩
      exact Nat.lt_of_le_of_lt KuplMemory.length_push (R.bins i)
    · refine chunksOf_congr (p := p) rfl ?_
      intro c _
      rw [eid_insert, eid_setTotal]
  · obtain ⟨whole, at_a, free⟩ | ⟨part, free⟩ := spec
    · refine iff_of_false (fun D => ?_) ?_
      · rw [free] at D
        -- one chunk less is mapped
        have after := D.chunks e
        have alloc : ((q.unmap a).mem e).allocChunks = (p.mem e).allocChunks := by
          show (q.mem e).allocChunks = _
          rw [memQ, update_self, allocChunks_mergedMem]
        have isE : (p.desc a).eid = e := (eidQ a).symm.trans ownQ
        have left : ((q.unmap a).chunksOf e).length = (p.chunksOf e).length - 1 := by
          have same : (q.unmap a).chunksOf e = (p.chunks.erase a).filter fun c => (p.desc c).eid = e := by
            show (q.chunks.erase a).filter _ = _
            rw [chunksQ]
            apply filter_congr
            intro c _
            show decide ((q.desc c).eid = e) = _
            rw [eidQ]
          have parts := ((perm_cons_erase at_a).filter fun c => (p.desc c).eid = e).length_eq
          rw [filter_cons_of_pos (by simpa using isE), length_cons] at parts
          rw [same, chunksOf, parts, Nat.add_sub_cancel]
        have pos : 0 < (p.chunksOf e).length :=
          length_pos_of_mem (mem_filter.2 ⟨at_a, by simpa using isE⟩)
        rw [alloc, C.chunks e, left] at after
        omega
      · rintro (no | ⟨-, no⟩)
        · exact no many
        · exact no whole
    · rw [free]
      have chunks : ∀ e', (q.insertIntoFreelist e a).chunksOf e' = p.chunksOf e' := by
        apply chunksOf_congr (q := q.insertIntoFreelist e a) chunksQ
        intro c _
        rw [eid_insert, eidQ]
      have mem' : (q.insertIntoFreelist e a).mem = update p.mem e
          ((p.mergedMem e d).push a (kuplGetBinIndex (q.desc a).totalSize.toNat memoryBinSize)) := by
        rw [mem_insert, memQ, update_self, update_idem]
      rw [counts_iff C chunks mem' allocChunks_mergedMem, KuplMemory.counted_iff,
        ← K.mergedMem_drift mem used own counted.1]
      constructor
      · rintro ⟨none, -⟩
        exact .inr ⟨fun i => KuplMemory.drift_push.symm.trans (none i), part⟩
      · rintro (no | ⟨none, -⟩)
        · exact absurd many no
        · refine ⟨fun i => KuplMemory.drift_push.trans (none i), fun i => ?_⟩
          exact Nat.lt_of_le_of_lt
            (KuplMemory.length_push.trans (Nat.succ_le_succ (length_mergedMem i))) (R.bins i)

/-! ### The search and a new chunk -/

lemma Counts.same (C : p.Counts) (bins : ∀ e, (q.mem e).memBins = (p.mem e).memBins)
    (counts : ∀ e, (q.mem e).memBinsCount = (p.mem e).memBinsCount)
    (alloc : ∀ e, (q.mem e).allocChunks = (p.mem e).allocChunks)
    (chunks : ∀ e, q.chunksOf e = p.chunksOf e) : q.Counts := by
  refine ⟨fun e i => ?_, fun e => ?_⟩
  · rw [counts, bins]
    exact C.bins e i
  · rw [alloc, chunks]
    exact C.chunks e

lemma Counts.splitBuffer {actual : Nat} (C : p.Counts) (R : p.Roomy e) (K : Heap p B none)
    (listed : d ∈ (p.mem e).memBins index) (least : descSize ≤ actual)
    (rest : (minBufferSize : Int) ≤ (p.desc d).totalSize - actual) : (p.splitBuffer e d actual index).1.Counts := by
  have mem : d ∈ B := ((K.ok.listed d).1 ⟨e, index, listed⟩).1
  have small : (layout.least : Int) ≤ (minBufferSize : Int) := by decide
  have positive : (0 : Int) < (minBufferSize : Int) := by decide
  have pos : 0 < (p.desc d).totalSize := by omega
  obtain ⟨u, hu⟩ : ∃ u, p.arena.stop d - actual = u := ⟨_, rfl⟩
  obtain ⟨new, up, -⟩ := (K.ok.unlink d).split_mem mem least
    (show (layout.least : Int) ≤ p.arena.total d - actual by rw [total_eq] at rest; omega)
  have new : u ∉ B := hu ▸ new
  have up : d < u := hu ▸ up
  have user : d + ((p.desc d).totalSize - actual).toNat = u := by
    rw [← hu, ← stop_eq pos]
    omega
  have counted := KuplMemory.counted_iff.1 (C.bins e)
  have T : (p.mem e).Tidy := ⟨K.lists.once e, K.lists.nodup e⟩
  obtain ⟨g, isG⟩ : ∃ g, g = ((p.splitTags d actual).listDel e d).decCount e index := ⟨_, rfl⟩
  have memG : g.mem = update p.mem e ((p.mem e).drop d index) := by
    rw [isG, mem_drop]
    rfl
  have memQ : (g.insertIntoFreelist e d).mem = update p.mem e (((p.mem e).drop d index).push d
      (kuplGetBinIndex (g.desc d).totalSize.toNat memoryBinSize)) := by
    rw [mem_insert, memG, update_self, update_idem]
  have eid : ∀ c ∈ p.chunks, ((g.insertIntoFreelist e d).desc c).eid = (p.desc c).eid := by
    intro c hc
    have isU : c ≠ u := fun same => new (same ▸ K.ok.base c hc)
    have descG : g.desc = (p.splitTags d actual).desc := by
      rw [isG]
      rfl
    rw [eid_insert, descG]
    by_cases isD : c = d
    · rw [isD]
      exact (Desc.tag_eq (splitTags_self user (Nat.ne_of_lt up))).1
    · exact (Desc.tag_inj (splitTags_other user isD isU)).1
  have chunks : ∀ e', (g.insertIntoFreelist e d).chunksOf e' = p.chunksOf e' := by
    apply chunksOf_congr (q := g.insertIntoFreelist e d) (p := p) _ eid
    rw [isG]
    rfl
  have D : (g.insertIntoFreelist e d).Counts := by
    rw [counts_iff C chunks memQ rfl, KuplMemory.counted_iff]
    refine ⟨fun i => ?_, fun i => ?_⟩
    · rw [KuplMemory.drift_push, KuplMemory.drift_drop_own T listed, counted.1]
    · exact Nat.lt_of_le_of_lt
        (KuplMemory.length_push.trans (Nat.succ_le_succ KuplMemory.length_drop)) (R.bins i)
  have result : (p.splitBuffer e d actual index).1 = (g.insertIntoFreelist e d).setRef u 1 := by
    rw [isG, ← user]
    rfl
  rw [result]
  refine D.same (fun _ => rfl) (fun _ => rfl) (fun _ => rfl) ?_
  exact chunksOf_congr (p := g.insertIntoFreelist e d) rfl fun c _ => eid_setRef

lemma Counts.takeBuffer (C : p.Counts) (K : Heap p B none) (listed : d ∈ (p.mem e).memBins index) :
    (p.takeBuffer e d index).1.Counts := by
  have counted := KuplMemory.counted_iff.1 (C.bins e)
  have T : (p.mem e).Tidy := ⟨K.lists.once e, K.lists.nodup e⟩
  have memQ : (p.takeBuffer e d index).1.mem = update p.mem e ((p.mem e).drop d index) :=
    (mem_drop (p := p)).symm ▸ rfl
  have eid : ∀ c ∈ p.chunks, ((p.takeBuffer e d index).1.desc c).eid = (p.desc c).eid := by
    intro c _
    unfold Pool.takeBuffer
    rw [eid_setRef, eid_setPrev, eid_setTotal, eid_setPrev]
    rfl
  have chunks : ∀ e', (p.takeBuffer e d index).1.chunksOf e' = p.chunksOf e' :=
    chunksOf_congr (q := (p.takeBuffer e d index).1) (p := p) rfl eid
  rw [counts_iff C chunks memQ rfl, KuplMemory.counted_iff]
  refine ⟨fun i => ?_, fun i => ?_⟩
  · rw [KuplMemory.drift_drop_own T listed, counted.1]
  · exact Nat.lt_of_le_of_lt KuplMemory.length_drop (counted.2 i)

lemma Counts.travelList {actual : Nat} (C : p.Counts) (R : p.Roomy e) (K : Heap p B none)
    (least : descSize ≤ actual) {l : List Nat} (listed : ∀ d ∈ l, d ∈ (p.mem e).memBins index)
    {res : Pool × Nat} (h : p.travelList e actual index l = some res) : res.1.Counts := by
  induction l with
  | nil => cases h
  | cons d next ih =>
    rw [Pool.travelList] at h
    have here := listed d mem_cons_self
    split at h
    · split at h
      · rename_i rest
        cases h
        exact C.splitBuffer R K here least rest
      · cases h
        exact C.takeBuffer K here
    · exact ih (fun x hx => listed x (mem_cons_of_mem d hx)) h

lemma Counts.searchBins {actual : Nat} (C : p.Counts) (R : p.Roomy e) (K : Heap p B none) (least : descSize ≤ actual)
    {res : Pool × Nat} (h : p.searchBins e actual = some res) : res.1.Counts := by
  obtain ⟨index, -, found⟩ := exists_of_findSome?_eq_some h
  exact C.travelList R K least (fun _ hd => hd) found

lemma Counts.growChunk (C : p.Counts) (R : p.Roomy e) {base : Nat}
    (fresh : ∀ c ∈ p.chunks, c + memChunkGrowSize ≤ base ∨ base + memChunkGrowSize ≤ c) :
    (p.growChunk e base).Counts := by
  have inside := Heap.tail_lt
  obtain ⟨g, isG⟩ : ∃ g, g = (({ p with chunks := base :: p.chunks } : Pool).setMem e { p.mem e with
      allocChunks := (p.mem e).allocChunks + 1 }).chunkTags e base := ⟨_, rfl⟩
  have memG : g.mem = update p.mem e { p.mem e with
      allocChunks := (p.mem e).allocChunks + 1 } := by
    rw [isG, chunkTags_eq]
    rfl
  have eidG : ∀ c ∈ p.chunks, (g.desc c).eid = (p.desc c).eid := by
    intro c hc
    have apart := fresh c hc
    rw [isG, chunkTags_other (by omega) (by omega)]
    rfl
  have own : (g.desc base).eid = e := by
    rw [isG]
    exact chunkTags_self.1
  have chunksG (e' : Eid) : (g.insertIntoFreelist e base).chunksOf e' =
      if e' = e then base :: p.chunksOf e' else p.chunksOf e' := by
    have list : (g.insertIntoFreelist e base).chunks = base :: p.chunks := by
      show g.chunks = _
      rw [isG, chunkTags_eq]
      rfl
    have old : (p.chunks.filter fun c => ((g.insertIntoFreelist e base).desc c).eid = e') = p.chunksOf e' := by
      apply filter_congr
      intro c hc
      rw [eid_insert, eidG c hc]
    rw [chunksOf, list]
    by_cases same : e' = e
    · rw [filter_cons_of_pos (by rw [eid_insert, own, same]; exact decide_eq_true rfl), old, if_pos same]
    · rw [filter_cons_of_neg (by rw [eid_insert, own]; simpa using Ne.symm same), old, if_neg same]
  have memQ : (g.insertIntoFreelist e base).mem = update p.mem e
      ({ p.mem e with allocChunks := (p.mem e).allocChunks + 1 }.push base
        (kuplGetBinIndex (g.desc base).totalSize.toNat memoryBinSize)) := by
    rw [mem_insert, memG, update_self, update_idem]
  have counted := KuplMemory.counted_iff.1 (C.bins e)
  rw [show p.growChunk e base = g.insertIntoFreelist e base by rw [isG]; rfl]
  refine ⟨fun e' => ?_, fun e' => ?_⟩
  · rw [memQ]
    by_cases same : e' = e
    · rw [same, update_self, KuplMemory.counted_iff]
      refine ⟨fun i => KuplMemory.drift_push.trans (counted.1 i), fun i => ?_⟩
      exact Nat.lt_of_le_of_lt KuplMemory.length_push (R.bins i)
    · rw [update_of_ne same]
      exact C.bins e'
  · rw [memQ, chunksG]
    by_cases same : e' = e
    · have before := C.chunks e
      have room := R.chunks
      rw [same, update_self, if_pos rfl, length_cons]
      show ((p.mem e).allocChunks + 1).toNat = _
      rw [BitVec.toNat_add, before]
      exact Nat.mod_eq_of_lt room
    · rw [update_of_ne same, if_neg same]
      exact C.chunks e'

end Pool
/-! ### The steps and the runs -/

/-- A buffer that its own executor frees is not merged, or its free neighbours are in the bin that it
remembers and its chunk stays mapped. -/
def Pool.FreeKeeps (p : Pool) (e : Eid) (d : Nat) : Prop :=
  (p.desc d).eid = e → ¬ p.Coalesces e d ∨ p.Near e d ∧ ¬ p.Completes e d

instance : Decidable (p.Coalesces e d) := inferInstanceAs (Decidable (_ ≤ _))
instance : Decidable (p.Completes e d) := inferInstanceAs (Decidable (_ ∧ _))

/-- The counters of the executor that works on its lists are not at their last values. -/
def State.Room (s : State) : Label → Prop
  | .search e _ => s.pool.Roomy e
  | .free e _ => s.pool.Roomy e
  | _ => True

/-- A step that keeps the counters right. -/
def State.Tallies (s : State) : Label → Prop
  | .free e ptr => s.pool.FreeKeeps e (ptr - descSize)
  | _ => True

/-- The counters have room for a step, and the step keeps them right. -/
def State.Tallied (s : State) (a : Label) : Prop := s.Room a ∧ s.Tallies a

variable {r : BitVec 16}

lemma Pool.freeKeeps_setRef : (p.setRef x r).FreeKeeps e d ↔ p.FreeKeeps e d := by
  have prev (y) : ((p.setRef x r).desc y).prevFree = (p.desc y).prevFree :=
    setDesc_keeps Desc.prevFree rfl
  simp only [FreeKeeps, Coalesces, Near, Completes, mergedSize, prevOf, nextOf, indexOf, eid_setRef,
    index_setRef, total_setRef, prev]
  rfl

lemma Pool.chunksOf_setRef : (p.setRef x r).chunksOf e = p.chunksOf e :=
  chunksOf_congr (q := p.setRef x r) (p := p) rfl (fun _ _ => eid_setRef) e

lemma Pool.Counts.setRef (C : p.Counts) : (p.setRef x r).Counts :=
  C.same (fun _ => rfl) (fun _ => rfl) (fun _ => rfl) fun _ => chunksOf_setRef

lemma Pool.Counts.setSync (C : p.Counts) {l : List Nat} : (p.setMem e { p.mem e with memSyncList := l }).Counts := by
  have mem (e') : ∃ l', (p.setMem e { p.mem e with memSyncList := l }).mem e' =
      { p.mem e' with memSyncList := l' } := by
    by_cases same : e' = e
    · subst same
      exact ⟨l, Pool.mem_setMem_self⟩
    · exact ⟨_, Pool.mem_setMem_of_ne same⟩
  refine C.same (fun e' => ?_) (fun e' => ?_) (fun e' => ?_) fun _ => rfl
  all_goals
    obtain ⟨l', eq⟩ := mem e'
    rw [eq]

lemma Inv.counts_step {a : Label} (I : Inv s B) (C : s.pool.Counts) (room : s.Room a)
    (h : s.step a = some s') : s'.pool.Counts ↔ s.Tallies a := by
  cases a with
  | alloc e size huge =>
    refine iff_of_true ?_ trivial
    rw [State.step, State.alloc] at h
    split at h
    · cases h
      exact C.setSync
    · cases h
  | drain e =>
    refine iff_of_true ?_ trivial
    rw [State.step, State.drain] at h
    split at h
    · -- the last reference of a buffer on the sync list is gone, so that it is not freed
      rename_i ptr rest size huge at'
      have waiting : ptr ∈ s.waits (.taken e) := by
        show ptr ∈ (s.pc e).rest
        rw [at']
        exact mem_cons_self
      rw [(I.waits _ ptr waiting).free_again] at h
      cases h
      exact C.setRef
    · cases h
      exact C
    · cases h
  | search e mapped =>
    refine iff_of_true ?_ trivial
    rw [State.step, State.search] at h
    split at h
    · rename_i size actual at'
      have least : descSize ≤ actual := by
        have ok := I.pc e
        rw [at'] at ok
        exact Nat.le_of_add_right_le ok
      split at h
      · rename_i res found
        cases h
        exact C.searchBins room I.heap least found
      · split at h
        · cases h
          exact C
        · split at h
          · rename_i fresh
            cases h
            exact C.growChunk room fresh
          · cases h
    · cases h
  | free e ptr =>
    rw [State.step, State.free] at h
    split at h
    · rename_i can
      obtain ⟨b, hb, isB⟩ := mem_map.1 can.2
      have H : Held s.pool B 1 ptr := isB ▸ (I.live b hb).1
      obtain ⟨p, isP⟩ : ∃ p, p = s.pool.setRef (ptr - descSize) 0 := ⟨_, rfl⟩
      rw [H.free_last I.heap, ← isP] at h
      by_cases own : (s.pool.desc (ptr - descSize)).eid = e
      · rw [if_neg (not_not.2 own)] at h
        cases h
        have heap : Heap p B none := isP ▸ I.heap.setRef
        have C' : p.Counts := isP ▸ C.setRef
        have R' : p.Roomy e := by
          have chunks : p.chunksOf e = s.pool.chunksOf e := by
            rw [isP, Pool.chunksOf_setRef]
          refine ⟨?_, chunks ▸ room.chunks⟩
          rw [isP]
          exact room.bins
        have used : (p.desc (ptr - descSize)).totalSize < 0 := by
          rw [isP, Pool.total_setRef]
          exact H.used
        have own' : (p.desc (ptr - descSize)).eid = e := by
          rw [isP, Pool.eid_setRef, own]
        have keeps : s.Tallies (.free e ptr) ↔ p.FreeKeeps e (ptr - descSize) := by
          rw [isP, Pool.freeKeeps_setRef]
          rfl
        rw [keeps]
        show (p.freeOwn e (ptr - descSize)).Counts ↔ _
        rw [C'.freeOwn_iff R' heap H.mem used own']
        exact ⟨fun h _ => h, fun h => h own'⟩
      · rw [if_pos own] at h
        cases h
        refine iff_of_true ?_ fun same => absurd same own
        show p.Counts
        exact isP ▸ C.setRef
    · cases h
  | enqueue e =>
    refine iff_of_true ?_ trivial
    rw [State.step, State.enqueue] at h
    split at h
    · cases h
      exact C.setSync
    · cases h

lemma State.Init.counts (h : s.Init) : s.pool.Counts := by
  refine ⟨fun e i => ?_, fun e => ?_⟩
  · rw [h.mem]
    rfl
  · rw [h.mem, Pool.chunksOf, h.chunks]
    rfl

lemma counts_of_reach (h : machine.Reach State.Tallied s) : s.pool.Counts := by
  induction h with
  | init h => exact h.counts
  | step before tallied h ih =>
    obtain ⟨B, I, -⟩ := exists_inv before.reachable
    exact (I.counts_step ih tallied.1 h).2 tallied.2

/-- In every run whose frees take their neighbours from the bins that the freed buffers remember, and
unmap no chunk, each count is the length of its list and the chunks are counted; a free that does
otherwise leaves a counter wrong. -/
theorem counts_tallied (h : machine.Reach State.Tallied s) :
    s.pool.Counts ∧ ∀ a s', machine.step s a = some s' → s.Room a → (s'.pool.Counts ↔ s.Tallied a) := by
  obtain ⟨B, I, -⟩ := exists_inv h.reachable
  have C := counts_of_reach h
  refine ⟨C, fun a s' st room => ?_⟩
  rw [I.counts_step C room st]
  exact ⟨fun tallies => ⟨room, tallies⟩, fun tallied => tallied.2⟩

/-- A first chunk is mapped. -/
theorem counts_tallied_chunk : ∃ s : State, s.pool.Counts ∧ s.pool.chunks = [4096] ∧
    (s.pool.mem 0).memBins 13 = [4096] := by
  obtain ⟨s₂, two, empty, none, s₃, third, chunk, bin⟩ : ∃ s₂,
      ((machine.step State.start (.alloc 0 100 false)).bind fun s₁ => machine.step s₁ (.drain 0)) =
        some s₂ ∧ (∀ i, (s₂.pool.mem 0).memBins i = []) ∧ s₂.pool.chunksOf 0 = [] ∧
      ∃ s₃, machine.step s₂ (.search 0 (some 4096)) = some s₃ ∧ s₃.pool.chunks = [4096] ∧
        (s₃.pool.mem 0).memBins 13 = [4096] := ⟨_, rfl, fun _ => rfl, rfl, _, rfl, rfl, rfl⟩
  obtain ⟨s₁, first, second⟩ := Option.bind_eq_some_iff.1 two
  have room : s₂.Room (.search 0 (some 4096)) := by
    refine ⟨fun i => ?_, ?_⟩
    · rw [empty]
      decide
    · rw [none]
      decide
  have asks : State.start.Tallied (.alloc 0 100 false) := ⟨trivial, trivial⟩
  have drains : s₁.Tallied (.drain 0) := ⟨trivial, trivial⟩
  have reach₁ : machine.Reach State.Tallied s₁ := .step (.init State.start_init) asks first
  have reach₂ : machine.Reach State.Tallied s₂ := .step reach₁ drains second
  exact ⟨s₃, (counts_tallied (.step reach₂ ⟨room, trivial⟩ third)).1, chunk, bin⟩

/-- A small buffer that was in the bin of the small ones is freed while its neighbour is in the next bin:
that bin counts a buffer that has left, and the bin of the small ones one too few. -/
theorem counts_tallied_not : ∃ s : State, machine.Reachable s ∧ ¬ s.pool.Counts ∧
    ((s.pool.mem 0).memBins 0).length = 4 ∧ (s.pool.mem 0).memBinsCount 0 = 3 ∧
    ((s.pool.mem 0).memBins 1).length = 1 ∧ (s.pool.mem 0).memBinsCount 1 = 2 := by
  let small : List Label := [.alloc 0 100 false, .drain 0, .search 0 none]
  refine Machine.shown (P := fun s => ((s.pool.mem 0).memBins 0).length = 4 ∧ (s.pool.mem 0).memBinsCount 0 = 3 ∧
      ((s.pool.mem 0).memBins 1).length = 1 ∧ (s.pool.mem 0).memBinsCount 1 = 2)
    ([.alloc 0 600 false, .drain 0, .search 0 (some 4096), .search 0 none] ++ (List.replicate 8 small).flatten ++
      [.free 0 4197448, .free 0 4197144, .free 0 4196840, .free 0 4196536, .free 0 4197600] ++ small ++
      [.free 0 4197752, .free 0 4197600]) State.start_init (by decide +kernel) fun s _ is => ⟨fun C => ?_, is⟩
  obtain ⟨four, three, -⟩ := is
  have wrong := C.bins 0 0
  rw [four, three] at wrong
  exact absurd wrong (by decide)

end Kupl.Mpool
