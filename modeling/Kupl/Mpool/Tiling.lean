import Kupl.Mpool.Runs
import Mathlib.Data.List.Pairwise

/-!
# The heap of the normal allocator in every reachable state

Whatever the executors allocate and free, and in whatever order: the blocks of a chunk lie side by side up to
the dummy, the free lists hold the free ones, and the buffers of the callers are apart and large enough. A
freed buffer gets back to its owner exactly as long as no executor finds one on its sync list: the function
that frees a buffer for somebody else drops the last reference, and the owner, who runs the same function
again, finds a count below zero and goes away.
-/

namespace Kupl.Mpool
open Boundary

variable {s s' : State} {a : Label} {B C : Set Nat} {d : Nat}

/-- No buffer is freed a second time for the sync list. -/
def Spared (s : State) : Label → Prop
  | .drain e => (s.pc e).rest = []
  | _ => True

instance (s : State) (a : Label) : Decidable (Spared s a) := by
  cases a <;> unfold Spared <;> infer_instance

namespace Inv

lemma step (I : Inv s B) (spared : Spared s a) (h : s.step a = some s') : ∃ C, Steady s B s' C := by
  cases a with
  | alloc e size huge => exact ⟨B, I.alloc h⟩
  | drain e => exact ⟨B, I.drained spared h⟩
  | search e mapped => exact I.search h
  | free e ptr => exact I.free h
  | enqueue e => exact ⟨B, I.enqueue h⟩

lemma step_lost (I : Inv s B) (no : ¬ Spared s a) (h : s.step a = some s') : Inv s' B ∧ ∃ d, s'.Lost B d := by
  cases a with
  | alloc e size huge | search e mapped | free e ptr | enqueue e => exact absurd trivial no
  | drain e =>
    cases at' : (s.pc e).rest with
    | nil => exact absurd at' no
    | cons ptr rest =>
      obtain ⟨I', lost⟩ := I.again at' h
      have waiting : ptr ∈ s.waits (.taken e) := by
        show ptr ∈ (s.pc e).rest
        rw [at']
        exact List.mem_cons_self
      exact ⟨I', ptr - descSize, (lost _).2 (.inr (Nat.sub_add_cancel (I.waits _ ptr waiting).le))⟩

lemma init (h : s.Init) : Inv s ∅ := by
  have bins (e i) : (s.pool.mem e).memBins i = [] := by
    rw [h.mem]
    rfl
  have waits (π) : s.waits π = [] := by
    cases π with
    | handed e =>
      show (s.pc e).handed = []
      rw [h.pc]
      rfl
    | listed e =>
      show (s.pool.mem e).memSyncList = []
      rw [h.mem]
      rfl
    | taken e =>
      show (s.pc e).rest = []
      rw [h.pc]
      rfl
  have listed (d) : d ∉ s.pool.arena.listed := by
    rintro ⟨e, i, h⟩
    rw [bins] at h
    cases h
  have base (c) : c ∉ s.pool.chunks := by
    rw [h.chunks]
    nofun
  refine ⟨⟨⟨fun c hc => absurd hc (base c), nofun, nofun,
    nofun, fun d => ⟨fun h => absurd h (listed d), nofun⟩,
    nofun, fun c hc => absurd hc (base c), fun c hc => absurd hc (base c), fun c hc => absurd hc (base c)⟩,
    ⟨fun e i d hd => ?_, fun e i j d hd => ?_, fun e i => ?_, ?_⟩, fun c hc => absurd hc (base c), nofun⟩,
    fun b hb => ?_, ?_, fun π x hx => ?_, ⟨fun π => ?_, fun π π' x hx => ?_⟩, fun e => ?_, ?_⟩
  · exact absurd ⟨e, i, hd⟩ (listed d)
  · exact absurd ⟨e, i, hd⟩ (listed d)
  · rw [bins]
    exact List.nodup_nil
  · rw [h.chunks]
    exact List.nodup_nil
  · rw [h.live] at hb
    cases hb
  · rw [h.live]
    exact List.nodup_nil
  · rw [waits] at hx
    cases hx
  · rw [waits]
    exact List.nodup_nil
  · rw [waits] at hx
    cases hx
  · rw [h.pc]
    trivial
  · have page : hugePageSize.toNat = 2 ^ 21 := by decide
    have := h.align
    omega

end Inv

lemma exists_inv (h : machine.Reachable s) : ∃ B, Inv s B ∧
    ((∀ d, ¬ s.Lost B d) → machine.Reach Spared s) := by
  induction h with
  | init h => exact ⟨∅, .init h, fun _ => .init h⟩
  | @step s a s' _ _ h ih =>
    obtain ⟨B, I, before⟩ := ih
    by_cases spared : Spared s a
    · obtain ⟨C, S⟩ := I.step spared h
      refine ⟨C, S.inv, fun none => .step (before fun d => ?_) spared h⟩
      exact fun lost => none d ((S.lost d).2 lost)
    · obtain ⟨I', d, lost⟩ := I.step_lost spared h
      exact ⟨B, I', fun none => absurd lost (none d)⟩

lemma exists_kept (h : machine.Reach Spared s) : ∃ B, Inv s B ∧ ∀ d, ¬ s.Lost B d := by
  induction h with
  | init h => exact ⟨∅, .init h, fun d lost => lost.1⟩
  | step _ spared h ih =>
    obtain ⟨B, I, none⟩ := ih
    obtain ⟨C, S⟩ := I.step spared h
    exact ⟨C, S.inv, fun d lost => none d ((S.lost d).1 lost)⟩

/-- The heap is as it should be. -/
structure State.Sound (s : State) : Prop where
  tiles : ∀ c ∈ s.pool.chunks, ∃ ds, Tiles s.pool.arena c ds (c + layout.tail) ∧ ∀ d ∈ ds,
    ((∃ e i, d ∈ (s.pool.mem e).memBins i) ↔ 0 < (s.pool.desc d).totalSize) ∧
    ((s.pool.desc (s.pool.arena.stop d)).prevFree ≠ 0 →
      0 < (s.pool.desc d).totalSize ∧ (s.pool.desc (s.pool.arena.stop d)).prevFree = (s.pool.desc d).totalSize)
  first : ∀ c ∈ s.pool.chunks, (s.pool.desc c).prevFree = 0
  dummy : ∀ c ∈ s.pool.chunks, (s.pool.desc (c + layout.tail)).totalSize = -1
  apart : s.pool.chunks.Pairwise fun c c' => c + memChunkGrowSize ≤ c' ∨ c' + memChunkGrowSize ≤ c
  binned : ∀ e i, ∀ d ∈ (s.pool.mem e).memBins i, ∃ c ∈ s.pool.chunks, c ≤ d ∧
    s.pool.arena.stop d ≤ c + layout.tail
  once : ∀ e i, ((s.pool.mem e).memBins i).Nodup
  live : ∀ b ∈ s.live, ∃ c ∈ s.pool.chunks, c + descSize ≤ b.1 ∧
    (s.pool.desc (b.1 - descSize)).totalSize < 0 ∧
    b.1 + b.2 ≤ s.pool.arena.stop (b.1 - descSize) ∧ s.pool.arena.stop (b.1 - descSize) ≤ c + layout.tail
  disjoint : s.live.Pairwise fun b b' => b.1 + b.2 ≤ b'.1 ∨ b'.1 + b'.2 ≤ b.1

namespace Inv

lemma live_le (I : Inv s B) {b : Nat × Nat} (hb : b ∈ s.live) :
    b.1 + b.2 ≤ s.pool.arena.stop (b.1 - descSize) := by
  obtain ⟨held, size⟩ := I.live b hb
  rw [Arena.stop, ← Pool.total_eq]
  omega

lemma sound (I : Inv s B) : s.Sound := by
  have K := I.heap.ok
  refine ⟨fun c hc => ?_, K.first, K.dummy, ?_, fun e i d hd => ?_, I.heap.lists.nodup, fun b hb => ?_, ?_⟩
  · obtain ⟨ds, tiles, mem⟩ := K.tiles hc
    refine ⟨ds, tiles, fun d hd => ⟨?_, K.prev d ((mem d).1 hd).1 nofun⟩⟩
    exact (K.listed d).trans ⟨fun h => h.2.1, fun pos => ⟨((mem d).1 hd).1, pos, nofun⟩⟩
  · apply I.heap.lists.chunks.imp_of_mem
    intro c c' hc hc' ne
    obtain lt | gt := Nat.lt_or_gt_of_ne ne
    · exact .inl (K.far c hc c' hc' lt)
    · exact .inr (K.far c' hc' c hc gt)
  · obtain ⟨c, hc, le, inside, -⟩ := K.home d ((K.listed d).1 ⟨e, i, hd⟩).1
    exact ⟨c, hc, le, inside⟩
  · have held := (I.live b hb).1
    obtain ⟨c, hc, le, inside, -⟩ := K.home _ held.mem
    have := held.le
    exact ⟨c, hc, by omega, held.used, I.live_le hb, inside⟩
  · apply (List.pairwise_map.1 I.distinct).imp_of_mem
    intro b b' hb hb' ne
    have held := (I.live b hb).1
    have held' := (I.live b' hb').1
    have := held.le
    have := held'.le
    obtain lt | gt := Nat.lt_or_gt_of_ne ne
    · have := K.apart _ held.mem _ held'.mem (by omega)
      have := I.live_le hb
      exact .inl (by omega)
    · have := K.apart _ held'.mem _ held.mem (by omega)
      have := I.live_le hb'
      exact .inr (by omega)

end Inv

/-- In every reachable state of every run the heap is as it should be. -/
theorem heap_sound (h : machine.Reachable s) : s.Sound := by
  obtain ⟨B, I, -⟩ := exists_inv h
  exact I.sound

/-- A pool without memory, with the alignment of the default configuration. -/
def State.start : State where
  pool := ⟨fun _ => ⟨0, 0, 0, 0, 0⟩, fun _ => kuplNormalInit, []⟩
  alignLength := 8
  pc _ := .idle
  live := []

lemma State.start_init : State.start.Init := ⟨fun _ => rfl, rfl, fun _ => rfl, rfl, by decide⟩

/-- Two buffers of one chunk. -/
theorem heap_sound_two : ∃ s : State, s.Sound ∧ s.pool.chunks = [4096] ∧
    s.live = [(4192152, 1000), (4198248, 100)] := by
  obtain ⟨s, h, is⟩ := Machine.exists_reach (M := machine) (g := fun _ _ => True)
    (P := fun s => s.pool.chunks = [4096] ∧ s.live = [(4192152, 1000), (4198248, 100)])
    [.alloc 0 100 false, .drain 0, .search 0 (some 4096), .search 0 none, .alloc 0 5000 false, .drain 0, .search 0 none,
      .alloc 0 1000 false, .drain 0, .search 0 none, .free 0 4193200] State.start_init (by decide +kernel)
  exact ⟨s, heap_sound h, is⟩

/-- Each block of a chunk is in a free list of the owner of the chunk, in the hands of a caller, or on its way to
the owner. -/
def State.Conserves (s : State) : Prop :=
  ∀ c ∈ s.pool.chunks, ∀ ds, Tiles s.pool.arena c ds (c + layout.tail) → ∀ d ∈ ds,
    (∃ i, d ∈ (s.pool.mem (s.pool.desc c).eid).memBins i) ∨ s.Known (d + descSize)

lemma Inv.conserves_iff (I : Inv s B) : s.Conserves ↔ ∀ d, ¬ s.Lost B d := by
  have K := I.heap.ok
  have inside := Heap.tail_lt
  constructor
  · rintro conserves d ⟨mem, used, unknown⟩
    obtain ⟨c, hc, le, last, -⟩ := K.home d mem
    have := K.lt_stop mem
    obtain ⟨ds, tiles, mem'⟩ := K.tiles hc
    have here : d ∈ ds := (mem' d).2 ⟨mem, le, show d < c + memChunkGrowSize by omega⟩
    obtain ⟨i, listed⟩ | known := conserves c hc ds tiles d here
    · have free : 0 < (s.pool.desc d).totalSize := ((K.listed d).1 ⟨_, i, listed⟩).2.1
      omega
    · exact unknown known
  · intro none c hc ds tiles d hd
    obtain ⟨mem, le, lt⟩ := K.mem_of_tiles hc tiles hd
    have size := K.least d mem
    have pos := layout.pos
    rw [← Pool.total_eq] at size
    by_cases free : 0 < (s.pool.desc d).totalSize
    · obtain ⟨e, i, listed⟩ := (K.listed d).2 ⟨mem, free, nofun⟩
      have own : (s.pool.desc c).eid = e := (I.heap.owner c hc d mem le lt).symm.trans
        (I.heap.lists.binned e i d listed)
      exact .inl ⟨i, own ▸ listed⟩
    · by_contra no
      exact none d ⟨mem, by omega, fun known => no (.inr known)⟩

/-- A buffer in the hands of a caller has one reference and a freed one has none. Nothing is lost exactly as long
as no executor finds a buffer on its sync list when it allocates. -/
theorem frees_return_iff (h : machine.Reachable s) : (s.Conserves ↔ machine.Reach Spared s) ∧
    (∀ b ∈ s.live, (s.pool.desc (b.1 - descSize)).ref = 1) ∧
    ∀ π, ∀ ptr ∈ s.waits π, (s.pool.desc (ptr - descSize)).ref = 0 := by
  obtain ⟨B, I, spared⟩ := exists_inv h
  refine ⟨⟨fun conserves => spared (I.conserves_iff.1 conserves), fun kept => ?_⟩, fun b hb =>
    (I.live b hb).1.ref,
    fun π ptr hptr => (I.waits π ptr hptr).ref⟩
  obtain ⟨C, J, none⟩ := exists_kept kept
  exact J.conserves_iff.2 none

/-- A buffer is freed by its owner and one by another executor; the owner does not allocate after that. -/
theorem frees_return_iff_two : ∃ s : State, s.Conserves ∧ s.live = [] ∧
    (s.pool.mem 0).memSyncList = [4198248] := by
  obtain ⟨s, h, is⟩ := Machine.exists_reach (M := machine) (g := Spared)
    (P := fun s => s.live = [] ∧ (s.pool.mem 0).memSyncList = [4198248])
    [.alloc 0 100 false, .drain 0, .search 0 (some 4096), .search 0 none, .alloc 0 5000 false, .drain 0, .search 0 none,
      .free 0 4193200, .free 1 4198248, .enqueue 1] State.start_init (by decide +kernel)
  exact ⟨s, (frees_return_iff h.reachable).1.2 h, is⟩

/-- A buffer is freed by another executor; the next allocation of its owner takes it from the sync list, and then
it is in no list and with no caller. -/
theorem frees_return_iff_not : ∃ s : State, machine.Reachable s ∧ ¬ s.Conserves ∧ s.live = [] ∧
    (s.pool.mem 0).memSyncList = [] ∧ s.pc 0 = .search 200 248 ∧ (s.pool.desc 4198200).totalSize = -152 ∧
    (s.pool.desc 4198200).ref = 65535 := by
  obtain ⟨s, h, taken, later⟩ := Machine.exists_reach (M := machine) (g := fun _ _ => True)
    (P := fun s : State => (s.pc 0).rest = [4198248] ∧ ((s.step (.drain 0)).any fun s₁ : State =>
      decide ((s₁.pc 0).rest = []) && (s₁.step (.drain 0)).any fun s₂ : State =>
        decide (s₂.live = [] ∧ (s₂.pool.mem 0).memSyncList = [] ∧ s₂.pc 0 = .search 200 248 ∧
          (s₂.pool.desc 4198200).totalSize = -152 ∧ (s₂.pool.desc 4198200).ref = 65535)) = true)
    [.alloc 0 100 false, .drain 0, .search 0 (some 4096), .search 0 none, .free 1 4198248, .enqueue 1,
      .alloc 0 200 false] State.start_init (by decide +kernel)
  obtain ⟨s₁, first, later⟩ := (Option.any_eq_true _ _).1 later
  obtain ⟨spared, later⟩ := (Bool.and_eq_true _ _).mp later
  obtain ⟨s₂, second, facts⟩ := (Option.any_eq_true _ _).1 later
  obtain ⟨B, I, -⟩ := exists_inv h
  obtain ⟨I₁, lost⟩ := I.again taken first
  have spared : (s₁.pc 0).rest = [] := of_decide_eq_true spared
  have S := I₁.drained spared second
  have step₁ : machine.step s (.drain 0) = some s₁ := first
  have step₂ : machine.step s₁ (.drain 0) = some s₂ := second
  have reach : machine.Reachable s₂ := (h.step trivial step₁).step trivial step₂
  refine ⟨s₂, reach, fun conserves => ?_, of_decide_eq_true facts⟩
  exact S.inv.conserves_iff.1 conserves 4198200 ((S.lost _).2 ((lost _).2 (.inr rfl)))

end Kupl.Mpool
