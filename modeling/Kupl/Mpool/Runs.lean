import Kupl.Mpool.Chain
import Kupl.Mpool.Heap
import Kupl.Word.Checked

/-!
# Runs of the normal allocator

In every run the blocks of the pool fit its tags and lists (`Inv.heap`), the buffers in the hands of the
callers have a reference, and the ones on their way to their owner have none. A block in use is lost
(`State.Lost`) when no caller has it and it is not on its way.
-/

namespace Kupl.Mpool
open Boundary Chain List
open Function (update update_of_ne update_self)
variable {size align : BitVec 64}

section
variable (small : size.toNat ≤ maxMallocInnerSize)
include small

lemma request_fits (le : align.toNat ≤ hugePageSize.toNat) :
    (size + BitVec.ofNat 64 descSize).toNat = descSize + size.toNat ∧
      (size + BitVec.ofNat 64 descSize).toNat + align.toNat ≤ 2 ^ 64 := by
  have limit : maxMallocInnerSize = 2 ^ 37 := rfl
  have page : hugePageSize.toNat = 2 ^ 21 := by decide
  have desc : descSize = 48 := rfl
  have sum : (size + BitVec.ofNat 64 descSize).toNat = descSize + size.toNat := by
    rw [desc]
    bv_omega
  omega

lemma le_actualSize (pos : 1 ≤ align.toNat) (le : align.toNat ≤ hugePageSize.toNat) :
    descSize + size.toNat ≤ (actualSize size align).toNat := by
  obtain ⟨sum, room⟩ := request_fits small le
  rw [← sum]
  exact Word.le_alignUp pos room

lemma actualSize_lt (pos : 1 ≤ align.toNat) (le : align.toNat ≤ hugePageSize.toNat) :
    (actualSize size align).toNat < descSize + size.toNat + align.toNat := by
  obtain ⟨sum, room⟩ := request_fits small le
  rw [← sum]
  exact Word.alignUp_lt pos room

end

/-- Where a freed buffer waits for its owner. -/
inductive Place where
  | handed (e : Eid)
  | listed (e : Eid)
  | taken (e : Eid)
  deriving DecidableEq

/-- The buffer that an executor freed and has yet to put on the list of the owner. -/
def Pc.handed : Pc → List Nat
  | .enqueue ptr _ => [ptr]
  | _ => []

def State.waits (s : State) : Place → List Nat
  | .handed e => (s.pc e).handed
  | .listed e => (s.pool.mem e).memSyncList
  | .taken e => (s.pc e).rest

variable {π π' : Place} {ptr : Nat} {s s' : State} {e : Eid} {p q : Pool} {B C : Set Nat} {d : Nat} {r : BitVec 16}
  {pc : Pc}

/-- A buffer in use with a reference count. -/
structure Held (p : Pool) (B : Set Nat) (r : BitVec 16) (ptr : Nat) : Prop where
  le : descSize ≤ ptr
  mem : ptr - descSize ∈ B
  used : (p.desc (ptr - descSize)).totalSize < 0
  ref : (p.desc (ptr - descSize)).ref = r

/-- What an executor knows of its request. -/
def Pc.Ok : Pc → Prop
  | .enqueue _ next => next = .idle
  | .drain _ size _ => size.toNat ≤ maxMallocInnerSize
  | .search size actual => descSize + size ≤ actual
  | _ => True

structure Inv (s : State) (B : Set Nat) : Prop where
  heap : Heap s.pool B none
  live : ∀ b ∈ s.live, Held s.pool B 1 b.1 ∧ (s.pool.desc (b.1 - descSize)).totalSize ≤
    -((descSize + b.2 : Nat) : Int)
  distinct : (s.live.map Prod.fst).Nodup
  waits : ∀ π, ∀ ptr ∈ s.waits π, Held s.pool B 0 ptr
  apart : Apart s.waits
  pc : ∀ e, (s.pc e).Ok
  align : 1 ≤ s.alignLength.toNat ∧ s.alignLength.toNat ≤ hugePageSize.toNat

/-- A caller has the buffer, or it is on its way to its owner. -/
def State.Known (s : State) (ptr : Nat) : Prop := ptr ∈ s.live.map Prod.fst ∨ ∃ π, ptr ∈ s.waits π

/-- A block in use that nobody has. -/
def State.Lost (s : State) (B : Set Nat) (d : Nat) : Prop :=
  d ∈ B ∧ (s.pool.desc d).totalSize < 0 ∧ ¬ s.Known (d + descSize)

lemma Held.kept (H : Held p B r ptr)
    (kept : ptr - descSize ∈ C ∧ (q.desc (ptr - descSize)).tag = (p.desc (ptr - descSize)).tag) :
      Held q C r ptr := by
  have tag := Desc.tag_inj kept.2
  refine ⟨H.le, kept.1, ?_, ?_⟩
  · rw [tag.2.2.2]
    exact H.used
  · rw [tag.2.1]
    exact H.ref

namespace Inv

lemma next (I : Inv s B) (touched : Nat → Prop) (heap : Heap s'.pool C none)
    (kept : ∀ d ∈ B, (s.pool.desc d).totalSize < 0 → (∀ ptr, touched ptr → d ≠ ptr - descSize) →
      d ∈ C ∧ (s'.pool.desc d).tag = (s.pool.desc d).tag)
    (live : ∀ b ∈ s'.live, b ∈ s.live ∧ (∀ ptr, touched ptr → b.1 - descSize ≠ ptr - descSize) ∨
      Held s'.pool C 1 b.1 ∧ (s'.pool.desc (b.1 - descSize)).totalSize ≤ -((descSize + b.2 : Nat) : Int))
    (distinct : (s'.live.map Prod.fst).Nodup)
    (waits : ∀ π, ∀ x ∈ s'.waits π, (∃ π', x ∈ s.waits π') ∧
      (∀ ptr, touched ptr → x - descSize ≠ ptr - descSize) ∨
      Held s'.pool C 0 x)
    (apart : Apart s'.waits) (pc : ∀ e, (s'.pc e).Ok)
    (align : 1 ≤ s'.alignLength.toNat ∧ s'.alignLength.toNat ≤ hugePageSize.toNat) : Inv s' C := by
  refine ⟨heap, fun b hb => ?_, distinct, fun π x hx => ?_, apart, pc, align⟩
  · obtain ⟨old, other⟩ | new := live b hb
    · obtain ⟨held, size⟩ := I.live b old
      have same := kept _ held.mem held.used other
      refine ⟨held.kept same, ?_⟩
      rw [(Desc.tag_inj same.2).2.2.2]
      exact size
    · exact new
  · obtain ⟨⟨π', old⟩, other⟩ | new := waits π x hx
    · have held := I.waits π' x old
      exact held.kept (kept _ held.mem held.used other)
    · exact new

end Inv

/-- A step keeps what holds in every state, and loses and finds no buffer. -/
structure Steady (s : State) (B : Set Nat) (s' : State) (C : Set Nat) : Prop where
  inv : Inv s' C
  lost : ∀ d, s'.Lost C d ↔ s.Lost B d

lemma State.waits_work_eq {w : Place → List Nat} (handed : w (.handed e) = pc.handed) (taken : w (.taken e) = pc.rest)
    (listed : ∀ x, w (.listed x) = (p.mem x).memSyncList)
    (other : ∀ π, π ≠ .handed e → π ≠ .taken e → (∀ x, π ≠ .listed x) → w π = s.waits π) :
    (s.work p e pc).waits = w := by
  funext π
  cases π with
  | handed x =>
    show (update s.pc e pc x).handed = _
    by_cases same : x = e
    · rw [same, update_self, handed]
    · rw [update_of_ne same, other (.handed x) (fun h => same (Place.handed.inj h)) nofun nofun]
      rfl
  | listed x => exact (listed x).symm
  | taken x =>
    show (update s.pc e pc x).rest = _
    by_cases same : x = e
    · rw [same, update_self, taken]
    · rw [update_of_ne same, other (.taken x) nofun (fun h => same (Place.taken.inj h)) nofun]
      rfl

lemma State.waits_work (sync : ∀ x, (p.mem x).memSyncList = (s.pool.mem x).memSyncList)
    (handed : pc.handed = (s.pc e).handed) (rest : pc.rest = (s.pc e).rest) : (s.work p e pc).waits = s.waits :=
  waits_work_eq handed.symm rest.symm (fun x => (sync x).symm) fun _ _ _ _ => rfl

namespace Inv

lemma pc_work (I : Inv s B) (ok : pc.Ok) (x : Eid) : (update s.pc e pc x).Ok := by
  by_cases same : x = e
  · rw [same, update_self]
    exact ok
  · rw [update_of_ne same]
    exact I.pc x

lemma heap_sync (I : Inv s B) {l : List Nat} :
    Heap (s.pool.setMem e { s.pool.mem e with memSyncList := l }) B none := by
  refine ⟨?_, I.heap.lists.setMem (I.heap.lists.binned e) (I.heap.lists.once e) (I.heap.lists.nodup e), I.heap.owner,
    I.heap.index⟩
  have arena := Pool.arena_setMem (p := s.pool) (e := e) (m := { s.pool.mem e with memSyncList := l }) rfl
  rw [arena]
  exact I.heap.ok

lemma steady_of_waits (I : Inv s B) (heap : Heap p B none) (desc : p.desc = s.pool.desc) (ok : pc.Ok)
    (apart : Apart (s.work p e pc).waits) (moved : ∀ ptr, (∃ π, ptr ∈ (s.work p e pc).waits π) ↔
      ∃ π, ptr ∈ s.waits π) :
    Steady s B (s.work p e pc) B := by
  have desc' : (s.work p e pc).pool.desc = s.pool.desc := desc
  constructor
  · apply I.next (fun _ => False) heap
    · exact fun d mem _ _ => ⟨mem, by rw [desc']⟩
    · exact fun b hb => .inl ⟨hb, nofun⟩
    · exact I.distinct
    · exact fun π x hx => .inl ⟨(moved x).1 ⟨π, hx⟩, nofun⟩
    · exact apart
    · exact I.pc_work ok
    · exact I.align
  · intro d
    rw [State.Lost, State.Lost, State.Known, State.Known, moved, desc']
    rfl

lemma alloc (I : Inv s B) {size : BitVec 64} {huge : Bool} (h : s.alloc e size huge = some s') : Steady s B s' B := by
  rw [State.alloc] at h
  split at h
  · rename_i free
    cases h
    have idle : (s.pc e).handed = [] ∧ (s.pc e).rest = [] := by
      rw [free.1]
      exact ⟨rfl, rfl⟩
    have ne : Place.listed e ≠ .taken e := nofun
    have waits : (s.work (s.pool.setMem e { s.pool.mem e with memSyncList := [] }) e
        (.drain (s.pool.mem e).memSyncList size huge)).waits = join s.waits (.listed e) (.taken e) := by
      apply State.waits_work_eq
      · rw [join_of_ne (by nofun) (by nofun)]
        exact idle.1
      · rw [join_to]
        show _ ++ (s.pc e).rest = _
        rw [idle.2, append_nil]
        rfl
      · intro x
        by_cases same : x = e
        · rw [same, join_from ne, Pool.mem_setMem_self]
        · rw [join_of_ne (fun h => same (Place.listed.inj h)) (by nofun), Pool.mem_setMem_of_ne same]
          rfl
      · exact fun π _ isT isL => join_of_ne (isL e) isT
    have ok : Pc.Ok (.drain (s.pool.mem e).memSyncList size huge) := free.2
    apply I.steady_of_waits I.heap_sync rfl ok
    · rw [waits]
      exact I.apart.joined ne
    · intro ptr
      rw [waits]
      exact exists_join ne
  · cases h

lemma enqueue (I : Inv s B) (h : s.enqueue e = some s') : Steady s B s' B := by
  rw [State.enqueue] at h
  split at h
  · rename_i ptr next at'
    cases h
    have isIdle : next = .idle := by
      have ok := I.pc e
      rw [at'] at ok
      exact ok
    subst isIdle
    obtain ⟨o, isO⟩ : ∃ o, o = (s.pool.desc (ptr - descSize)).eid := ⟨_, rfl⟩
    rw [← isO]
    have here : s.waits (.handed e) = [ptr] := by
      show (s.pc e).handed = _
      rw [at']
      rfl
    have mem : ptr ∈ s.waits (.handed e) := by
      rw [here]
      exact mem_singleton_self ptr
    have ne : Place.handed e ≠ .listed o := nofun
    have waits : (s.work (s.pool.setMem o { s.pool.mem o with memSyncList := ptr :: (s.pool.mem o).memSyncList }) e
        .idle).waits = pull s.waits (.handed e) (.listed o) ptr := by
      apply State.waits_work_eq
      · rw [pull_from ne, here, erase_cons_head]
        rfl
      · rw [pull_of_ne (by nofun) (by nofun)]
        show (s.pc e).rest = _
        rw [at']
        rfl
      · intro x
        by_cases same : x = o
        · rw [same, pull_to, Pool.mem_setMem_self]
          rfl
        · rw [pull_of_ne (by nofun) fun h => same (Place.listed.inj h), Pool.mem_setMem_of_ne same]
          rfl
      · exact fun π isH _ isL => pull_of_ne isH (isL o)
    have ok : Pc.Ok .idle := trivial
    apply I.steady_of_waits I.heap_sync rfl ok
    · rw [waits]
      exact I.apart.pulled ne mem
    · intro x
      rw [waits]
      exact I.apart.exists_pull ne mem
  · cases h

lemma drained (I : Inv s B) (nothing : (s.pc e).rest = []) (h : s.drain e = some s') : Steady s B s' B := by
  rw [State.drain] at h
  split at h
  · rename_i at'
    rw [at'] at nothing
    cases nothing
  · rename_i size huge at'
    cases h
    have small : size.toNat ≤ maxMallocInnerSize := by
      have ok := I.pc e
      rw [at'] at ok
      exact ok
    obtain ⟨align, isAlign⟩ : ∃ align, align = if huge then hugePageSize else s.alignLength := ⟨_, rfl⟩
    have fits : 1 ≤ align.toNat ∧ align.toNat ≤ hugePageSize.toNat := by
      rw [isAlign]
      split
      · decide
      · exact I.align
    rw [← isAlign]
    obtain ⟨pc, isPc⟩ : ∃ pc, pc = if memMaxSize < (actualSize size align).toNat then Pc.idle else
      .search size.toNat (actualSize size align).toNat := ⟨_, rfl⟩
    have parts : pc.handed = [] ∧ pc.rest = [] ∧ pc.Ok := by
      rw [isPc]
      split
      · exact ⟨rfl, rfl, trivial⟩
      · exact ⟨rfl, rfl, le_actualSize small fits.1 fits.2⟩
    have waits : (s.work s.pool e pc).waits = s.waits := by
      apply State.waits_work (fun _ => rfl)
      · rw [parts.1, at']
        rfl
      · rw [parts.2.1, at']
        rfl
    have S : Steady s B (s.work s.pool e pc) B :=
      I.steady_of_waits I.heap rfl parts.2.2 (by rw [waits]; exact I.apart) fun x => by rw [waits]
    rw [isPc] at S
    exact ⟨⟨S.inv.heap, S.inv.live, S.inv.distinct, S.inv.waits, S.inv.apart, S.inv.pc, fits⟩, S.lost⟩
  · cases h

end Inv

lemma Held.free_again (H : Held p B 0 ptr) : p.normalFree e ptr = (p.setRef (ptr - descSize) 65535, false) := by
  have below : (p.desc (ptr - descSize)).ref - 1 = 65535 := by
    rw [H.ref]
    rfl
  rw [Pool.normalFree, below, Pool.ref_setRef, if_pos (by decide)]

section Free
variable (K : Heap p B none) (H : Held p B 1 ptr)
include K H

lemma Held.free_last : p.normalFree e ptr =
    if (p.desc (ptr - descSize)).eid ≠ e then (p.setRef (ptr - descSize) 0, true)
    else ((p.setRef (ptr - descSize) 0).freeOwn e (ptr - descSize), false) := by
  have zero : (p.desc (ptr - descSize)).ref - 1 = 0 := by
    rw [H.ref]
    rfl
  have index := K.index _ H.mem nofun
  rw [Pool.normalFree, zero, Pool.ref_setRef, if_neg (by decide), Pool.index_setRef, if_neg (Int.not_lt.2 index),
    Pool.eid_setRef]

end Free

namespace Inv

lemma live_ne (I : Inv s B) {b : Nat × Nat} (hb : b ∈ s.live) (h : ptr ∈ s.waits π) :
    b.1 - descSize ≠ ptr - descSize := by
  intro same
  have one := (I.live b hb).1.ref
  rw [same, (I.waits π ptr h).ref] at one
  cases one

lemma again (I : Inv s B) {rest : List Nat} (at' : (s.pc e).rest = ptr :: rest) (h : s.drain e = some s') :
    Inv s' B ∧ ∀ d, s'.Lost B d ↔ s.Lost B d ∨ d + descSize = ptr := by
  rw [State.drain] at h
  split at h
  · rename_i x tail size huge isPc
    rw [isPc] at at'
    obtain ⟨rfl, rfl⟩ := List.cons.inj at'
    have taken : s.waits (.taken e) = x :: tail := by
      show (s.pc e).rest = _
      rw [isPc]
      rfl
    have waiting : x ∈ s.waits (.taken e) := by
      rw [taken]
      exact mem_cons_self
    have H := I.waits _ x waiting
    rw [H.free_again] at h
    cases h
    obtain ⟨p, isP⟩ : ∃ p, p = s.pool.setRef (x - descSize) 65535 := ⟨_, rfl⟩
    have desc {d : Nat} (ne : d ≠ x - descSize) : p.desc d = s.pool.desc d := by
      rw [isP]
      exact Pool.setDesc_of_ne ne
    have total (d) : (p.desc d).totalSize = (s.pool.desc d).totalSize := by
      rw [isP, Pool.total_setRef]
    have waits : (s.work p e (.drain tail size huge)).waits = update s.waits (.taken e) tail := by
      apply State.waits_work_eq
      · rw [update_of_ne (by nofun)]
        show (s.pc e).handed = _
        rw [isPc]
        rfl
      · exact update_self ..
      · intro y
        rw [update_of_ne (by nofun), isP]
        rfl
      · exact fun π _ isT _ => update_of_ne isT ..
    have left {π : Place} {y : Nat} : y ∈ update s.waits (.taken e) tail π ↔ y ∈ s.waits π ∧ y ≠ x := by
      have once := I.apart.once (.taken e)
      rw [taken, nodup_cons] at once
      by_cases same : π = .taken e
      · rw [same, update_self, taken]
        refine ⟨fun h => ⟨mem_cons_of_mem _ h, ?_⟩, fun h => (mem_cons.1 h.1).resolve_left h.2⟩
        rintro rfl
        exact once.1 h
      · rw [update_of_ne same]
        refine ⟨fun h => ⟨h, ?_⟩, fun h => h.1⟩
        rintro rfl
        exact same (I.apart.place _ _ y h waiting)
    rw [← isP, if_neg Bool.false_ne_true]
    constructor
    · apply I.next (· = x)
      · show Heap p B none
        rw [isP]
        exact I.heap.setRef
      · exact fun d mem _ other => ⟨mem, by rw [← desc (other x rfl)]; rfl⟩
      · refine fun b hb => .inl ⟨hb, ?_⟩
        rintro y rfl
        exact I.live_ne hb waiting
      · exact I.distinct
      · intro π y hy
        rw [waits, left] at hy
        refine .inl ⟨⟨π, hy.1⟩, ?_⟩
        rintro z rfl same
        have := (I.waits π y hy.1).le
        have := H.le
        exact hy.2 (by omega)
      · rw [waits]
        apply I.apart.shift id
        · intro π
          by_cases same : π = .taken e
          · rw [same, update_self]
            show tail.Sublist (s.waits (.taken e))
            rw [taken]
            exact sublist_cons_self x tail
          · rw [update_of_ne same]
            exact List.Sublist.refl _
        · exact fun _ _ _ _ _ same => same
      · apply I.pc_work
        have ok := I.pc e
        rw [isPc] at ok
        exact ok
      · exact I.align
    · intro d
      have known : (s.work p e (.drain tail size huge)).Known (d + descSize) ↔ s.Known (d + descSize) ∧
        d + descSize ≠ x := by
        rw [State.Known, State.Known, waits]
        constructor
        · rintro (live | ⟨π, h⟩)
          · refine ⟨.inl live, ?_⟩
            obtain ⟨b, hb, same⟩ := mem_map.1 live
            rw [← same]
            exact fun e => I.live_ne hb waiting (by rw [e])
          · exact ⟨.inr ⟨π, (left.1 h).1⟩, (left.1 h).2⟩
        · rintro ⟨live | ⟨π, h⟩, ne⟩
          · exact .inl live
          · exact .inr ⟨π, left.2 ⟨h, ne⟩⟩
      rw [State.Lost, State.Lost, known]
      show d ∈ B ∧ (p.desc d).totalSize < 0 ∧ _ ↔ _
      rw [total]
      constructor
      · rintro ⟨mem, used, unknown⟩
        by_cases same : d + descSize = x
        · exact .inr same
        · exact .inl ⟨mem, used, fun k => unknown ⟨k, same⟩⟩
      · rintro (⟨mem, used, unknown⟩ | same)
        · exact ⟨mem, used, fun k => unknown k.1⟩
        · have isD : x - descSize = d := by omega
          exact ⟨isD ▸ H.mem, isD ▸ H.used, fun k => k.2 same⟩
  · rename_i size huge isPc
    rw [isPc] at at'
    cases at'
  · cases h

lemma steady_of_frame (I : Inv s B) (heap : Heap p C none) (frame : Frame s.pool B p C) (ok : pc.Ok)
    (handed : pc.handed = (s.pc e).handed) (rest : pc.rest = (s.pc e).rest) : Steady s B (s.work p e pc) C := by
  have waits : (s.work p e pc).waits = s.waits := State.waits_work frame.sync handed rest
  constructor
  · apply I.next (fun _ => False) heap
    · exact fun d mem used _ => frame.kept d mem used
    · exact fun b hb => .inl ⟨hb, nofun⟩
    · exact I.distinct
    · exact fun π x hx => .inl ⟨⟨π, waits ▸ hx⟩, nofun⟩
    · rw [waits]
      exact I.apart
    · exact I.pc_work ok
    · exact I.align
  · intro d
    rw [State.Lost, State.Lost, State.Known, State.Known, waits]
    constructor
    · rintro ⟨mem, used, unknown⟩
      obtain ⟨mem', used'⟩ := frame.back d mem used
      exact ⟨mem', used', unknown⟩
    · rintro ⟨mem, used, unknown⟩
      obtain ⟨mem', tag⟩ := frame.kept d mem used
      refine ⟨mem', ?_, unknown⟩
      show (p.desc d).totalSize < 0
      rw [(Desc.tag_inj tag).2.2.2]
      exact used

lemma search (I : Inv s B) {mapped : Option Nat} (h : s.search e mapped = some s') : ∃ C, Steady s B s' C := by
  rw [State.search] at h
  split at h
  · rename_i size actual at'
    have fits : descSize + size ≤ actual := by
      have ok := I.pc e
      rw [at'] at ok
      exact ok
    have handed : Pc.idle.handed = (s.pc e).handed := by
      rw [at']
      rfl
    have rest : Pc.idle.rest = (s.pc e).rest := by
      rw [at']
      rfl
    split at h
    · rename_i p ptr found
      cases h
      obtain ⟨C, u, isU, H⟩ := I.heap.searchBins (Nat.le_of_add_right_le fits) found
      have isU : ptr = u + descSize := isU
      have H : Heap.Handed s.pool B e actual p C u := H
      have waits : (s.work p e .idle).waits = s.waits := State.waits_work H.sync handed rest
      have back : ptr - descSize = u := by omega
      have fresh {b : Nat × Nat} (hb : b ∈ s.live) : b.1 ≠ ptr := by
        intro same
        have held := (I.live b hb).1
        have free := H.new
        rw [← back, ← same] at free
        have := free held.mem
        have := held.used
        omega
      have taken : Held p C 1 ptr ∧ (p.desc (ptr - descSize)).totalSize ≤ -((descSize + size : Nat) : Int) := by
        have := H.size
        rw [back]
        refine ⟨⟨by omega, ?_, ?_, ?_⟩, by omega⟩
        · rw [back]
          exact H.mem
        · rw [back]
          have : 0 < descSize := by decide
          omega
        · rw [back]
          exact H.ref
      refine ⟨C, ?_, fun d => ?_⟩
      · apply I.next (fun _ => False) H.heap
        · exact fun d mem used _ => H.kept d mem used
        · intro b hb
          obtain rfl | hb := mem_cons.1 hb
          · exact .inr taken
          · exact .inl ⟨hb, nofun⟩
        · apply nodup_cons.2 ⟨?_, I.distinct⟩
          intro h
          obtain ⟨b, hb, same⟩ := mem_map.1 h
          exact fresh hb same
        · exact fun π x hx => .inl ⟨⟨π, waits ▸ hx⟩, nofun⟩
        · show Apart (s.work p e .idle).waits
          rw [waits]
          exact I.apart
        · exact I.pc_work trivial
        · exact I.align
      · have known : ({ s.work p e .idle with live := (ptr, size) :: s.live } : State).Known (d + descSize) ↔
            d = u ∨ s.Known (d + descSize) := by
          show _ ∈ ptr :: s.live.map Prod.fst ∨ (∃ π, _ ∈ (s.work p e .idle).waits π) ↔ _
          rw [waits, mem_cons, State.Known, or_assoc, isU, Nat.add_right_cancel_iff]
        rw [State.Lost, State.Lost, known]
        constructor
        · rintro ⟨mem, used, unknown⟩
          obtain isU | ⟨mem', used'⟩ := H.back d mem used
          · exact absurd (.inl isU) unknown
          · exact ⟨mem', used', fun k => unknown (.inr k)⟩
        · rintro ⟨mem, used, unknown⟩
          obtain ⟨mem', tag⟩ := H.kept d mem used
          refine ⟨mem', ?_, ?_⟩
          · show (p.desc d).totalSize < 0
            rw [(Desc.tag_inj tag).2.2.2]
            exact used
          · rintro (rfl | k)
            · have := H.new mem
              omega
            · exact unknown k
    · cases mapped with
      | none =>
        cases h
        have ok : Pc.Ok .idle := trivial
        exact ⟨B, I.steady_of_frame I.heap ⟨fun d mem _ => ⟨mem, rfl⟩, fun d mem used =>
          ⟨mem, used⟩, fun _ => rfl⟩
          ok handed rest⟩
      | some base =>
        dsimp only at h
        split at h
        · rename_i fresh
          cases h
          obtain ⟨C, heap, frame⟩ := I.heap.growChunk (e := e) fresh
          refine ⟨C, I.steady_of_frame heap frame fits ?_ ?_⟩
          · rw [at']
          · rw [at']
        · cases h
  · cases h

lemma free (I : Inv s B) (h : s.free e ptr = some s') : ∃ C, Steady s B s' C := by
  rw [State.free] at h
  split at h
  · rename_i can
    obtain ⟨idle, isLive⟩ := can
    obtain ⟨b, hb, isB⟩ := mem_map.1 isLive
    have H : Held s.pool B 1 ptr := isB ▸ (I.live b hb).1
    have new (π) : ptr ∉ s.waits π := fun h => I.live_ne hb h (by rw [isB])
    have isD : ptr - descSize + descSize = ptr := Nat.sub_add_cancel H.le
    have known : s.Known (ptr - descSize + descSize) := .inl (isD.symm ▸ isLive)
    obtain ⟨live, isL⟩ : ∃ live, live = s.live.filter fun b => b.1 ≠ ptr := ⟨_, rfl⟩
    have left {b : Nat × Nat} : b ∈ live ↔ b ∈ s.live ∧ b.1 ≠ ptr := by
      rw [isL, mem_filter, decide_eq_true_iff]
    have leftPtr {x : Nat} : x ∈ live.map Prod.fst ↔ x ∈ s.live.map Prod.fst ∧ x ≠ ptr := by
      rw [mem_map, mem_map]
      constructor
      · rintro ⟨b, hb, rfl⟩
        exact ⟨⟨b, (left.1 hb).1, rfl⟩, (left.1 hb).2⟩
      · rintro ⟨⟨b, hb, rfl⟩, ne⟩
        exact ⟨b, left.2 ⟨hb, ne⟩, rfl⟩
    have distinct : (live.map Prod.fst).Nodup := by
      rw [isL]
      exact I.distinct.sublist (filter_sublist.map _)
    have other {b : Nat × Nat} (hb : b ∈ live) : b.1 - descSize ≠ ptr - descSize := by
      intro same
      have := (I.live b (left.1 hb).1).1.le
      exact (left.1 hb).2 (by omega)
    have waiting {π : Place} {x : Nat} (hx : x ∈ s.waits π) : x - descSize ≠ ptr - descSize := by
      intro same
      exact I.live_ne hb hx (by rw [isB, same])
    obtain ⟨p, isP⟩ : ∃ p, p = s.pool.setRef (ptr - descSize) 0 := ⟨_, rfl⟩
    have desc {d : Nat} (ne : d ≠ ptr - descSize) : p.desc d = s.pool.desc d := by
      rw [isP]
      exact Pool.setDesc_of_ne ne
    have total (d) : (p.desc d).totalSize = (s.pool.desc d).totalSize := by
      rw [isP, Pool.total_setRef]
    have heap : Heap p B none := by
      rw [isP]
      exact I.heap.setRef
    rw [H.free_last I.heap, ← isP, ← isL] at h
    by_cases own : (s.pool.desc (ptr - descSize)).eid = e
    · rw [if_neg (not_not.2 own)] at h
      cases h
      rw [if_neg Bool.false_ne_true]
      have used : (p.desc (ptr - descSize)).totalSize < 0 := by
        rw [total]
        exact H.used
      have own' : (p.desc (ptr - descSize)).eid = e := by
        rw [isP, Pool.eid_setRef]
        exact own
      obtain ⟨C, heap', kept, back, sync⟩ := heap.freeOwn H.mem used
      rw [own'] at heap' kept back sync
      obtain ⟨q, isQ⟩ : ∃ q, q = p.freeOwn e (ptr - descSize) := ⟨_, rfl⟩
      rw [← isQ] at heap' kept back sync ⊢
      have waits : (s.work q e .idle).waits = s.waits := by
        apply State.waits_work
        · intro x
          rw [sync, isP]
          rfl
        · rw [idle]
        · rw [idle]
      refine ⟨C, ?_, fun d => ?_⟩
      · apply I.next (· = ptr) heap'
        · intro d mem used touched
          have ne := touched ptr rfl
          have same := kept d mem ne (by rw [total]; exact used)
          rw [desc ne] at same
          exact same
        · refine fun b hb => .inl ⟨(left.1 hb).1, ?_⟩
          rintro x rfl
          exact other hb
        · exact distinct
        · intro π x hx
          have hx : x ∈ s.waits π := waits ▸ hx
          refine .inl ⟨⟨π, hx⟩, ?_⟩
          rintro y rfl
          exact waiting hx
        · show Apart (s.work q e .idle).waits
          rw [waits]
          exact I.apart
        · exact I.pc_work trivial
        · exact I.align
      · have known' : ({ s.work q e .idle with live := live } : State).Known (d + descSize) ↔
            s.Known (d + descSize) ∧ d ≠ ptr - descSize := by
          show _ ∈ live.map Prod.fst ∨ (∃ π, _ ∈ (s.work q e .idle).waits π) ↔ _
          rw [waits, leftPtr, State.Known]
          constructor
          · rintro (⟨h, ne⟩ | ⟨π, h⟩)
            · exact ⟨.inl h, fun e => ne (by rw [e, isD])⟩
            · refine ⟨.inr ⟨π, h⟩, fun e => new π ?_⟩
              rw [e, isD] at h
              exact h
          · rintro ⟨h | h, ne⟩
            · exact .inl ⟨h, fun e => ne (by omega)⟩
            · exact .inr h
        rw [State.Lost, State.Lost, known']
        constructor
        · rintro ⟨mem, used', unknown⟩
          obtain ⟨mem', ne, old⟩ := back d mem used'
          rw [total] at old
          exact ⟨mem', old, fun k => unknown ⟨k, ne⟩⟩
        · rintro ⟨mem, used', unknown⟩
          have ne : d ≠ ptr - descSize := by
            rintro rfl
            exact unknown known
          obtain ⟨mem', tag⟩ := kept d mem ne (by rw [total]; exact used')
          refine ⟨mem', ?_, fun k => unknown k.1⟩
          show (q.desc d).totalSize < 0
          rw [(Desc.tag_inj tag).2.2.2, total]
          exact used'
    · rw [if_pos own] at h
      cases h
      rw [if_pos rfl]
      have waits : (s.work p e (.enqueue ptr .idle)).waits =
          update s.waits (.handed e) (ptr :: s.waits (.handed e)) := by
        apply State.waits_work_eq
        · rw [update_self]
          show ptr :: (s.pc e).handed = _
          rw [idle]
          rfl
        · rw [update_of_ne (by nofun)]
          show (s.pc e).rest = _
          rw [idle]
          rfl
        · intro x
          rw [update_of_ne (by nofun), isP]
          rfl
        · exact fun π isH _ _ => update_of_ne isH ..
      have now {π : Place} {x : Nat} (hx : x ∈ (s.work p e (.enqueue ptr .idle)).waits π) :
          x ∈ s.waits π ∨ x = ptr := by
        rw [waits] at hx
        by_cases same : π = .handed e
        · rw [same, update_self] at hx
          exact (mem_cons.1 hx).elim .inr fun h => .inl (same ▸ h)
        · rw [update_of_ne same] at hx
          exact .inl hx
      refine ⟨B, ?_, fun d => ?_⟩
      · apply I.next (· = ptr) heap
        · exact fun d mem _ touched => ⟨mem, by rw [← desc (touched ptr rfl)]; rfl⟩
        · refine fun b hb => .inl ⟨(left.1 hb).1, ?_⟩
          rintro x rfl
          exact other hb
        · exact distinct
        · intro π x hx
          obtain old | isPtr := now hx
          · refine .inl ⟨⟨π, old⟩, ?_⟩
            rintro y rfl
            exact waiting old
          · refine .inr ⟨isPtr ▸ H.le, isPtr ▸ H.mem, ?_, ?_⟩
            · show (p.desc (x - descSize)).totalSize < 0
              rw [total, isPtr]
              exact H.used
            · show (p.desc (x - descSize)).ref = 0
              rw [isPtr, isP, Pool.ref_setRef]
        · show Apart (s.work p e (.enqueue ptr .idle)).waits
          rw [waits]
          exact I.apart.add new
        · have ok : (Pc.enqueue ptr .idle).Ok := rfl
          exact I.pc_work ok
        · exact I.align
      · have known' : ({ s.work p e (.enqueue ptr .idle) with live := live } : State).Known (d + descSize) ↔
            s.Known (d + descSize) := by
          show _ ∈ live.map Prod.fst ∨ (∃ π, _ ∈ (s.work p e (.enqueue ptr .idle)).waits π) ↔ _
          rw [leftPtr, State.Known]
          constructor
          · rintro (⟨h, -⟩ | ⟨π, h⟩)
            · exact .inl h
            · exact (now h).elim (fun h => .inr ⟨π, h⟩) fun same => .inl (same ▸ isLive)
          · intro k
            by_cases same : d + descSize = ptr
            · refine .inr ⟨.handed e, ?_⟩
              rw [waits, update_self, same]
              exact mem_cons_self
            · obtain h | ⟨π, h⟩ := k
              · exact .inl ⟨h, same⟩
              · refine .inr ⟨π, ?_⟩
                rw [waits]
                by_cases isH : π = .handed e
                · rw [isH, update_self, ← isH]
                  exact mem_cons_of_mem _ h
                · rw [update_of_ne isH]
                  exact h
        rw [State.Lost, State.Lost, known']
        show d ∈ B ∧ (p.desc d).totalSize < 0 ∧ _ ↔ _
        rw [total]
  · cases h

end Inv
end Kupl.Mpool
