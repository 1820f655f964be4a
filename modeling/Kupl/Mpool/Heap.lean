import Kupl.Mpool.Normal
import Mathlib.Data.List.Nodup

/-!
# What the functions of the normal allocator do to the heap

`Heap p B hole` says that the tags and the lists of the pool fit the blocks `B`. Every function of the
allocator keeps it, with other blocks, and leaves the buffers in use alone (`Frame`).
-/

namespace Kupl.Mpool
open Boundary List
open Function (comp_update update update_of_ne update_self)

/-- The part of a descriptor that nobody else writes while the buffer is in use. -/
def Desc.tag (x : Desc) : Eid × BitVec 16 × Int × Int := (x.eid, x.ref, x.memBinIndex, x.totalSize)

variable {p q : Pool} {e e' : Eid} {d x : Nat} {t : Int} {r : BitVec 16} {B C : Set Nat} {hole : Option Nat}
  {actual index : Nat}

namespace Pool
variable {y : Desc} {m : KuplMemory}

lemma setDesc_keeps {α : Type} (f : Desc → α) (same : f y = f (p.desc d)) :
    f ((p.setDesc d y).desc x) = f (p.desc x) := by
  show f (update p.desc d y x) = _
  by_cases h : x = d
  · subst h
    rw [update_self, same]
  · rw [update_of_ne h]

lemma setDesc_of_ne (ne : x ≠ d) : (p.setDesc d y).desc x = p.desc x := update_of_ne ne _ _

lemma setDesc_self : (p.setDesc d y).desc d = y := update_self ..

lemma mem_setMem_self : (p.setMem e m).mem e = m := update_self ..

lemma mem_setMem_of_ne (ne : e' ≠ e) : (p.setMem e m).mem e' = p.mem e' :=
  update_of_ne ne _ _

@[simp] lemma arena_setTotal : (p.setTotal d t).arena = p.arena.setTotal d t := by
  have total : (p.setTotal d t).arena.total = update p.arena.total d t :=
    comp_update Desc.totalSize p.desc d _
  have prev : (p.setTotal d t).arena.prevFree = p.arena.prevFree := funext fun x => setDesc_keeps Desc.prevFree rfl
  rw [Arena.setTotal, ← total, ← prev]
  rfl

@[simp] lemma arena_setPrev : (p.setPrev d t).arena = { p.arena with prevFree := update p.arena.prevFree d t } := by
  have total : (p.setPrev d t).arena.total = p.arena.total := funext fun x => setDesc_keeps Desc.totalSize rfl
  have prev : (p.setPrev d t).arena.prevFree = update p.arena.prevFree d t :=
    comp_update Desc.prevFree p.desc d _
  calc (p.setPrev d t).arena = { p.arena with
          total := (p.setPrev d t).arena.total, prevFree := (p.setPrev d t).arena.prevFree } := rfl
    _ = { p.arena with prevFree := update p.arena.prevFree d t } := by rw [total, prev]

lemma arena_setDesc (total : y.totalSize = (p.desc d).totalSize)
    (prev : y.prevFree = (p.desc d).prevFree) : (p.setDesc d y).arena = p.arena := by
  have total' : (p.setDesc d y).arena.total = p.arena.total := funext fun x => setDesc_keeps Desc.totalSize total
  have prev' : (p.setDesc d y).arena.prevFree = p.arena.prevFree := funext fun x => setDesc_keeps Desc.prevFree prev
  calc (p.setDesc d y).arena = { p.arena with
          total := (p.setDesc d y).arena.total, prevFree := (p.setDesc d y).arena.prevFree } := rfl
    _ = p.arena := by rw [total', prev']

@[simp] lemma arena_setRef : (p.setRef d r).arena = p.arena := arena_setDesc rfl rfl
@[simp] lemma arena_setIndex : (p.setIndex d t).arena = p.arena := arena_setDesc rfl rfl
@[simp] lemma arena_setEid : (p.setEid e d).arena = p.arena := arena_setDesc rfl rfl

@[simp] lemma eid_setTotal : ((p.setTotal d t).desc x).eid = (p.desc x).eid := setDesc_keeps Desc.eid rfl
@[simp] lemma eid_setPrev : ((p.setPrev d t).desc x).eid = (p.desc x).eid := setDesc_keeps Desc.eid rfl
@[simp] lemma eid_setRef : ((p.setRef d r).desc x).eid = (p.desc x).eid := setDesc_keeps Desc.eid rfl
@[simp] lemma eid_setIndex : ((p.setIndex d t).desc x).eid = (p.desc x).eid := setDesc_keeps Desc.eid rfl

@[simp] lemma index_setTotal : ((p.setTotal d t).desc x).memBinIndex = (p.desc x).memBinIndex :=
  setDesc_keeps Desc.memBinIndex rfl
@[simp] lemma index_setPrev : ((p.setPrev d t).desc x).memBinIndex = (p.desc x).memBinIndex :=
  setDesc_keeps Desc.memBinIndex rfl
@[simp] lemma index_setRef : ((p.setRef d r).desc x).memBinIndex = (p.desc x).memBinIndex :=
  setDesc_keeps Desc.memBinIndex rfl

@[simp] lemma total_setPrev : ((p.setPrev d t).desc x).totalSize = (p.desc x).totalSize :=
  setDesc_keeps Desc.totalSize rfl
@[simp] lemma total_setRef : ((p.setRef d r).desc x).totalSize = (p.desc x).totalSize :=
  setDesc_keeps Desc.totalSize rfl

@[simp] lemma ref_setRef : ((p.setRef d r).desc d).ref = r := congrArg Desc.ref setDesc_self

@[simp] lemma tag_setPrev : ((p.setPrev d t).desc x).tag = (p.desc x).tag := setDesc_keeps Desc.tag rfl

lemma total_eq : (p.desc d).totalSize = p.arena.total d := rfl

lemma stop_eq (pos : 0 < (p.desc d).totalSize) : d + (p.desc d).totalSize.toNat = p.arena.stop d := by
  rw [Arena.stop, ← total_eq]
  omega

lemma arena_setMem (bins : m.memBins = (p.mem e).memBins) : (p.setMem e m).arena = p.arena := by
  have same (e') : ((p.setMem e m).mem e').memBins = (p.mem e').memBins := by
    by_cases h : e' = e
    · subst h
      rw [mem_setMem_self, bins]
    · rw [mem_setMem_of_ne h]
  calc (p.setMem e m).arena
      = { p.arena with listed := {d | ∃ e' i, d ∈ ((p.setMem e m).mem e').memBins i} } := rfl
    _ = p.arena := by simp only [same]; rfl

@[simp] lemma arena_decCount : (p.decCount e index).arena = p.arena := arena_setMem rfl

end Pool

namespace Pool

section Split
variable {u : Nat} (user : d + ((p.desc d).totalSize - actual).toNat = u) (ne : d ≠ u)
include user ne

lemma splitTags_user :
    ((p.splitTags d actual).desc u).tag = ((p.desc d).eid, (p.desc u).ref, (p.desc d).memBinIndex,
      -(actual : Int)) := by
  simp only [splitTags, tag_setPrev, user]
  simp only [setTotal, setIndex, setEid, setDesc, Desc.tag, update_self, update_of_ne ne, update_of_ne ne.symm]

lemma splitTags_self : ((p.splitTags d actual).desc d).tag =
      ((p.desc d).eid, (p.desc d).ref, (p.desc d).memBinIndex, (p.desc d).totalSize - actual) := by
  simp only [splitTags, tag_setPrev, user]
  simp only [setTotal, setIndex, setEid, setDesc, Desc.tag, update_self, update_of_ne ne]

lemma arena_splitTags (isU : p.arena.stop d - actual = u) (fill : u + actual = p.arena.stop d) :
    (p.splitTags d actual).arena = p.arena.splitAt d actual := by
  simp only [splitTags, user, arena_setPrev, arena_setTotal, arena_setIndex, arena_setEid]
  simp only [total_eq, arena_setTotal, arena_setIndex, arena_setEid, Arena.setTotal_of_ne ne, Arena.setTotal_self]
  rw [Arena.splitAt, isU, fill]
  rfl

omit ne in
lemma splitTags_other (isD : x ≠ d) (isU : x ≠ u) : ((p.splitTags d actual).desc x).tag = (p.desc x).tag := by
  simp only [splitTags, tag_setPrev, user]
  simp only [setTotal, setIndex, setEid, setDesc, update_of_ne isD, update_of_ne isU]

end Split

lemma chunkTags_eq : p.chunkTags e d =
    ((((((p.setEid e d).setRef d 1).setTotal d (layout.tail : Nat)).setPrev d 0).setPrev (d + layout.tail)
      (layout.tail : Nat)).setEid e (d + layout.tail)).setTotal (d + layout.tail) (-1) := by
  have total : ((((p.setEid e d).setRef d 1).setTotal d (layout.tail : Nat)).desc d).totalSize =
    (layout.tail : Nat) := by
    rw [setTotal, setDesc_self]
  have tail : ((memChunkGrowSize - descSize : Nat) : Int) = (layout.tail : Nat) := rfl
  simp only [chunkTags, tail, total_setPrev, total, Int.toNat_natCast]

lemma arena_chunkTags : (p.chunkTags e d).arena = { p.arena.addChunk layout.tail d with bases := p.arena.bases } := by
  rw [chunkTags_eq]
  simp only [arena_setTotal, arena_setPrev, arena_setRef, arena_setEid]
  rfl

lemma chunkTags_self : ((p.chunkTags e d).desc d).eid = e ∧
    ((p.chunkTags e d).desc d).totalSize = (layout.tail : Nat) := by
  have write {n : Nat} {t : Int} (ne : d ≠ n) :
      let q := ((((((p.setEid e d).setRef d 1).setTotal d t).setPrev d 0).setPrev n t).setEid e n).setTotal n (-1)
      (q.desc d).eid = e ∧ (q.desc d).totalSize = t := by
    simp only [setTotal, setPrev, setRef, setEid, setDesc, update_self, update_of_ne ne, and_self]
  rw [chunkTags_eq]
  exact write (Nat.ne_of_lt (Nat.lt_add_of_pos_right (Nat.lt_of_lt_of_le layout.pos layout.fits)))

lemma chunkTags_other (ne : x ≠ d) (isT : x ≠ d + layout.tail) : (p.chunkTags e d).desc x = p.desc x := by
  rw [chunkTags_eq]
  simp only [setTotal, setPrev, setRef, setEid, setDesc, update_of_ne ne, update_of_ne isT]

end Pool

structure Lists (p : Pool) : Prop where
  binned : ∀ e i d, d ∈ (p.mem e).memBins i → (p.desc d).eid = e
  once : ∀ e i j d, d ∈ (p.mem e).memBins i → d ∈ (p.mem e).memBins j → i = j
  nodup : ∀ e i, ((p.mem e).memBins i).Nodup
  chunks : p.chunks.Nodup

namespace Lists

section
variable (L : Lists p)
include L

lemma setDesc {y : Desc} (eid : y.eid = (p.desc d).eid) : Lists (p.setDesc d y) where
  binned e i x h := (Pool.setDesc_keeps Desc.eid eid).trans (L.binned e i x h)
  once := L.once
  nodup := L.nodup
  chunks := L.chunks

lemma congr (mem : q.mem = p.mem) (chunks : q.chunks = p.chunks)
    (eid : ∀ x ∈ p.arena.listed, (q.desc x).eid = (p.desc x).eid) : Lists q where
  binned e i x h := by
    rw [mem] at h
    exact (eid x ⟨e, i, h⟩).trans (L.binned e i x h)
  once := by
    rw [mem]
    exact L.once
  nodup := by
    rw [mem]
    exact L.nodup
  chunks := by
    rw [chunks]
    exact L.chunks

lemma setMem {m : KuplMemory} (binned : ∀ i d, d ∈ m.memBins i → (p.desc d).eid = e)
    (once : ∀ i j d, d ∈ m.memBins i → d ∈ m.memBins j → i = j) (nodup : ∀ i, (m.memBins i).Nodup) :
    Lists (p.setMem e m) := by
  refine ⟨fun e' i d h => ?_, fun e' i j d hi hj => ?_, fun e' i => ?_, L.chunks⟩
  · by_cases same : e' = e
    · subst same
      rw [Pool.mem_setMem_self] at h
      exact binned i d h
    · rw [Pool.mem_setMem_of_ne same] at h
      exact L.binned e' i d h
  · by_cases same : e' = e
    · subst same
      rw [Pool.mem_setMem_self] at hi hj
      exact once i j d hi hj
    · rw [Pool.mem_setMem_of_ne same] at hi hj
      exact L.once e' i j d hi hj
  · by_cases same : e' = e
    · subst same
      rw [Pool.mem_setMem_self]
      exact nodup i
    · rw [Pool.mem_setMem_of_ne same]
      exact L.nodup e' i

lemma decCount : Lists (p.decCount e index) := L.setMem (L.binned e) (L.once e) (L.nodup e)

lemma listDel : Lists (p.listDel e d) := by
  apply L.setMem
  · exact fun i x h => L.binned e i x (mem_of_mem_erase h)
  · exact fun i j x hi hj => L.once e i j x (mem_of_mem_erase hi) (mem_of_mem_erase hj)
  · exact fun i => (L.nodup e i).erase d

lemma insert (own : (p.desc d).eid = e) (out : d ∉ p.arena.listed) : Lists (p.insertIntoFreelist e d) := by
  have out' (i) : d ∉ (p.mem e).memBins i := fun h => out ⟨e, i, h⟩
  have L' : Lists (p.setIndex d (kuplGetBinIndex (p.desc d).totalSize.toNat memoryBinSize : Nat)) := L.setDesc rfl
  have cases {i x : Nat} (h : x ∈ update (p.mem e).memBins (kuplGetBinIndex (p.desc d).totalSize.toNat memoryBinSize)
      (d :: (p.mem e).memBins (kuplGetBinIndex (p.desc d).totalSize.toNat memoryBinSize)) i) :
      x ∈ (p.mem e).memBins i ∨ x = d ∧ i = kuplGetBinIndex (p.desc d).totalSize.toNat memoryBinSize := by
    by_cases same : i = kuplGetBinIndex (p.desc d).totalSize.toNat memoryBinSize
    · rw [same, update_self] at h
      rw [same]
      exact (mem_cons.1 h).elim (fun e => .inr ⟨e, rfl⟩) .inl
    · rw [update_of_ne same] at h
      exact .inl h
  apply L'.setMem
  · intro i x h
    rw [Pool.eid_setIndex]
    obtain old | ⟨rfl, -⟩ := cases h
    · exact L.binned e i x old
    · exact own
  · intro i j x hi hj
    obtain old | ⟨rfl, isI⟩ := cases hi
    · obtain old' | ⟨rfl, -⟩ := cases hj
      · exact L.once e i j x old old'
      · exact absurd old (out' i)
    · obtain old' | ⟨-, isJ⟩ := cases hj
      · exact absurd old' (out' j)
      · exact isI.trans isJ.symm
  · intro i
    show (update (p.mem e).memBins _ _ i).Nodup
    by_cases same : i = kuplGetBinIndex (p.desc d).totalSize.toNat memoryBinSize
    · rw [same, update_self]
      exact nodup_cons.2 ⟨out' _, L.nodup e _⟩
    · rw [update_of_ne same]
      exact L.nodup e i

lemma arena_listDel (own : (p.desc d).eid = e) :
    (p.listDel e d).arena = { p.arena with listed := p.arena.listed \ {d} } := by
  have same : (p.listDel e d).arena.listed = p.arena.listed \ {d} := by
    ext x
    have self : ((p.listDel e d).mem e).memBins = fun i => ((p.mem e).memBins i).erase d := by
      rw [Pool.listDel, Pool.mem_setMem_self]
    constructor
    · rintro ⟨e', i, h⟩
      by_cases he : e' = e
      · subst he
        rw [self] at h
        refine ⟨⟨e', i, mem_of_mem_erase h⟩, ?_⟩
        rintro rfl
        exact (L.nodup e' i).not_mem_erase h
      · rw [Pool.listDel, Pool.mem_setMem_of_ne he] at h
        refine ⟨⟨e', i, h⟩, ?_⟩
        rintro rfl
        exact he ((L.binned e' i x h).symm.trans own)
    · rintro ⟨⟨e', i, h⟩, ne⟩
      refine ⟨e', i, ?_⟩
      by_cases he : e' = e
      · subst he
        rw [self]
        exact (mem_erase_of_ne ne).2 h
      · rw [show (p.listDel e d).mem e' = p.mem e' from update_of_ne he _ _]
        exact h
  rw [← same]
  rfl

end

end Lists

namespace Pool

lemma arena_insert : (p.insertIntoFreelist e d).arena = { p.arena with listed := insert d p.arena.listed } := by
  have listed : (p.insertIntoFreelist e d).arena.listed = insert d p.arena.listed := by
    ext x
    constructor
    · rintro ⟨e', i, h⟩
      by_cases he : e' = e
      · subst he
        rw [show (p.insertIntoFreelist e' d).mem e' = _ from update_self ..] at h
        dsimp only at h
        by_cases hi : i = kuplGetBinIndex (p.desc d).totalSize.toNat memoryBinSize
        · rw [hi, update_self] at h
          exact (mem_cons.1 h).imp id fun old => ⟨e', _, old⟩
        · rw [update_of_ne hi] at h
          exact .inr ⟨e', i, h⟩
      · rw [show (p.insertIntoFreelist e d).mem e' = p.mem e' from update_of_ne he _ _] at h
        exact .inr ⟨e', i, h⟩
    · intro h
      have self : ((p.insertIntoFreelist e d).mem e).memBins =
          update (p.mem e).memBins (kuplGetBinIndex (p.desc d).totalSize.toNat memoryBinSize)
            (d :: (p.mem e).memBins (kuplGetBinIndex (p.desc d).totalSize.toNat memoryBinSize)) := by
        rw [insertIntoFreelist, mem_setMem_self]
        rfl
      obtain rfl | ⟨e', i, h⟩ := h
      · refine ⟨e, kuplGetBinIndex (p.desc x).totalSize.toNat memoryBinSize, ?_⟩
        rw [self, update_self]
        exact mem_cons_self
      · refine ⟨e', i, ?_⟩
        by_cases he : e' = e
        · subst he
          rw [self]
          by_cases hi : i = kuplGetBinIndex (p.desc d).totalSize.toNat memoryBinSize
          · rw [hi, update_self]
            exact mem_cons_of_mem _ (hi ▸ h)
          · rw [update_of_ne hi]
            exact h
        · rw [show (p.insertIntoFreelist e d).mem e' = p.mem e' from update_of_ne he _ _]
          exact h
  calc (p.insertIntoFreelist e d).arena
      = { (p.setIndex d (kuplGetBinIndex (p.desc d).totalSize.toNat memoryBinSize : Nat)).arena with
          listed := (p.insertIntoFreelist e d).arena.listed } := rfl
    _ = { p.arena with listed := insert d p.arena.listed } := by rw [listed, arena_setIndex]

end Pool

/-- The tags and the lists of the pool fit the blocks; where `hole` is a block, it is worked on. -/
structure Heap (p : Pool) (B : Set Nat) (hole : Option Nat) : Prop where
  ok : Ok layout p.arena B hole
  lists : Lists p
  owner : ∀ c ∈ p.chunks, ∀ d ∈ B, c ≤ d → d < c + memChunkGrowSize → (p.desc d).eid = (p.desc c).eid
  index : ∀ d ∈ B, hole ≠ some d → 0 ≤ (p.desc d).memBinIndex

/-- The buffers in use keep their descriptors, and the sync lists their buffers. -/
structure Frame (p : Pool) (B : Set Nat) (q : Pool) (C : Set Nat) : Prop where
  kept : ∀ d ∈ B, (p.desc d).totalSize < 0 → d ∈ C ∧ (q.desc d).tag = (p.desc d).tag
  back : ∀ d ∈ C, (q.desc d).totalSize < 0 → d ∈ B ∧ (p.desc d).totalSize < 0
  sync : ∀ e, (q.mem e).memSyncList = (p.mem e).memSyncList

lemma Desc.tag_inj {a b : Desc} (same : a.tag = b.tag) :
    a.eid = b.eid ∧ a.ref = b.ref ∧ a.memBinIndex = b.memBinIndex ∧ a.totalSize = b.totalSize := by
  simpa only [Desc.tag, Prod.mk.injEq] using same

lemma Desc.tag_eq {a : Desc} {e : Eid} {i : Int} (same : a.tag = (e, r, i, t)) :
    a.eid = e ∧ a.ref = r ∧ a.memBinIndex = i ∧ a.totalSize = t := by
  simpa only [Desc.tag, Prod.mk.injEq] using same

namespace Frame

lemma trans {m : Pool} {D : Set Nat} (F : Frame p B q C) (G : Frame q C m D) : Frame p B m D where
  kept d mem used := by
    obtain ⟨mem', tag⟩ := F.kept d mem used
    obtain ⟨mem'', tag'⟩ := G.kept d mem' (by rw [(Desc.tag_inj tag).2.2.2]; exact used)
    exact ⟨mem'', tag'.trans tag⟩
  back d mem used := by
    obtain ⟨mem', used'⟩ := G.back d mem used
    exact F.back d mem' used'
  sync e := (G.sync e).trans (F.sync e)

end Frame

lemma Pool.sync_setMem {m : KuplMemory} (same : m.memSyncList = (p.mem e).memSyncList) :
    ((p.setMem e m).mem e').memSyncList = (p.mem e').memSyncList := by
  by_cases h : e' = e
  · subst h
    rw [mem_setMem_self, same]
  · rw [mem_setMem_of_ne h]

lemma Pool.sync_listDel : ((p.listDel e d).mem e').memSyncList = (p.mem e').memSyncList := sync_setMem rfl

lemma Pool.sync_decCount : ((p.decCount e index).mem e').memSyncList = (p.mem e').memSyncList := sync_setMem rfl

namespace Heap

lemma tail_lt : layout.tail < memChunkGrowSize := layout.inside

lemma next_own (K : Heap p B hole) (mem : d ∈ B) (next : p.arena.stop d ∈ B) :
    (p.desc (p.arena.stop d)).eid = (p.desc d).eid := by
  obtain ⟨c, hc, le, inside, -⟩ := K.ok.home d mem
  have up := K.ok.lt_stop mem
  have := tail_lt
  exact (K.owner c hc _ next (by omega) (by omega)).trans (K.owner c hc d mem le (by omega)).symm

lemma out (K : Heap p B (some d)) : d ∉ p.arena.listed := fun h => ((K.ok.listed d).1 h).2.2 rfl

lemma insert (K : Heap p B (some d)) (mem : d ∈ B) (pos : 0 < (p.desc d).totalSize) (own : (p.desc d).eid = e)
    (tag : p.arena.prevFree (p.arena.stop d) ≠ 0 → p.arena.prevFree (p.arena.stop d) = p.arena.total d) :
    Heap (p.insertIntoFreelist e d) B none ∧ Frame p B (p.insertIntoFreelist e d) B := by
  have desc : (p.insertIntoFreelist e d).desc =
    (p.setIndex d (kuplGetBinIndex (p.desc d).totalSize.toNat memoryBinSize : Nat)).desc := rfl
  have total (x) : ((p.insertIntoFreelist e d).desc x).totalSize = (p.desc x).totalSize := by
    rw [desc]
    exact Pool.setDesc_keeps Desc.totalSize rfl
  refine ⟨⟨?_, K.lists.insert own K.out, fun c hc x hx le lt => ?_, fun x hx _ => ?_⟩,
    fun x hx used => ⟨hx, ?_⟩,
    fun x hx used => ⟨hx, by rwa [total] at used⟩, fun e' => ?_⟩
  · rw [Pool.arena_insert]
    exact K.ok.link mem pos tag
  · rw [desc, Pool.eid_setIndex, Pool.eid_setIndex]
    exact K.owner c hc x hx le lt
  · rw [desc]
    by_cases same : x = d
    · subst same
      rw [Pool.setIndex, Pool.setDesc_self]
      exact Int.natCast_nonneg _
    · rw [Pool.setIndex, Pool.setDesc_of_ne same]
      exact K.index x hx fun e => same (Option.some.inj e).symm
  · have ne : x ≠ d := by
      rintro rfl
      omega
    rw [desc, Pool.setIndex, Pool.setDesc_of_ne ne]
  · exact Pool.sync_setMem rfl

lemma absorbed {a b : Nat} (index : Nat) (K : Heap p B (some d)) (ha : a ∈ B) (hb : b ∈ B)
    (stop : p.arena.stop a = b)
    (posa : 0 < (p.desc a).totalSize) (posb : 0 < (p.desc b).totalSize) {o : Nat} (own : (p.desc o).eid = e)
    (cases : d = a ∧ o = b ∨ d = b ∧ o = a) :
    let q := ((p.setTotal a ((p.desc a).totalSize + (p.desc b).totalSize)).listDel e o).decCount e index
    Heap q (B \ {b}) (some a) ∧ Frame p B q (B \ {b}) ∧
      (q.desc a).totalSize = (p.desc a).totalSize + (p.desc b).totalSize ∧
      ∀ x, (q.desc x).eid = (p.desc x).eid := by
  intro q
  have L : Lists (p.setTotal a ((p.desc a).totalSize + (p.desc b).totalSize)) := K.lists.setDesc rfl
  have own' : ((p.setTotal a ((p.desc a).totalSize + (p.desc b).totalSize)).desc o).eid = e := by
    rw [Pool.eid_setTotal]
    exact own
  have two : p.arena.listed \ {o} = p.arena.listed \ {a, b} := by
    ext x
    have out := K.out
    constructor
    · rintro ⟨h, ne⟩
      refine ⟨h, fun mem => ?_⟩
      have isD : x ≠ d := fun e => out (e ▸ h)
      have isO : x ≠ o := ne
      obtain ⟨rfl, rfl⟩ | ⟨rfl, rfl⟩ := cases
      · exact mem.elim isD isO
      · exact mem.elim isO isD
    · rintro ⟨h, ne⟩
      refine ⟨h, fun mem => ne ?_⟩
      have isO : x = o := mem
      obtain ⟨rfl, rfl⟩ | ⟨rfl, rfl⟩ := cases
      · exact .inr isO
      · exact .inl isO
  have total : (q.desc a).totalSize = (p.desc a).totalSize + (p.desc b).totalSize :=
    congrArg Desc.totalSize Pool.setDesc_self
  have eid (x) : (q.desc x).eid = (p.desc x).eid := Pool.eid_setTotal
  have arena : q.arena = { p.arena.setTotal a (p.arena.total a + p.arena.total b) with
      listed := p.arena.listed \ {a, b} } := by
    rw [Pool.arena_decCount, L.arena_listDel own', Pool.arena_setTotal, ← two]
    rfl
  refine ⟨⟨?_, L.listDel.decCount, fun c hc x hx le lt => ?_, fun x hx ne => ?_⟩,
    ⟨fun x hx used => ?_, fun x hx used => ⟨hx.1, ?_⟩, fun e' => ?_⟩, total, eid⟩
  · rw [arena]
    exact K.ok.absorb ha hb stop posa posb (cases.imp (fun h => congrArg some h.1) fun h => congrArg some h.1)
  · rw [eid, eid]
    exact K.owner c hc x hx.1 le lt
  · have keeps : (q.desc x).memBinIndex = (p.desc x).memBinIndex := Pool.index_setTotal
    rw [keeps]
    apply K.index x hx.1
    rintro e
    obtain ⟨rfl, -⟩ | ⟨rfl, -⟩ := cases
    · exact ne e
    · exact hx.2 (Option.some.inj e).symm
  · have isA : x ≠ a := by
      rintro rfl
      omega
    have isB : x ≠ b := by
      rintro rfl
      omega
    exact ⟨⟨hx, isB⟩, congrArg Desc.tag (Pool.setDesc_of_ne isA)⟩
  · have isA : x ≠ a := by
      rintro rfl
      omega
    rwa [show q.desc x = p.desc x from Pool.setDesc_of_ne isA] at used
  · exact Pool.sync_decCount.trans Pool.sync_listDel

/-- What a function makes of a free block that is worked on. -/
structure Merged (p : Pool) (B : Set Nat) (d : Nat) (q : Pool) (C : Set Nat) (d' : Nat) : Prop where
  heap : Heap q C (some d')
  frame : Frame p B q C
  mem : d' ∈ C
  pos : 0 < (q.desc d').totalSize
  own : (q.desc d').eid = (p.desc d).eid

lemma mergePrev (index : Nat) (K : Heap p B (some d)) (mem : d ∈ B) (pos : 0 < (p.desc d).totalSize) :
    ∃ C, Merged p B d (p.mergePrev (p.desc d).eid d index).1 C (p.mergePrev (p.desc d).eid d index).2 := by
  unfold Pool.mergePrev
  by_cases ne : (p.desc d).prevFree ≠ 0
  · obtain ⟨a, -, ha, stop, posa, tag, is⟩ := K.ok.before mem rfl ne
    have isA : d - (p.desc d).prevFree.toNat = a := is.symm
    have own : (p.desc a).eid = (p.desc d).eid := by
      have := K.next_own ha (stop ▸ mem)
      rw [stop] at this
      exact this.symm
    rw [if_pos ne]
    rw [isA]
    obtain ⟨heap, frame, total, eid⟩ := K.absorbed index ha mem stop posa pos own (.inr ⟨rfl, rfl⟩)
    refine ⟨B \ {d}, heap, frame, ⟨ha, ?_⟩, ?_, (eid a).trans own⟩
    · rintro e
      have := K.ok.lt_stop ha
      have e : a = d := e
      omega
    · have posa : 0 < (p.desc a).totalSize := posa
      rw [total]
      omega
  · rw [if_neg ne]
    exact ⟨B, K, ⟨fun x hx _ => ⟨hx, rfl⟩, fun x hx used => ⟨hx, used⟩, fun _ => rfl⟩, mem, pos, rfl⟩

lemma mergeNext (index : Nat) (K : Heap p B (some d)) (mem : d ∈ B) (pos : 0 < (p.desc d).totalSize) :
    ∃ C, Merged p B d (p.mergeNext (p.desc d).eid d index) C d := by
  unfold Pool.mergeNext
  rw [Pool.stop_eq pos]
  by_cases free : 0 < (p.desc (p.arena.stop d)).totalSize
  · have next : p.arena.stop d ∈ B := by
      obtain ⟨c, hc, -, -, next | tail⟩ := K.ok.home d mem
      · exact next
      · have := K.ok.dummy c hc
        rw [← tail, ← Pool.total_eq] at this
        omega
    rw [if_pos free]
    obtain ⟨heap, frame, total, eid⟩ :=
      K.absorbed index mem next rfl pos free (K.next_own mem next) (.inl ⟨rfl, rfl⟩)
    refine ⟨B \ {p.arena.stop d}, heap, frame, ⟨mem, ?_⟩, ?_, eid d⟩
    · exact Nat.ne_of_lt (K.ok.lt_stop mem)
    · rw [total]
      omega
  · rw [if_neg free]
    exact ⟨B, K, ⟨fun x hx _ => ⟨hx, rfl⟩, fun x hx used => ⟨hx, used⟩, fun _ => rfl⟩, mem, pos, rfl⟩

lemma tellNext (K : Heap p B (some d)) (mem : d ∈ B) (pos : 0 < (p.desc d).totalSize) :
    Merged p B d (p.tellNext d) B d ∧
      (p.tellNext d).arena.prevFree ((p.tellNext d).arena.stop d) = (p.tellNext d).arena.total d := by
  have arena : (p.tellNext d).arena = { p.arena with
      prevFree := update p.arena.prevFree (p.arena.stop d) (p.arena.total d) } := by
    rw [Pool.tellNext, Pool.arena_setPrev, Pool.stop_eq pos, Pool.total_eq]
  refine ⟨⟨⟨?_, K.lists.setDesc rfl, fun c hc x hx le lt => ?_, fun x hx ne => ?_⟩,
    ⟨fun x hx used => ⟨hx, Pool.tag_setPrev⟩, fun x hx used => ⟨hx, ?_⟩, fun _ => rfl⟩, mem, ?_,
      Pool.eid_setPrev⟩, ?_⟩
  · rw [arena]
    exact K.ok.setPrev mem _
  · rw [Pool.tellNext, Pool.eid_setPrev, Pool.eid_setPrev]
    exact K.owner c hc x hx le lt
  · rw [Pool.tellNext, Pool.index_setPrev]
    exact K.index x hx ne
  · rwa [Pool.tellNext, Pool.total_setPrev] at used
  · rw [Pool.tellNext, Pool.total_setPrev]
    exact pos
  · rw [arena]
    exact update_self ..

lemma unmap (K : Heap p B (some d)) (mem : d ∈ B)
    (whole : (p.desc d).totalSize = ((memChunkGrowSize - descSize : Nat) : Int)) :
    Heap (p.unmap d) (B \ {d}) none ∧ Frame p B (p.unmap d) (B \ {d}) := by
  have hd : d ∈ p.arena.bases := K.ok.whole_base mem whole
  have bases : (p.unmap d).arena = { p.arena with bases := p.arena.bases \ {d} } := by
    have same : (p.unmap d).arena.bases = p.arena.bases \ {d} := by
      ext c
      exact K.lists.chunks.mem_erase_iff.trans and_comm
    rw [← same]
    rfl
  refine ⟨⟨?_, ⟨K.lists.binned, K.lists.once, K.lists.nodup, K.lists.chunks.erase d⟩, fun c hc x hx => ?_,
    fun x hx _ => ?_⟩, fun x hx used => ⟨⟨hx, ?_⟩, rfl⟩, fun x hx used => ⟨hx.1, used⟩, fun _ => rfl⟩
  · rw [bases]
    exact K.ok.unmap hd whole
  · exact K.owner c (mem_of_mem_erase hc) x hx.1
  · exact K.index x hx.1 fun e => hx.2 (Option.some.inj e).symm
  · rintro e
    have e : x = d := e
    subst e
    have large : (0 : Int) ≤ ((memChunkGrowSize - descSize : Nat) : Int) := Int.natCast_nonneg _
    omega

lemma release (K : Heap p B none) (mem : d ∈ B) (used : (p.desc d).totalSize < 0) :
    Heap (p.setTotal d (-(p.desc d).totalSize)) B (some d) := by
  refine ⟨?_, K.lists.setDesc rfl, fun c hc x hx le lt => ?_, fun x hx ne => ?_⟩
  · rw [Pool.arena_setTotal]
    exact K.ok.release mem used
  · rw [Pool.eid_setTotal, Pool.eid_setTotal]
    exact K.owner c hc x hx le lt
  · rw [Pool.index_setTotal]
    exact K.index x hx nofun

lemma freeOwn (K : Heap p B none) (mem : d ∈ B) (used : (p.desc d).totalSize < 0) :
    ∃ C, Heap (p.freeOwn (p.desc d).eid d) C none ∧ (∀ x ∈ B, x ≠ d → (p.desc x).totalSize < 0 →
        x ∈ C ∧ ((p.freeOwn (p.desc d).eid d).desc x).tag = (p.desc x).tag) ∧
      (∀ x ∈ C, ((p.freeOwn (p.desc d).eid d).desc x).totalSize < 0 → x ∈ B ∧ x ≠ d ∧
        (p.desc x).totalSize < 0) ∧
      ∀ e, ((p.freeOwn (p.desc d).eid d).mem e).memSyncList = (p.mem e).memSyncList := by
  obtain ⟨m, isM⟩ : ∃ m, m = p.setTotal d (-(p.desc d).totalSize) := ⟨_, rfl⟩
  have eid : (m.desc d).eid = (p.desc d).eid := by
    rw [isM]
    exact Pool.eid_setTotal
  have pos : 0 < (m.desc d).totalSize := by
    rw [isM, Pool.setTotal, Pool.setDesc_self]
    exact Int.neg_pos_of_neg used
  have other {x : Nat} (ne : x ≠ d) : m.desc x = p.desc x := by
    rw [isM]
    exact Pool.setDesc_of_ne ne
  have sync (e) : (m.mem e).memSyncList = (p.mem e).memSyncList := by
    rw [isM]
    rfl
  have arena : m.arena = p.arena.setTotal d (-p.arena.total d) := by
    rw [isM]
    exact Pool.arena_setTotal
  have K' : Heap m B (some d) := by
    rw [isM]
    exact K.release mem used
  -- what the rest of the function does to `m` it does to the other buffers of `p`
  have finish {q : Pool} {C : Set Nat} (heap : Heap q C none) (frame : Frame m B q C) :
      ∃ C, Heap q C none ∧ (∀ x ∈ B, x ≠ d → (p.desc x).totalSize < 0 → x ∈ C ∧
        (q.desc x).tag = (p.desc x).tag) ∧
        (∀ x ∈ C, (q.desc x).totalSize < 0 → x ∈ B ∧ x ≠ d ∧ (p.desc x).totalSize < 0) ∧
        ∀ e, (q.mem e).memSyncList = (p.mem e).memSyncList := by
    refine ⟨C, heap, fun x hx ne used => ?_, fun x hx used => ?_, fun e => (frame.sync e).trans (sync e)⟩
    · have kept := frame.kept x hx (by rw [other ne]; exact used)
      rw [other ne] at kept
      exact kept
    · obtain ⟨hx', used'⟩ := frame.back x hx used
      have ne : x ≠ d := by
        rintro rfl
        omega
      rw [other ne] at used'
      exact ⟨hx', ne, used'⟩
  unfold Pool.freeOwn
  dsimp only
  rw [← isM, ← eid]
  split
  · have zero := K.ok.prev_zero mem nofun used
    obtain ⟨heap, frame⟩ := K'.insert mem pos rfl fun ne => by
      rw [arena, Arena.stop_neg] at ne
      exact absurd zero ne
    exact finish heap frame
  · obtain ⟨C, P⟩ := K'.mergePrev (m.desc d).memBinIndex.toNat mem pos
    obtain ⟨a, isA⟩ : ∃ a, a = (m.mergePrev (m.desc d).eid d (m.desc d).memBinIndex.toNat).2 := ⟨_, rfl⟩
    obtain ⟨m₁, isM₁⟩ : ∃ m₁, m₁ = (m.mergePrev (m.desc d).eid d (m.desc d).memBinIndex.toNat).1 :=
      ⟨_, rfl⟩
    rw [← isA, ← isM₁] at P ⊢
    rw [← P.own]
    obtain ⟨D, N⟩ := P.heap.mergeNext (m.desc d).memBinIndex.toNat P.mem P.pos
    obtain ⟨m₂, isM₂⟩ : ∃ m₂, m₂ = m₁.mergeNext (m₁.desc a).eid a (m.desc d).memBinIndex.toNat :=
      ⟨_, rfl⟩
    rw [← isM₂] at N ⊢
    obtain ⟨T, tag⟩ := N.heap.tellNext N.mem N.pos
    have frame := (P.frame.trans N.frame).trans T.frame
    rw [← N.own, ← T.own]
    split
    · rename_i whole
      obtain ⟨heap, last⟩ := T.heap.unmap T.mem whole.1
      exact finish heap (frame.trans last)
    · obtain ⟨heap, last⟩ := T.heap.insert T.mem T.pos rfl fun _ => tag
      exact finish heap (frame.trans last)

/-- A function handed out the buffer behind the descriptor `u`, for a request of `actual` bytes. -/
structure Handed (p : Pool) (B : Set Nat) (e : Eid) (actual : Nat) (q : Pool) (C : Set Nat) (u : Nat) : Prop where
  heap : Heap q C none
  kept : ∀ d ∈ B, (p.desc d).totalSize < 0 → d ∈ C ∧ (q.desc d).tag = (p.desc d).tag
  back : ∀ d ∈ C, (q.desc d).totalSize < 0 → d = u ∨ d ∈ B ∧ (p.desc d).totalSize < 0
  sync : ∀ e, (q.mem e).memSyncList = (p.mem e).memSyncList
  mem : u ∈ C
  size : (q.desc u).totalSize ≤ -(actual : Int)
  ref : (q.desc u).ref = 1
  own : (q.desc u).eid = e
  new : u ∈ B → 0 < (p.desc u).totalSize

lemma setRef (K : Heap p B hole) : Heap (p.setRef d r) B hole := by
  refine ⟨?_, K.lists.setDesc rfl, fun c hc x hx le lt => ?_, fun x hx ne => ?_⟩
  · rw [Pool.arena_setRef]
    exact K.ok
  · rw [Pool.eid_setRef, Pool.eid_setRef]
    exact K.owner c hc x hx le lt
  · rw [Pool.index_setRef]
    exact K.index x hx ne

section
variable (K : Heap p B none)
include K

lemma splitBuffer (mem : d ∈ B) (least : descSize ≤ actual)
    (rest : (minBufferSize : Int) ≤ (p.desc d).totalSize - actual) :
    ∃ C u, (p.splitBuffer (p.desc d).eid d actual index).2 = u + descSize ∧
      Handed p B (p.desc d).eid actual (p.splitBuffer (p.desc d).eid d actual index).1 C u := by
  have small : (layout.least : Int) ≤ (minBufferSize : Int) := by decide
  have positive : (0 : Int) < (minBufferSize : Int) := by decide
  have pos : 0 < (p.desc d).totalSize := by omega
  have room : (layout.least : Int) ≤ p.arena.total d - actual := by
    rw [Pool.total_eq] at rest
    omega
  have K₁ := K.ok.unlink d
  obtain ⟨u, hu⟩ : ∃ u, p.arena.stop d - actual = u := ⟨_, rfl⟩
  obtain ⟨new, up, fill⟩ := K₁.split_mem mem least room
  have new : u ∉ B := hu ▸ new
  have up : d < u := hu ▸ up
  have fill : u + actual = p.arena.stop d := hu ▸ fill
  have ne : d ≠ u := Nat.ne_of_lt up
  have user : d + ((p.desc d).totalSize - actual).toNat = u := by
    rw [← hu, ← Pool.stop_eq pos]
    omega
  have out : u ∉ p.arena.listed := fun h => new ((K.ok.listed u).1 h).1
  obtain ⟨q, isQ⟩ : ∃ q, q = p.splitTags d actual := ⟨_, rfl⟩
  have tagU := Desc.tag_eq (isQ ▸ Pool.splitTags_user user ne)
  have tagD := Desc.tag_eq (isQ ▸ Pool.splitTags_self user ne)
  have tagX {x : Nat} (isD : x ≠ d) (isU : x ≠ u) : (q.desc x).tag = (p.desc x).tag :=
    isQ ▸ Pool.splitTags_other user isD isU
  have eid {x : Nat} (isU : x ≠ u) : (q.desc x).eid = (p.desc x).eid := by
    by_cases isD : x = d
    · rw [isD]
      exact tagD.1
    · exact (Desc.tag_inj (tagX isD isU)).1
  have L : Lists q := by
    apply K.lists.congr (by rw [isQ]; rfl) (by rw [isQ]; rfl)
    rintro x hx
    apply eid
    rintro rfl
    exact out hx
  obtain ⟨m, isM⟩ : ∃ m, m = (q.listDel (p.desc d).eid d).decCount (p.desc d).eid index := ⟨_, rfl⟩
  have desc : m.desc = q.desc := by
    rw [isM]
    rfl
  have chunks : m.chunks = p.chunks := by
    rw [isM, isQ]
    rfl
  have arena : m.arena = { p.arena with listed := p.arena.listed \ {d} }.splitAt d actual := by
    rw [isM, Pool.arena_decCount, L.arena_listDel tagD.1, isQ, Pool.arena_splitTags user ne hu fill]
    rfl
  have sync (e) : (m.mem e).memSyncList = (p.mem e).memSyncList := by
    rw [isM, Pool.sync_decCount, Pool.sync_listDel, isQ]
    rfl
  have M : Heap m (Insert.insert u B) (some d) := by
    refine ⟨?_, ?_, fun c hc x hx le lt => ?_, fun x hx other => ?_⟩
    · rw [arena, ← hu]
      exact K₁.split mem least room
    · rw [isM]
      exact L.listDel.decCount
    · rw [chunks] at hc
      have isC : c ≠ u := fun e => new (e ▸ K.ok.base c hc)
      rw [desc, eid isC]
      obtain rfl | hx := hx
      · rw [tagU.1]
        obtain ⟨c', hc', le', inside, -⟩ := K.ok.home d mem
        have := tail_lt
        obtain rfl := K.ok.same_chunk hc hc' le lt (by omega) (show x < c' + memChunkGrowSize by omega)
        exact K.owner c hc d mem le' (by omega)
      · rw [eid fun e => new (e ▸ hx)]
        exact K.owner c hc x hx le lt
    · rw [desc]
      obtain rfl | hx := hx
      · rw [tagU.2.2.1]
        exact K.index d mem nofun
      · have isD : x ≠ d := fun e => other (congrArg some e.symm)
        rw [(Desc.tag_inj (tagX isD fun e => new (e ▸ hx))).2.2.1]
        exact K.index x hx nofun
  have other {x : Nat} (hx : x ∈ B) (ne : x ≠ d) : (m.desc x).tag = (p.desc x).tag := by
    rw [desc]
    exact tagX ne fun e => new (e ▸ hx)
  have own : (m.desc d).eid = (p.desc d).eid := by
    rw [desc]
    exact tagD.1
  have left : 0 < (m.desc d).totalSize := by
    rw [desc, tagD.2.2.2]
    omega
  have total : m.arena.total d = p.arena.total d - actual := by
    rw [← Pool.total_eq, desc, tagD.2.2.2]
    rfl
  have stop : m.arena.stop d = u := by
    rw [Arena.stop, total, ← user, ← Pool.total_eq]
    omega
  have tag : m.arena.prevFree u = p.arena.total d - actual := by
    have : 0 < descSize := by decide
    rw [arena]
    show update (update p.arena.prevFree (p.arena.stop d - actual) _) (p.arena.stop d) 0 u = _
    rw [update_of_ne (by omega), hu]
    exact update_self ..
  obtain ⟨heap, last⟩ := M.insert (.inr mem) left own fun _ => by rw [stop, tag, total]
  have kept := Desc.tag_inj (last.kept u (.inl rfl) (by
    have : 0 < descSize := by decide
    rw [desc, tagU.2.2.2]
    omega)).2
  rw [desc] at kept
  have result : p.splitBuffer (p.desc d).eid d actual index =
      ((m.insertIntoFreelist (p.desc d).eid d).setRef u 1, u + descSize) := by
    rw [isM, isQ, ← user]
    rfl
  rw [result]
  refine ⟨Insert.insert u B, u, rfl, heap.setRef, fun x hx used => ⟨.inr hx, ?_⟩, fun x hx used => ?_,
    fun e => (last.sync e).trans (sync e), .inl rfl, ?_, ?_, ?_, fun h => absurd h new⟩
  · have isU : x ≠ u := fun e => new (e ▸ hx)
    have isD : x ≠ d := by
      rintro rfl
      omega
    have same := other hx isD
    rw [Pool.setRef, Pool.setDesc_of_ne isU, ← same]
    exact (last.kept x (.inr hx) (by rw [(Desc.tag_inj same).2.2.2]; exact used)).2
  · rw [Pool.total_setRef] at used
    obtain ⟨-, used'⟩ := last.back x hx used
    obtain isU | hx := hx
    · exact .inl isU
    · have isD : x ≠ d := by
        rintro rfl
        omega
      rw [(Desc.tag_inj (other hx isD)).2.2.2] at used'
      exact .inr ⟨hx, used'⟩
  · rw [Pool.total_setRef, kept.2.2.2, tagU.2.2.2]
  · exact congrArg Desc.ref Pool.setDesc_self
  · rw [Pool.eid_setRef, kept.1, tagU.1]

lemma takeBuffer (mem : d ∈ B) (least : descSize ≤ actual) (large : (actual : Int) ≤ (p.desc d).totalSize) :
    ∃ C u, (p.takeBuffer (p.desc d).eid d index).2 = u + descSize ∧
      Handed p B (p.desc d).eid actual (p.takeBuffer (p.desc d).eid d index).1 C u := by
  have : 0 < descSize := by decide
  have pos : 0 < (p.desc d).totalSize := by omega
  obtain ⟨q, isQ⟩ : ∃ q, q = (p.listDel (p.desc d).eid d).decCount (p.desc d).eid index := ⟨_, rfl⟩
  have desc : q.desc = p.desc := by
    rw [isQ]
    rfl
  have chunks : q.chunks = p.chunks := by
    rw [isQ]
    rfl
  have arena : q.arena = { p.arena with listed := p.arena.listed \ {d} } := by
    rw [isQ, Pool.arena_decCount, K.lists.arena_listDel rfl]
  have lists : Lists q := by
    rw [isQ]
    exact K.lists.listDel.decCount
  have sync (e) : (q.mem e).memSyncList = (p.mem e).memSyncList := by
    rw [isQ, Pool.sync_decCount, Pool.sync_listDel]
  obtain ⟨m, isM⟩ : ∃ m, m = ((q.setPrev (q.arena.stop d) 0).setTotal d (-(p.desc d).totalSize)).setPrev d 0 :=
    ⟨_, rfl⟩
  have other {x : Nat} (ne : x ≠ d) : (m.desc x).tag = (p.desc x).tag := by
    rw [isM, Pool.tag_setPrev, Pool.setTotal, Pool.setDesc_of_ne ne, Pool.tag_setPrev, desc]
  have self : (m.desc d).totalSize = -(p.desc d).totalSize := by
    rw [isM, Pool.total_setPrev, Pool.setTotal, Pool.setDesc_self]
  have eid (x) : (m.desc x).eid = (p.desc x).eid := by
    rw [isM, Pool.eid_setPrev, Pool.eid_setTotal, Pool.eid_setPrev, desc]
  have index' (x) : (m.desc x).memBinIndex = (p.desc x).memBinIndex := by
    rw [isM, Pool.index_setPrev, Pool.index_setTotal, Pool.index_setPrev, desc]
  have M : Heap m B none := by
    refine ⟨?_, ?_, fun c hc x hx le lt => ?_, fun x hx _ => ?_⟩
    · rw [isM, Pool.arena_setPrev, Pool.arena_setTotal, Pool.arena_setPrev, arena]
      exact (((K.ok.unlink d).clearPrev _).take mem pos (update_self ..)).clearPrev d
    · apply lists.congr (by rw [isM]; rfl) (by rw [isM]; rfl)
      rintro x -
      rw [eid, desc]
    · rw [eid, eid]
      apply K.owner c _ x hx le lt
      rw [← chunks]
      rw [isM] at hc
      exact hc
    · rw [index']
      exact K.index x hx nofun
  have result : p.takeBuffer (p.desc d).eid d index = (m.setRef d 1, d + descSize) := by
    have stop := Pool.stop_eq (p := q) (d := d) (by rw [desc]; exact pos)
    rw [Pool.takeBuffer, ← isQ, stop, Pool.total_setPrev, desc, ← isM]
  rw [result]
  refine ⟨B, d, rfl, M.setRef, fun x hx used => ⟨hx, ?_⟩, fun x hx used => ?_, fun e => ?_, mem, ?_, ?_, ?_,
    fun _ => pos⟩
  · have ne : x ≠ d := by
      rintro rfl
      omega
    rw [Pool.setRef, Pool.setDesc_of_ne ne]
    exact other ne
  · by_cases same : x = d
    · exact .inl same
    · rw [Pool.total_setRef, (Desc.tag_inj (other same)).2.2.2] at used
      exact .inr ⟨hx, used⟩
  · rw [← sync, isM]
    rfl
  · rw [Pool.total_setRef, self]
    omega
  · exact congrArg Desc.ref Pool.setDesc_self
  · rw [Pool.eid_setRef, eid]

lemma travelList (least : descSize ≤ actual) {l : List Nat} (listed : ∀ d ∈ l, d ∈ (p.mem e).memBins index)
    {res : Pool × Nat} (h : p.travelList e actual index l = some res) :
    ∃ C u, res.2 = u + descSize ∧ Handed p B e actual res.1 C u := by
  induction l with
  | nil => cases h
  | cons d next ih =>
    rw [Pool.travelList] at h
    have isListed := listed d mem_cons_self
    have mem : d ∈ B := ((K.ok.listed d).1 ⟨e, index, isListed⟩).1
    have own := K.lists.binned e index d isListed
    split at h
    · rename_i large
      split at h
      · rename_i rest
        cases h
        rw [← own]
        exact K.splitBuffer mem least rest
      · cases h
        rw [← own]
        exact K.takeBuffer mem least large
    · exact ih (fun x hx => listed x (mem_cons_of_mem d hx)) h

lemma searchBins (least : descSize ≤ actual) {res : Pool × Nat}
    (h : p.searchBins e actual = some res) : ∃ C u, res.2 = u + descSize ∧ Handed p B e actual res.1 C u := by
  obtain ⟨index, -, found⟩ := exists_of_findSome?_eq_some h
  exact K.travelList least (fun _ hd => hd) found

lemma growChunk {base : Nat} (fresh : ∀ c ∈ p.chunks, c + memChunkGrowSize ≤ base ∨
    base + memChunkGrowSize ≤ c) :
    ∃ C, Heap (p.growChunk e base) C none ∧ Frame p B (p.growChunk e base) C := by
  have inside := tail_lt
  have out {x : Nat} (hx : x ∈ B) : x ≠ base ∧ x ≠ base + layout.tail := by
    obtain ⟨c, hc, le, last, -⟩ := K.ok.home x hx
    have := K.ok.lt_stop hx
    have := fresh c hc
    omega
  obtain ⟨q, isQ⟩ : ∃ q, q = (({ p with chunks := base :: p.chunks } : Pool).setMem e { p.mem e with
      allocChunks := (p.mem e).allocChunks + 1 }).chunkTags e base := ⟨_, rfl⟩
  have chunks : q.chunks = base :: p.chunks := by
    rw [isQ, Pool.chunkTags_eq]
    rfl
  have desc {x : Nat} (hx : x ∈ B) : q.desc x = p.desc x := by
    rw [isQ]
    exact Pool.chunkTags_other (out hx).1 (out hx).2
  have self : (q.desc base).eid = e ∧ (q.desc base).totalSize = (layout.tail : Nat) := by
    rw [isQ]
    exact Pool.chunkTags_self
  have arena : q.arena = p.arena.addChunk layout.tail base := by
    have same : (({ p with chunks := base :: p.chunks } : Pool).setMem e { p.mem e with
        allocChunks := (p.mem e).allocChunks + 1 }).arena =
          { p.arena with bases := Insert.insert base p.arena.bases } := by
      have grown (g : Pool) : (g.setMem e { g.mem e with allocChunks := (g.mem e).allocChunks + 1 }).arena = g.arena :=
        Pool.arena_setMem rfl
      have bases : {c | c ∈ base :: p.chunks} = Insert.insert base p.arena.bases := by
        ext c
        exact mem_cons
      rw [← bases]
      exact grown { p with chunks := base :: p.chunks }
    rw [isQ, Pool.arena_chunkTags, same]
    rfl
  have sync (e') : (q.mem e').memSyncList = (p.mem e').memSyncList := by
    rw [isQ, Pool.chunkTags_eq]
    exact Pool.sync_setMem rfl
  have Q : Heap q (Insert.insert base B) (some base) := by
    refine ⟨?_, ?_, fun c hc x hx le lt => ?_, fun x hx ne => ?_⟩
    · rw [arena]
      exact K.ok.grow fresh
    · have new : base ∉ p.chunks := by
        intro h
        have := fresh base h
        omega
      have L : Lists { p with chunks := base :: p.chunks } :=
        ⟨K.lists.binned, K.lists.once, K.lists.nodup, nodup_cons.2 ⟨new, K.lists.chunks⟩⟩
      have L' := L.setMem (m := { p.mem e with allocChunks := (p.mem e).allocChunks + 1 })
        (L.binned e) (L.once e) (L.nodup e)
      apply L'.congr (by rw [isQ, Pool.chunkTags_eq]; rfl) (by rw [isQ, Pool.chunkTags_eq]; rfl)
      rintro x ⟨e', i, h⟩
      have listed : x ∈ p.arena.listed := by
        by_cases same : e' = e
        · subst same
          rw [Pool.mem_setMem_self] at h
          exact ⟨e', i, h⟩
        · rw [Pool.mem_setMem_of_ne same] at h
          exact ⟨e', i, h⟩
      rw [desc ((K.ok.listed x).1 listed).1]
      rfl
    · rw [chunks] at hc
      obtain isC | old := mem_cons.1 hc
      · obtain isX | hx := hx
        · rw [isC, isX]
        · obtain ⟨c', hc', le', inside', -⟩ := K.ok.home x hx
          have := K.ok.lt_stop hx
          have := fresh c' hc'
          omega
      · obtain isX | hx := hx
        · have := fresh c old
          omega
        · rw [desc hx, desc (K.ok.base c old)]
          exact K.owner c old x hx le lt
    · have hx := hx.resolve_left fun e => ne (congrArg some e.symm)
      rw [desc hx]
      exact K.index x hx nofun
  have pos : 0 < (q.desc base).totalSize := by
    have : 0 < layout.tail := Nat.lt_of_lt_of_le layout.pos layout.fits
    rw [self.2]
    omega
  have frame : Frame p B q (Insert.insert base B) := by
    refine ⟨fun x hx _ => ⟨.inr hx, by rw [desc hx]⟩, fun x hx used => ?_, sync⟩
    obtain isX | hx := hx
    · rw [isX] at used
      omega
    · rw [desc hx] at used
      exact ⟨hx, used⟩
  have total : q.arena.total base = (layout.tail : Nat) := self.2
  have stop : q.arena.stop base = base + layout.tail := by
    rw [Arena.stop, total, Int.natAbs_natCast]
  obtain ⟨heap, last⟩ := Q.insert (.inl rfl) pos self.1 fun _ => by
    rw [stop, total, arena, Arena.addChunk]
    dsimp only
    rw [update_self]
  rw [show p.growChunk e base = q.insertIntoFreelist e base by rw [isQ]; rfl]
  exact ⟨_, heap, frame.trans last⟩

end

end Heap
end Kupl.Mpool
