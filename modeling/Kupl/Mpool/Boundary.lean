import Mathlib.Data.Set.Insert

/-!
# Heaps with boundary tags

A heap is made of chunks. The blocks of a chunk lie side by side up to a tail, each with a tag that holds
its size, negative while the block is in use, and the address behind a free block may hold the size of that
block. Free blocks are listed.

`Ok L A B hole` says that the blocks `B` fit the tags. Where `hole` is a block, an operation is working on
it: it is free and not listed, and what is behind it may be out of date. The operations of an allocator are
small changes, each with its own lemma: `unlink`, `link`, `release`, `take`, `absorb`, `split`, `setPrev`,
`clearPrev`, `grow` and `unmap`.
-/

namespace Kupl.Boundary
open Function (update update_of_ne update_self)

/-- The measures of a chunk: where its tail is, how much memory it takes, the least size of a block. -/
structure Layout where
  tail : Nat
  region : Nat
  least : Nat
  pos : 0 < least
  fits : least ≤ tail
  inside : tail < region

/-- The tags of a heap, its listed blocks and its chunks. -/
structure Arena where
  total : Nat → Int
  prevFree : Nat → Int
  listed : Set Nat
  bases : Set Nat

/-- The address behind a block. -/
def Arena.stop (A : Arena) (d : Nat) : Nat := d + (A.total d).natAbs

/-- The blocks fit the tags. -/
structure Ok (L : Layout) (A : Arena) (B : Set Nat) (hole : Option Nat) : Prop where
  base : ∀ c ∈ A.bases, c ∈ B
  home : ∀ d ∈ B, ∃ c ∈ A.bases, c ≤ d ∧ A.stop d ≤ c + L.tail ∧
    (A.stop d ∈ B ∨ A.stop d = c + L.tail)
  least : ∀ d ∈ B, L.least ≤ (A.total d).natAbs
  apart : ∀ d ∈ B, ∀ d' ∈ B, d < d' → A.stop d ≤ d'
  listed : ∀ d, d ∈ A.listed ↔ d ∈ B ∧ 0 < A.total d ∧ hole ≠ some d
  prev : ∀ d ∈ B, hole ≠ some d → A.prevFree (A.stop d) ≠ 0 → 0 < A.total d ∧
    A.prevFree (A.stop d) = A.total d
  first : ∀ c ∈ A.bases, A.prevFree c = 0
  dummy : ∀ c ∈ A.bases, A.total (c + L.tail) = -1
  far : ∀ c ∈ A.bases, ∀ c' ∈ A.bases, c < c' → c + L.region ≤ c'

variable {L : Layout} {A : Arena} {B : Set Nat} {hole : Option Nat} {c d d' x : Nat} {t : Int}

namespace Ok

section
variable (K : Ok L A B hole)
include K

section
variable (mem : d ∈ B)
include mem

lemma lt_stop : d < A.stop d := by
  have := K.least d mem
  have := L.pos
  rw [Arena.stop]
  omega

omit mem in
lemma same_chunk (hc : c ∈ A.bases) {c' : Nat} (hc' : c' ∈ A.bases) (le : c ≤ x)
    (lt : x < c + L.region) (le' : c' ≤ x) (lt' : x < c' + L.region) : c = c' := by
  rcases Nat.lt_trichotomy c c' with less | same | less
  · have := K.far c hc c' hc' less
    omega
  · exact same
  · have := K.far c' hc' c hc less
    omega

lemma next (hc : c ∈ A.bases) (le : c ≤ d) (lt : d < c + L.region) :
    A.stop d ≤ c + L.tail ∧ (A.stop d ∈ B ∨ A.stop d = c + L.tail) := by
  obtain ⟨c', hc', le', inside, next⟩ := K.home d mem
  have := K.lt_stop mem
  have := L.inside
  obtain rfl := K.same_chunk hc hc' le lt le' (by omega)
  exact ⟨inside, next⟩

lemma ne_tail (hc : c ∈ A.bases) (le : d ≤ x) (lt : x < A.stop d) : x ≠ c + L.tail := by
  rintro rfl
  obtain ⟨c', hc', le', inside, -⟩ := K.home d mem
  have := L.inside
  obtain rfl := K.same_chunk hc hc' (Nat.le_add_right c L.tail) (by omega) (by omega) (by omega)
  omega

lemma tail_ne (hc : c ∈ A.bases) : d ≠ c + L.tail :=
  K.ne_tail mem hc (Nat.le_refl d) (K.lt_stop mem)

lemma stop_inj (mem' : d' ∈ B) (same : A.stop d = A.stop d') : d = d' := by
  have := K.lt_stop mem
  have := K.lt_stop mem'
  rcases Nat.lt_trichotomy d d' with less | eq | less
  · have := K.apart d mem d' mem' less
    omega
  · exact eq
  · have := K.apart d' mem' d mem less
    omega

lemma stop_ne_base (hc : c ∈ A.bases) : A.stop d ≠ c := by
  rintro rfl
  obtain ⟨c', hc', le', inside, -⟩ := K.home d mem
  have := K.lt_stop mem
  have := L.inside
  obtain same := K.same_chunk hc hc' (Nat.le_refl _) (by omega) (by omega) (by omega)
  omega

lemma exists_before (no : d ∉ A.bases) : ∃ q ∈ B, A.stop q = d := by
  obtain ⟨c, hc, le, inside, -⟩ := K.home d mem
  have ne : c ≠ d := fun e => no (e ▸ hc)
  have bound := K.lt_stop mem
  have inside' := L.inside
  have walk : ∀ k a, d - a ≤ k → a ∈ B → c ≤ a → a < d → ∃ q ∈ B, A.stop q = d := by
    intro k
    induction k with
    | zero =>
      intro a near
      omega
    | succ k ih =>
      intro a near ha le lt
      have up := K.lt_stop ha
      have le' := K.apart a ha d mem lt
      by_cases same : A.stop a = d
      · exact ⟨a, ha, same⟩
      · obtain ⟨-, ha' | tail⟩ := K.next ha hc le (by omega)
        · exact ih (A.stop a) (by omega) ha' (by omega) (by omega)
        · omega
  exact walk (d - c) c (Nat.le_refl _) (K.base c hc) (Nat.le_refl c) (by omega)

lemma prev_zero (ne : hole ≠ some d) (used : A.total d < 0) : A.prevFree (A.stop d) = 0 := by
  by_contra no
  have := (K.prev d mem ne no).1
  omega

lemma before (isHole : hole = some d) (ne : A.prevFree d ≠ 0) :
    ∃ q ∈ A.listed, q ∈ B ∧ A.stop q = d ∧ 0 < A.total q ∧ A.prevFree d = A.total q ∧
      q = d - (A.prevFree d).toNat := by
  have no : d ∉ A.bases := fun h => ne (K.first d h)
  obtain ⟨q, hq, stop⟩ := K.exists_before mem no
  have other : hole ≠ some q := by
    rintro e
    have same := Option.some.inj (isHole.symm.trans e)
    have := K.lt_stop hq
    omega
  rw [← stop] at ne
  obtain ⟨pos, tag⟩ := K.prev q hq other ne
  rw [stop] at tag
  refine ⟨q, (K.listed q).2 ⟨hq, pos, other⟩, hq, stop, pos, tag, ?_⟩
  rw [tag, ← stop, Arena.stop]
  omega

end

end

lemma unlink (K : Ok L A B none) (d : Nat) : Ok L { A with listed := A.listed \ {d} } B (some d) where
  base := K.base
  home := K.home
  least := K.least
  apart := K.apart
  listed x := by
    have old := K.listed x
    constructor
    · rintro ⟨hx, ne⟩
      exact ⟨(old.1 hx).1, (old.1 hx).2.1, fun e => ne (Option.some.inj e).symm⟩
    · rintro ⟨hx, pos, ne⟩
      exact ⟨old.2 ⟨hx, pos, nofun⟩, fun e => ne (e ▸ rfl)⟩
  prev x hx _ := K.prev x hx nofun
  first := K.first
  dummy := K.dummy
  far := K.far

lemma link (K : Ok L A B (some d)) (mem : d ∈ B) (pos : 0 < A.total d)
    (tag : A.prevFree (A.stop d) ≠ 0 → A.prevFree (A.stop d) = A.total d) :
    Ok L { A with listed := insert d A.listed } B none where
  base := K.base
  home := K.home
  least := K.least
  apart := K.apart
  listed x := by
    have old := K.listed x
    constructor
    · rintro (rfl | hx)
      · exact ⟨mem, pos, nofun⟩
      · exact ⟨(old.1 hx).1, (old.1 hx).2.1, nofun⟩
    · rintro ⟨hx, hpos, -⟩
      by_cases same : x = d
      · exact .inl same
      · exact .inr (old.2 ⟨hx, hpos, fun e => same (Option.some.inj e).symm⟩)
  prev x hx _ ne := by
    by_cases same : x = d
    · subst same
      exact ⟨pos, tag ne⟩
    · exact K.prev x hx (fun e => same (Option.some.inj e).symm) ne
  first := K.first
  dummy := K.dummy
  far := K.far

lemma setPrev (K : Ok L A B (some d)) (mem : d ∈ B) (t : Int) :
    Ok L { A with prevFree := update A.prevFree (A.stop d) t } B (some d) where
  base := K.base
  home := K.home
  least := K.least
  apart := K.apart
  listed := K.listed
  prev x hx ne := by
    have other : A.stop x ≠ A.stop d := fun e => ne (by rw [K.stop_inj hx mem e])
    show update A.prevFree (A.stop d) t (A.stop x) ≠ 0 → _ ∧ update A.prevFree (A.stop d) t (A.stop x) = _
    rw [update_of_ne other]
    exact K.prev x hx ne
  first c hc := by
    have other := K.stop_ne_base mem hc
    exact (update_of_ne (Ne.symm other) _ _).trans (K.first c hc)
  dummy := K.dummy
  far := K.far

lemma clearPrev (K : Ok L A B hole) (a : Nat) : Ok L { A with prevFree := update A.prevFree a 0 } B hole where
  base := K.base
  home := K.home
  least := K.least
  apart := K.apart
  listed := K.listed
  prev x hx ne := by
    show update A.prevFree a 0 (A.stop x) ≠ 0 → _ ∧ update A.prevFree a 0 (A.stop x) = _
    by_cases same : A.stop x = a
    · rw [same, update_self]
      exact fun h => absurd rfl h
    · rw [update_of_ne same]
      exact K.prev x hx ne
  first c hc := by
    by_cases same : c = a
    · subst same
      exact update_self ..
    · exact (update_of_ne same _ _).trans (K.first c hc)
  dummy := K.dummy
  far := K.far

end Ok

/-- A heap with another size for one block. -/
def Arena.setTotal (A : Arena) (d : Nat) (t : Int) : Arena := { A with total := update A.total d t }

@[simp] lemma Arena.setTotal_self : (A.setTotal d t).total d = t := update_self ..

lemma Arena.setTotal_of_ne (ne : x ≠ d) : (A.setTotal d t).total x = A.total x :=
  update_of_ne ne _ _

lemma Arena.stop_setTotal_of_ne (ne : x ≠ d) : (A.setTotal d t).stop x = A.stop x := by
  rw [stop, stop, setTotal_of_ne ne]

lemma Arena.stop_setTotal_self : (A.setTotal d t).stop d = d + t.natAbs := by
  rw [stop, setTotal_self]

lemma Arena.stop_neg : (A.setTotal d (-A.total d)).stop x = A.stop x := by
  by_cases same : x = d
  · subst same
    rw [stop_setTotal_self, Int.natAbs_neg, stop]
  · exact stop_setTotal_of_ne same

/-- A block gives its end away: the new block is in use. -/
def Arena.splitAt (A : Arena) (d a : Nat) : Arena :=
  { A with
    total := update (update A.total d (A.total d - a)) (A.stop d - a) (-a)
    prevFree := update (update A.prevFree (A.stop d - a) (A.total d - a)) (A.stop d) 0 }

def Arena.addChunk (A : Arena) (tail c : Nat) : Arena :=
  { A with
    total := update (update A.total c tail) (c + tail) (-1)
    prevFree := update (update A.prevFree c 0) (c + tail) tail
    bases := insert c A.bases }

namespace Ok

/-- A block changes sides. -/
lemma flip {hole' : Option Nat} (K : Ok L A B hole) (mem : d ∈ B)
    (listed : ∀ x, x ∈ A.listed ↔ x ∈ B ∧ 0 < (A.setTotal d (-A.total d)).total x ∧ hole' ≠ some x)
    (prev : ∀ x ∈ B, hole' ≠ some x → A.prevFree (A.stop x) ≠ 0 →
      0 < (A.setTotal d (-A.total d)).total x ∧ A.prevFree (A.stop x) = (A.setTotal d (-A.total d)).total x) :
    Ok L (A.setTotal d (-A.total d)) B hole' where
  base := K.base
  home x hx := by
    rw [Arena.stop_neg]
    exact K.home x hx
  least x hx := by
    by_cases same : x = d
    · subst same
      rw [Arena.setTotal_self, Int.natAbs_neg]
      exact K.least x hx
    · rw [Arena.setTotal_of_ne same]
      exact K.least x hx
  apart x hx y hy lt := by
    rw [Arena.stop_neg]
    exact K.apart x hx y hy lt
  listed := listed
  prev x hx ne := by
    rw [Arena.stop_neg]
    exact prev x hx ne
  first := K.first
  dummy c hc := (Arena.setTotal_of_ne (K.tail_ne mem hc).symm).trans (K.dummy c hc)
  far := K.far

lemma release (K : Ok L A B none) (mem : d ∈ B) (used : A.total d < 0) :
    Ok L (A.setTotal d (-A.total d)) B (some d) := by
  refine K.flip mem (fun x => ?_) fun x hx ne => ?_
  · have old := K.listed x
    by_cases same : x = d
    · subst same
      refine ⟨fun h => ?_, fun h => absurd rfl h.2.2⟩
      have := (old.1 h).2.1
      omega
    · rw [Arena.setTotal_of_ne same]
      refine old.trans ⟨fun h => ⟨h.1, h.2.1, fun e => same (Option.some.inj e).symm⟩, fun h =>
        ⟨h.1, h.2.1, nofun⟩⟩
  · have same : x ≠ d := fun e => ne (e ▸ rfl)
    rw [Arena.setTotal_of_ne same]
    exact K.prev x hx nofun

lemma take (K : Ok L A B (some d)) (mem : d ∈ B) (pos : 0 < A.total d) (tag : A.prevFree (A.stop d) = 0) :
    Ok L (A.setTotal d (-A.total d)) B none := by
  refine K.flip mem (fun x => ?_) fun x hx _ => ?_
  · have old := K.listed x
    by_cases same : x = d
    · subst same
      rw [Arena.setTotal_self]
      refine ⟨fun h => absurd rfl (old.1 h).2.2, fun h => ?_⟩
      omega
    · rw [Arena.setTotal_of_ne same]
      refine old.trans ⟨fun h => ⟨h.1, h.2.1, nofun⟩, fun h =>
        ⟨h.1, h.2.1, fun e => same (Option.some.inj e).symm⟩⟩
  · by_cases same : x = d
    · subst same
      exact fun ne => absurd tag ne
    · rw [Arena.setTotal_of_ne same]
      exact K.prev x hx fun e => same (Option.some.inj e).symm

lemma absorb {a b : Nat} (K : Ok L A B hole) (ha : a ∈ B) (hb : b ∈ B) (stop : A.stop a = b)
    (posa : 0 < A.total a) (posb : 0 < A.total b) (isHole : hole = some a ∨ hole = some b) :
    Ok L { A.setTotal a (A.total a + A.total b) with listed := A.listed \ {a, b} } (B \ {b}) (some a) := by
  have up := K.lt_stop ha
  have up' := K.lt_stop hb
  have longer : (A.setTotal a (A.total a + A.total b)).stop a = A.stop b := by
    rw [Arena.stop_setTotal_self]
    simp only [Arena.stop] at stop ⊢
    omega
  have kept {x : Nat} (hx : x ∈ B) (ne : x ≠ a) : A.stop x ≠ b := fun e =>
    ne (K.stop_inj hx ha (e.trans stop.symm))
  refine ⟨fun c hc => ⟨K.base c hc, ?_⟩, fun x hx => ?_, fun x hx => ?_, fun x hx y hy lt => ?_, fun x => ?_,
    fun x hx ne => ?_, K.first, fun c hc => ?_, K.far⟩
  · rintro rfl
    exact K.stop_ne_base ha hc stop
  · show ∃ c ∈ A.bases, c ≤ x ∧ (A.setTotal a _).stop x ≤ c + L.tail ∧
      ((A.setTotal a _).stop x ∈ B \ {b} ∨ (A.setTotal a _).stop x = c + L.tail)
    by_cases same : x = a
    · subst same
      obtain ⟨c, hc, le, inside, -⟩ := K.home x hx.1
      have := L.inside
      have next := K.next hb hc (by omega) (by omega)
      rw [longer]
      refine ⟨c, hc, le, next.1, next.2.imp_left fun h => ⟨h, fun e => ?_⟩⟩
      have e : A.stop b = b := e
      omega
    · rw [Arena.stop_setTotal_of_ne same]
      obtain ⟨c, hc, le, inside, next⟩ := K.home x hx.1
      exact ⟨c, hc, le, inside, next.imp_left fun h => ⟨h, kept hx.1 same⟩⟩
  · by_cases same : x = a
    · subst same
      have := K.least x hx.1
      show L.least ≤ ((A.setTotal x _).total x).natAbs
      rw [Arena.setTotal_self]
      omega
    · show L.least ≤ ((A.setTotal a _).total x).natAbs
      rw [Arena.setTotal_of_ne same]
      exact K.least x hx.1
  · show (A.setTotal a _).stop x ≤ y
    by_cases same : x = a
    · subst same
      rw [longer]
      have le := K.apart x ha y hy.1 lt
      have ne : y ≠ b := hy.2
      exact K.apart b hb y hy.1 (by omega)
    · rw [Arena.stop_setTotal_of_ne same]
      exact K.apart x hx.1 y hy.1 lt
  · show x ∈ A.listed \ {a, b} ↔ x ∈ B \ {b} ∧ 0 < (A.setTotal a _).total x ∧ some a ≠ some x
    by_cases isA : x = a
    · subst isA
      exact ⟨fun h => absurd (.inl rfl) h.2, fun h => absurd rfl h.2.2⟩
    · by_cases isB : x = b
      · subst isB
        exact ⟨fun h => absurd (.inr rfl) h.2, fun h => absurd rfl h.1.2⟩
      · rw [Arena.setTotal_of_ne isA]
        have old := K.listed x
        have free : hole ≠ some x := by
          rintro rfl
          exact isHole.elim (fun e => isA (Option.some.inj e)) fun e => isB (Option.some.inj e)
        refine ⟨fun h => ⟨⟨(old.1 h.1).1, isB⟩, (old.1 h.1).2.1, fun e => isA (Option.some.inj e).symm⟩,
          fun h => ?_⟩
        exact ⟨old.2 ⟨h.1.1, h.2.1, free⟩, fun e => e.elim isA isB⟩
  · have same : x ≠ a := fun e => ne (e ▸ rfl)
    show A.prevFree ((A.setTotal a _).stop x) ≠ 0 → 0 < (A.setTotal a _).total x ∧
      A.prevFree ((A.setTotal a _).stop x) = (A.setTotal a _).total x
    rw [Arena.stop_setTotal_of_ne same, Arena.setTotal_of_ne same]
    apply K.prev x hx.1
    rintro rfl
    exact isHole.elim (fun e => same (Option.some.inj e)) fun e => hx.2 (Option.some.inj e)
  · exact (Arena.setTotal_of_ne (K.tail_ne ha hc).symm).trans (K.dummy c hc)

lemma split_mem {a : Nat} (K : Ok L A B (some d)) (mem : d ∈ B) (ha : L.least ≤ a)
    (rest : (L.least : Int) ≤ A.total d - a) : A.stop d - a ∉ B ∧ d < A.stop d - a ∧
      A.stop d - a + a = A.stop d := by
  have := L.pos
  have up : d < A.stop d - a := by
    rw [Arena.stop]
    omega
  refine ⟨fun h => ?_, up, by omega⟩
  have := K.apart d mem _ h up
  omega

lemma split {a : Nat} (K : Ok L A B (some d)) (mem : d ∈ B) (ha : L.least ≤ a)
    (rest : (L.least : Int) ≤ A.total d - a) :
    Ok L (A.splitAt d a) (insert (A.stop d - a) B) (some d) := by
  have pos := L.pos
  obtain ⟨new, up, fill⟩ := K.split_mem mem ha rest
  have stop_d : (A.splitAt d a).stop d = A.stop d - a := by
    have ne : d ≠ A.stop d - a := Nat.ne_of_lt up
    simp only [Arena.stop, Arena.splitAt] at up ⊢
    rw [update_of_ne (by simp only [Arena.stop] at ne; exact ne), update_self]
    omega
  have total_of {x : Nat} (nd : x ≠ d) (nu : x ≠ A.stop d - a) : (A.splitAt d a).total x = A.total x := by
    show update (update A.total d _) (A.stop d - a) _ x = _
    rw [update_of_ne nu, update_of_ne nd]
  have stop_of {x : Nat} (nd : x ≠ d) (nu : x ≠ A.stop d - a) : (A.splitAt d a).stop x = A.stop x := by
    rw [Arena.stop, total_of nd nu, Arena.stop]
  have old {x : Nat} (hx : x ∈ B) : x ≠ A.stop d - a := fun e => new (e ▸ hx)
  have total_u : (A.splitAt d a).total (A.stop d - a) = -a := update_self ..
  have stop_u : (A.splitAt d a).stop (A.stop d - a) = A.stop d := by
    rw [Arena.stop, total_u, Int.natAbs_neg, Int.natAbs_natCast]
    exact fill
  have total_d : (A.splitAt d a).total d = A.total d - a := by
    show update (update A.total d _) (A.stop d - a) _ d = _
    rw [update_of_ne (old mem), update_self]
  refine ⟨fun c hc => .inr (K.base c hc), fun x hx => ?_, fun x hx => ?_, fun x hx y hy lt => ?_, fun x => ?_,
    fun x hx ne => ?_, fun c hc => ?_, fun c hc => ?_, K.far⟩
  · show ∃ c ∈ A.bases, _
    obtain rfl | hx := hx
    · obtain ⟨c, hc, le, inside, next⟩ := K.home d mem
      rw [stop_u]
      exact ⟨c, hc, by omega, inside, next.imp_left .inr⟩
    · by_cases same : x = d
      · subst same
        obtain ⟨c, hc, le, inside, -⟩ := K.home x mem
        rw [stop_d]
        exact ⟨c, hc, le, by omega, .inl (.inl rfl)⟩
      · rw [stop_of same (old hx)]
        obtain ⟨c, hc, le, inside, next⟩ := K.home x hx
        exact ⟨c, hc, le, inside, next.imp_left .inr⟩
  · obtain rfl | hx := hx
    · rw [total_u]
      omega
    · by_cases same : x = d
      · subst same
        rw [total_d]
        omega
      · rw [total_of same (old hx)]
        exact K.least x hx
  · obtain rfl | hx := hx
    · rw [stop_u]
      obtain rfl | hy := hy
      · omega
      · exact K.apart d mem y hy (by omega)
    · by_cases same : x = d
      · subst same
        rw [stop_d]
        obtain rfl | hy := hy
        · omega
        · have := K.apart x mem y hy lt
          omega
      · rw [stop_of same (old hx)]
        obtain rfl | hy := hy
        · rcases Nat.lt_trichotomy x d with less | eq | less
          · have := K.apart x hx d mem less
            omega
          · exact absurd eq same
          · have := K.apart d mem x hx less
            omega
        · exact K.apart x hx y hy lt
  · have listed := K.listed x
    show x ∈ A.listed ↔ _
    by_cases isU : x = A.stop d - a
    · rw [isU, total_u]
      rw [isU] at listed
      exact ⟨fun h => absurd (listed.1 h).1 new, fun h => by omega⟩
    · by_cases same : x = d
      · subst same
        exact ⟨fun h => absurd rfl (listed.1 h).2.2, fun h => absurd rfl h.2.2⟩
      · rw [total_of same isU]
        refine listed.trans ⟨fun h => ⟨.inr h.1, h.2⟩, fun h => ⟨h.1.resolve_left isU, h.2⟩⟩
  · have nd : x ≠ d := fun e => ne (e ▸ rfl)
    obtain rfl | hx := hx
    · rw [stop_u]
      intro h
      exact absurd (update_self ..) h
    · rw [stop_of nd (old hx), total_of nd (old hx)]
      have other : A.stop x ≠ A.stop d := fun e => nd (K.stop_inj hx mem e)
      have inside : A.stop x ≠ A.stop d - a := by
        intro e
        have := K.lt_stop hx
        rcases Nat.lt_trichotomy x d with less | eq | less
        · have := K.apart x hx d mem less
          omega
        · exact nd eq
        · have := K.apart d mem x hx less
          omega
      show update (update A.prevFree _ _) (A.stop d) 0 (A.stop x) ≠ 0 → _ ∧
        update (update A.prevFree _ _) (A.stop d) 0 (A.stop x) = _
      rw [update_of_ne other, update_of_ne inside]
      exact K.prev x hx ne
  · show update (update A.prevFree _ _) (A.stop d) 0 c = 0
    rw [update_of_ne (K.stop_ne_base mem hc).symm, update_of_ne (old (K.base c hc))]
    exact K.first c hc
  · have inside : c + L.tail ≠ A.stop d - a := (K.ne_tail mem hc (Nat.le_of_lt up) (by omega)).symm
    rw [total_of (K.tail_ne mem hc).symm inside]
    exact K.dummy c hc

lemma grow (K : Ok L A B none) (fresh : ∀ c' ∈ A.bases, c' + L.region ≤ c ∨ c + L.region ≤ c') :
    Ok L (A.addChunk L.tail c) (insert c B) (some c) := by
  have := L.inside
  have := L.pos
  have := L.fits
  have out {x : Nat} (hx : x ∈ B) : A.stop x < c ∨ c + L.region ≤ x := by
    obtain ⟨c', hc', le, inside, -⟩ := K.home x hx
    obtain before | behind := fresh c' hc'
    · exact .inl (by omega)
    · exact .inr (by omega)
  have new : c ∉ B := by
    intro h
    have := K.lt_stop h
    have := out h
    omega
  have total_c : (A.addChunk L.tail c).total c = L.tail := by
    show update (update A.total c _) (c + L.tail) _ c = _
    rw [update_of_ne (by omega), update_self]
  have stop_c : (A.addChunk L.tail c).stop c = c + L.tail := by
    rw [Arena.stop, total_c]
    rfl
  have total_of {x : Nat} (hx : x ∈ B) : (A.addChunk L.tail c).total x = A.total x := by
    have := K.lt_stop hx
    have := out hx
    show update (update A.total c _) (c + L.tail) _ x = _
    rw [update_of_ne (by omega), update_of_ne (by omega)]
  have stop_of {x : Nat} (hx : x ∈ B) : (A.addChunk L.tail c).stop x = A.stop x := by
    rw [Arena.stop, total_of hx, Arena.stop]
  refine ⟨fun c' hc' => ?_, fun x hx => ?_, fun x hx => ?_, fun x hx y hy lt => ?_, fun x => ?_,
    fun x hx ne => ?_, fun c' hc' => ?_, fun c' hc' => ?_, fun c₁ h₁ c₂ h₂ lt => ?_⟩
  · exact hc'.imp_right (K.base c')
  · obtain rfl | hx := hx
    · exact ⟨x, .inl rfl, Nat.le_refl _, Nat.le_of_eq stop_c, .inr stop_c⟩
    · rw [stop_of hx]
      obtain ⟨c', hc', le, inside, next⟩ := K.home x hx
      exact ⟨c', .inr hc', le, inside, next.imp_left .inr⟩
  · obtain rfl | hx := hx
    · rw [total_c]
      exact L.fits
    · rw [total_of hx]
      exact K.least x hx
  · obtain rfl | hx := hx
    · rw [stop_c]
      obtain rfl | hy := hy
      · omega
      · have := K.lt_stop hy
        have := out hy
        omega
    · rw [stop_of hx]
      obtain rfl | hy := hy
      · have := out hx
        omega
      · exact K.apart x hx y hy lt
  · have listed := K.listed x
    show x ∈ A.listed ↔ _
    by_cases same : x = c
    · subst same
      exact ⟨fun h => absurd (listed.1 h).1 new, fun h => absurd rfl h.2.2⟩
    · constructor
      · intro h
        obtain ⟨hx, pos, -⟩ := listed.1 h
        exact ⟨.inr hx, by rwa [total_of hx], fun e => same (Option.some.inj e).symm⟩
      · rintro ⟨hx, pos, -⟩
        have hx := hx.resolve_left same
        rw [total_of hx] at pos
        exact listed.2 ⟨hx, pos, nofun⟩
  · have hx := hx.resolve_left fun e => ne (e ▸ rfl)
    rw [stop_of hx, total_of hx]
    have := K.lt_stop hx
    have := out hx
    show update (update A.prevFree c _) (c + L.tail) _ (A.stop x) ≠ 0 → _ ∧
      update (update A.prevFree c _) (c + L.tail) _ (A.stop x) = _
    rw [update_of_ne (by omega), update_of_ne (by omega)]
    exact K.prev x hx nofun
  · show update (update A.prevFree c _) (c + L.tail) _ c' = 0
    obtain rfl | hc' := hc'
    · rw [update_of_ne (by omega), update_self]
    · have := fresh c' hc'
      rw [update_of_ne (by omega), update_of_ne (by omega)]
      exact K.first c' hc'
  · show update (update A.total c _) (c + L.tail) _ (c' + L.tail) = -1
    obtain rfl | hc' := hc'
    · rw [update_self]
    · have := fresh c' hc'
      rw [update_of_ne (by omega), update_of_ne (by omega)]
      exact K.dummy c' hc'
  · obtain rfl | h₁ := h₁
    · obtain rfl | h₂ := h₂
      · omega
      · have := fresh c₂ h₂
        omega
    · obtain rfl | h₂ := h₂
      · have := fresh c₁ h₁
        omega
      · exact K.far c₁ h₁ c₂ h₂ lt

lemma unmap (K : Ok L A B (some d)) (hd : d ∈ A.bases) (whole : A.total d = L.tail) :
    Ok L { A with bases := A.bases \ {d} } (B \ {d}) none where
  base c hc := ⟨K.base c hc.1, hc.2⟩
  home x hx := by
    obtain ⟨c, hc, le, inside, next⟩ := K.home x hx.1
    have up := K.lt_stop hx.1
    refine ⟨c, ⟨hc, ?_⟩, le, inside, next.imp_left fun h => ⟨h, K.stop_ne_base hx.1 hd⟩⟩
    rintro rfl
    have ne : x ≠ c := hx.2
    have := K.apart c (K.base c hd) x hx.1 (by omega)
    rw [Arena.stop, whole] at this
    omega
  least x hx := K.least x hx.1
  apart x hx y hy := K.apart x hx.1 y hy.1
  listed x := by
    refine (K.listed x).trans ⟨fun h => ⟨⟨h.1, fun e => h.2.2 (by rw [e])⟩, h.2.1, nofun⟩, fun h => ?_⟩
    exact ⟨h.1.1, h.2.1, fun e => h.1.2 (Option.some.inj e).symm⟩
  prev x hx _ := K.prev x hx.1 fun e => hx.2 (Option.some.inj e).symm
  first c hc := K.first c hc.1
  dummy c hc := K.dummy c hc.1
  far c hc c' hc' := K.far c hc.1 c' hc'.1

lemma whole_base (K : Ok L A B hole) (mem : d ∈ B) (whole : A.total d = L.tail) : d ∈ A.bases := by
  obtain ⟨c, hc, le, inside, -⟩ := K.home d mem
  rw [Arena.stop, whole] at inside
  have same : d = c := by omega
  exact same ▸ hc

end Ok

/-- Blocks side by side, from one address to another. -/
def Tiles (A : Arena) : Nat → List Nat → Nat → Prop
  | a, [], b => a = b
  | a, d :: ds, b => d = a ∧ Tiles A (A.stop d) ds b

lemma Ok.tiles (K : Ok L A B hole) (hc : c ∈ A.bases) :
    ∃ ds, Tiles A c ds (c + L.tail) ∧ ∀ d, d ∈ ds ↔ d ∈ B ∧ c ≤ d ∧ d < c + L.region := by
  have inside' := L.inside
  have walk : ∀ k a, c + L.tail - a ≤ k → a ∈ B ∨ a = c + L.tail → c ≤ a → a ≤ c + L.tail →
      ∃ ds, Tiles A a ds (c + L.tail) ∧ ∀ d, d ∈ ds ↔ d ∈ B ∧ a ≤ d ∧ d < c + L.region := by
    have last {d : Nat} (hd : d ∈ B) (ge : c + L.tail ≤ d) (lt : d < c + L.region) : False := by
      have up := K.lt_stop hd
      have := (K.next hd hc (by omega) lt).1
      omega
    intro k
    induction k with
    | zero =>
      intro a near _ le up
      have same : a = c + L.tail := by omega
      subst same
      exact ⟨[], rfl, fun d => ⟨nofun, fun h => (last h.1 h.2.1 h.2.2).elim⟩⟩
    | succ k ih =>
      intro a near at' le up
      obtain ha | same := at'
      · have lt := K.lt_stop ha
        have up' : a < c + L.tail := Nat.lt_of_le_of_ne up (K.tail_ne ha hc)
        obtain ⟨inside, next⟩ := K.next ha hc le (by omega)
        obtain ⟨ds, tiles, mem⟩ := ih (A.stop a) (by omega) next (by omega) inside
        refine ⟨a :: ds, ⟨rfl, tiles⟩, fun d => ?_⟩
        rw [List.mem_cons, mem]
        constructor
        · rintro (rfl | ⟨hd, ge, lt'⟩)
          · exact ⟨ha, Nat.le_refl _, by omega⟩
          · exact ⟨hd, by omega, lt'⟩
        · rintro ⟨hd, ge, lt'⟩
          by_cases same : d = a
          · exact .inl same
          · exact .inr ⟨hd, K.apart a ha d hd (by omega), lt'⟩
      · subst same
        exact ⟨[], rfl, fun d => ⟨nofun, fun h => (last h.1 h.2.1 h.2.2).elim⟩⟩
  exact walk _ c (Nat.le_refl _) (.inl (K.base c hc)) (Nat.le_refl c) (by omega)

lemma Tiles.le {a b : Nat} {ds : List Nat} (T : Tiles A a ds b) : a ≤ b := by
  induction ds generalizing a with
  | nil => exact Nat.le_of_eq T
  | cons d ds ih =>
    have up : a ≤ A.stop d := by
      rw [← T.1, Arena.stop]
      exact Nat.le_add_right ..
    exact Nat.le_trans up (ih T.2)

lemma Ok.mem_of_tiles (K : Ok L A B hole) (hc : c ∈ A.bases) {ds : List Nat} (T : Tiles A c ds (c + L.tail))
    (mem : d ∈ ds) : d ∈ B ∧ c ≤ d ∧ d < c + L.region := by
  have inside := L.inside
  have walk : ∀ ds a, (a ∈ B ∨ a = c + L.tail) → c ≤ a → Tiles A a ds (c + L.tail) →
      ∀ d ∈ ds, d ∈ B ∧ c ≤ d ∧ d < c + L.region := by
    intro ds
    induction ds with
    | nil => exact fun _ _ _ _ => nofun
    | cons x ds ih =>
      rintro a at' le ⟨rfl, T⟩ d hd
      have up := T.le
      obtain hx | isTail := at'
      · have lt := K.lt_stop hx
        have lt' : x < c + L.region := by omega
        obtain ⟨-, next⟩ := K.next hx hc le lt'
        obtain rfl | hd := List.mem_cons.1 hd
        · exact ⟨hx, le, lt'⟩
        · exact ih (A.stop x) next (by omega) T d hd
      · have dummy := K.dummy c hc
        rw [Arena.stop, isTail, dummy] at up
        omega
  exact walk ds c (.inl (K.base c hc)) (Nat.le_refl c) T d mem

end Kupl.Boundary
