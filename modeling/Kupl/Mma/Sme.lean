import Mathlib.Algebra.BigOperators.Fin
import Mathlib.Data.BitVec

/-!
# Tiles and vectors of 512 bits

The instructions of a matrix extension with vectors of 512 bits: a vector has 16 words or 64 bytes, and the array has
four tiles of 16 by 16 words. A predicate says which lanes take part. Words lie in memory with their low byte first.

`sweep` is the loop over the 16 slices of the tiles, with one pointer for each tile that moves from slice to slice.
Tiles and memories are functions, and a loop that fills one is described by `Wrote`: what it has after the loop at the
places that the loop writes, and that it has what it had at the others.
-/

namespace Kupl.Sme

abbrev Byte := BitVec 8

abbrev Word32 := BitVec 32

/-- The four tiles, at tile, horizontal slice and column. -/
abbrev Za := Fin 4 × Fin 16 × Fin 16 → Word32

instance four_neZero : NeZero 4 := ⟨four_ne_zero⟩

instance sixteen_neZero : NeZero 16 := ⟨Nat.succ_ne_zero 15⟩

/-- The lanes of a vector that take part. -/
abbrev Pred (n : Nat) := Fin n → Bool

/-! ### The instructions -/

/-- The lanes below a bound (`svwhilelt_b32`, `svwhilelt_b8`). -/
def svwhilelt {n : Nat} (start stop : Int) : Pred n := fun lane => decide (start + (lane : Nat) < stop)

def word (mem : Int → Byte) (a : Int) : Word32 :=
  (mem (a + 3)).setWidth 32 <<< 24 ||| (mem (a + 2)).setWidth 32 <<< 16 ||| (mem (a + 1)).setWidth 32 <<< 8 |||
    (mem a).setWidth 32

def byte (w : Word32) (b : Nat) : Byte := w.extractLsb' (8 * b) 8

/-- A vector of words from memory, `0` in the other lanes (`svld1_s32`). -/
def svld1S32 (p : Pred 16) (mem : Int → Word32) (a : Int) : Fin 16 → Word32 :=
  fun lane => if p lane then mem (a + (lane : Nat)) else 0

/-- A vector of bytes from memory, `0` in the other lanes (`svld1_s8`). -/
def svld1S8 (p : Pred 64) (mem : Int → Byte) (a : Int) : Fin 64 → Byte :=
  fun lane => if p lane then mem (a + (lane : Nat)) else 0

/-- Words from memory to a horizontal slice, `0` in the other lanes (`svld1_hor_za32`). -/
def svld1HorZa32 (tile : Fin 4) (slice : Fin 16) (p : Pred 16) (mem : Int → Byte) (a : Int) (za : Za) : Za :=
  fun (q, r, c) => if q = tile ∧ r = slice then if p c then word mem (a + 4 * (c : Nat)) else 0 else za (q, r, c)

/-- A vector to a horizontal slice, the other lanes unchanged (`svwrite_hor_za32_m`). -/
def svwriteHorZa32 (tile : Fin 4) (slice : Fin 16) (p : Pred 16) (v : Fin 16 → Word32) (za : Za) : Za :=
  fun (q, r, c) => if q = tile ∧ r = slice ∧ p c then v c else za (q, r, c)

/-- A horizontal slice to a memory of words (`svst1_hor_za32`). -/
def svst1HorZa32 (tile : Fin 4) (slice : Fin 16) (p : Pred 16) (za : Za) (a : Int) (mem : Int → Word32) :
    Int → Word32 :=
  fun x => if h : 0 ≤ x - a ∧ x - a < 16 then
      if p ⟨(x - a).toNat, by omega⟩ then za (tile, slice, ⟨(x - a).toNat, by omega⟩) else mem x
    else mem x

/-- A vertical slice to memory (`svst1_ver_za32`). -/
def svst1VerZa32 (tile : Fin 4) (slice : Fin 16) (p : Pred 16) (za : Za) (a : Int) (mem : Int → Byte) :
    Int → Byte :=
  fun x => if h : 0 ≤ x - a ∧ x - a < 64 then
      if p ⟨(x - a).toNat / 4, by omega⟩ then byte (za (tile, ⟨(x - a).toNat / 4, by omega⟩, slice))
        ((x - a).toNat % 4)
      else mem x
    else mem x

/-- A lane of bytes as a word, `0` where it takes no part. -/
def lane8 (p : Pred 64) (v : Fin 64 → Byte) (lane : Fin 64) : Word32 := if p lane then (v lane).signExtend 32 else 0

/-- The four products of one element. -/
def dot (pn pm : Pred 64) (zn zm : Fin 64 → Byte) (r c : Fin 16) : Word32 :=
  ∑ b : Fin 4, lane8 pn zn ⟨4 * r + b, by omega⟩ * lane8 pm zm ⟨4 * c + b, by omega⟩

/-- The sum of four outer products, added to a tile (`svmopa_za32_s8_m`). -/
def svmopaZa32S8 (tile : Fin 4) (pn pm : Pred 64) (zn zm : Fin 64 → Byte) (za : Za) : Za :=
  fun (q, r, c) => if q = tile then za (q, r, c) + dot pn pm zn zm r c else za (q, r, c)

/-- The loop `for (t = 0; t < 16; ++t)` over the slices: one step for each tile with its pointer, and then every
pointer moves by the stride. -/
def sweep {σ : Type} (step : Fin 16 → Fin 4 → Int → σ → σ) (stride : Int) :
    Nat → Nat → List (Fin 4 × Int) → σ → σ
  | 0, _, _, s => s
  | n + 1, t, tiles, s =>
    sweep step stride n (t + 1) (tiles.map fun (tile, a) => (tile, a + stride))
      (tiles.foldl (fun s (tile, a) => step (Fin.ofNat 16 t) tile a s) s)

/-! ### Words and lanes -/

lemma byte_word (mem : Int → Byte) (a : Int) (b : Fin 4) : byte (word mem a) b = mem (a + (b : Nat)) := by
  unfold byte word
  apply BitVec.eq_of_getLsbD_eq
  intro i small
  match b with
  | 0 => simp [small, show i < 16 by omega, show i < 24 by omega, show i < 32 by omega]
  | 1 =>
    simp [small, show 8 + i < 16 by omega, show 8 + i < 24 by omega, show 8 + i < 32 by omega]
  | 2 =>
    have high := BitVec.getLsbD_of_ge (mem a) (16 + i) (by omega)
    have next := BitVec.getLsbD_of_ge (mem (a + 1)) (16 + i - 8) (by omega)
    simp [small, high, next, show 16 + i < 24 by omega, show 16 + i < 32 by omega]
  | 3 =>
    have high := BitVec.getLsbD_of_ge (mem a) (24 + i) (by omega)
    have next := BitVec.getLsbD_of_ge (mem (a + 1)) (24 + i - 8) (by omega)
    have last := BitVec.getLsbD_of_ge (mem (a + 2)) (24 + i - 16) (by omega)
    simp [small, high, next, last, show 24 + i < 32 by omega]

@[simp] lemma svwhilelt_all {n : Nat} (lane : Fin n) : svwhilelt 0 n lane = true := by
  simp [svwhilelt]

/-! ### Places that are written -/

section Wrote
variable {ι β α : Type} {f : ι → β} {S T : ι → Prop} {m m' k : ι → β}

/-- From `m` to `m'` the places `S` are written, with what `f` has there. -/
def Wrote (f : ι → β) (S : ι → Prop) (m m' : ι → β) : Prop :=
  ∀ x, (S x → m' x = f x) ∧ (¬S x → m' x = m x)

lemma Wrote.none : Wrote f (fun _ => False) m m := fun _ => ⟨False.elim, fun _ => rfl⟩

lemma Wrote.trans (first : Wrote f S m k) (next : Wrote f T k m') : Wrote f (fun x => S x ∨ T x) m m' := by
  intro x
  by_cases t : T x
  · exact ⟨fun _ => (next x).1 t, fun out => absurd (Or.inr t) out⟩
  · rw [(next x).2 t]
    refine ⟨fun or => (first x).1 (or.resolve_right t), fun out => (first x).2 (fun s => out (Or.inl s))⟩

lemma Wrote.congr (w : Wrote f S m m') (h : ∀ x, S x ↔ T x) : Wrote f T m m' :=
  fun x => ⟨fun t => (w x).1 ((h x).2 t), fun t => (w x).2 (fun s => t ((h x).1 s))⟩

lemma Wrote.foldl {l : List α} {step : (ι → β) → α → ι → β} {S : α → ι → Prop}
    (turn : ∀ e ∈ l, ∀ m, Wrote f (S e) m (step m e)) (m : ι → β) :
    Wrote f (fun x => ∃ e ∈ l, S e x) m (l.foldl step m) := by
  induction l generalizing m with
  | nil => exact Wrote.none.congr fun x => by simp
  | cons e l ih =>
    have first := turn e List.mem_cons_self m
    have rest := ih (fun e mem => turn e (List.mem_cons_of_mem _ mem)) (step m e)
    exact (first.trans rest).congr fun x => by simp

end Wrote

/-! ### The loop over the slices -/

section Slices
variable {q l : Nat} [NeZero l] {σ : Type}

/-- A loop over the slices of `q` tiles: one step for each tile with its pointer, and then every pointer moves by the
stride. -/
def slices (step : Fin l → Fin q → Int → σ → σ) (stride : Int) :
    Nat → Nat → List (Fin q × Int) → σ → σ
  | 0, _, _, s => s
  | n + 1, t, tiles, s =>
    slices step stride n (t + 1) (tiles.map fun (tile, a) => (tile, a + stride))
      (tiles.foldl (fun s (tile, a) => step (Fin.ofNat l t) tile a s) s)

lemma slices_eq (step : Fin l → Fin q → Int → σ → σ) (stride : Int) (n t : Nat)
    (tiles : List (Fin q × Int)) (s : σ) :
    slices step stride n t tiles s = (List.range n).foldl (fun s u =>
      tiles.foldl (fun s e => step (Fin.ofNat l (t + u)) e.1 (e.2 + u * stride) s) s) s := by
  induction n generalizing t tiles s with
  | zero => rfl
  | succ n ih =>
    rw [slices, ih, List.range_succ_eq_map, List.foldl_cons, List.foldl_map]
    have start : tiles.foldl (fun s e => step (Fin.ofNat l (t + 0)) e.1 (e.2 + (0 : Nat) * stride) s) s =
        tiles.foldl (fun s e => step (Fin.ofNat l t) e.1 e.2 s) s := by simp
    rw [start]
    congr 1
    funext s u
    rw [List.foldl_map]
    congr 1
    funext s e
    have place : e.2 + stride + u * stride = e.2 + (u + 1 : Nat) * stride := by
      push_cast
      rw [Int.add_mul, Int.one_mul]
      omega
    rw [place, show t + 1 + u = t + (u + 1) by omega]

lemma slices_wrote {ι β : Type} (f : ι → β) (S : Fin l → Fin q → Int → ι → Prop) (stride : Int)
    (step : Fin l → Fin q → Int → (ι → β) → ι → β) (tiles : List (Fin q × Int))
    (turn : ∀ t, ∀ e ∈ tiles, ∀ m,
      Wrote f (S t e.1 (e.2 + (t : Nat) * stride)) m (step t e.1 (e.2 + (t : Nat) * stride) m)) (m : ι → β) :
    Wrote f (fun x => ∃ t : Fin l, ∃ e ∈ tiles, S t e.1 (e.2 + (t : Nat) * stride) x) m
      (slices step stride l 0 tiles m) := by
  rw [slices_eq]
  have turns : ∀ u ∈ List.range l, ∀ m : ι → β,
      Wrote f (fun x => ∃ e ∈ tiles, S (Fin.ofNat l u) e.1 (e.2 + u * stride) x) m
        (tiles.foldl (fun s e => step (Fin.ofNat l (0 + u)) e.1 (e.2 + u * stride) s) m) := by
    intro u mem m
    have same : ((Fin.ofNat l u : Fin l) : Nat) = u := Nat.mod_eq_of_lt (List.mem_range.1 mem)
    rw [Nat.zero_add]
    refine Wrote.foldl (S := fun (e : Fin q × Int) x => S (Fin.ofNat l u) e.1 (e.2 + u * stride) x) ?_ m
    intro e mem m
    have one := turn (Fin.ofNat l u) e mem m
    rwa [same] at one
  apply (Wrote.foldl turns m).congr
  intro x
  constructor
  · rintro ⟨u, mem, e, tile, at_⟩
    have same : ((Fin.ofNat l u : Fin l) : Nat) = u := Nat.mod_eq_of_lt (List.mem_range.1 mem)
    exact ⟨Fin.ofNat l u, e, tile, by rwa [same]⟩
  · rintro ⟨t, e, tile, at_⟩
    refine ⟨t, List.mem_range.2 t.isLt, e, tile, ?_⟩
    rwa [Fin.ofNat_val_eq_self]

end Slices

lemma sweep_slices {σ : Type} (step : Fin 16 → Fin 4 → Int → σ → σ) (stride : Int) (n t : Nat)
    (tiles : List (Fin 4 × Int)) (s : σ) : sweep step stride n t tiles s = slices step stride n t tiles s := by
  induction n generalizing t tiles s with
  | zero => rfl
  | succ n ih =>
    rw [sweep, slices]
    exact ih (t + 1) _ _

lemma sweep_eq {σ : Type} (step : Fin 16 → Fin 4 → Int → σ → σ) (stride : Int) (n t : Nat)
    (tiles : List (Fin 4 × Int)) (s : σ) :
    sweep step stride n t tiles s = (List.range n).foldl (fun s u =>
      tiles.foldl (fun s e => step (Fin.ofNat 16 (t + u)) e.1 (e.2 + u * stride) s) s) s := by
  rw [sweep_slices, slices_eq]

lemma sweep_wrote {ι β : Type} (f : ι → β) (S : Fin 16 → Fin 4 → Int → ι → Prop) (stride : Int)
    (step : Fin 16 → Fin 4 → Int → (ι → β) → ι → β) (tiles : List (Fin 4 × Int))
    (turn : ∀ t, ∀ e ∈ tiles, ∀ m,
      Wrote f (S t e.1 (e.2 + (t : Nat) * stride)) m (step t e.1 (e.2 + (t : Nat) * stride) m)) (m : ι → β) :
    Wrote f (fun x => ∃ t : Fin 16, ∃ e ∈ tiles, S t e.1 (e.2 + (t : Nat) * stride) x) m
      (sweep step stride 16 0 tiles m) := by
  rw [sweep_slices]
  exact slices_wrote f S stride step tiles turn m

/-! ### What the instructions write -/

variable {mem : Int → Byte} {words : Int → Word32} {za : Za} {tile : Fin 4} {t : Fin 16} {a : Int}

lemma write_wrote {f : Za} (h : ∀ c : Fin 16, f (tile, t, c) = words (a + (c : Nat))) :
    Wrote f (fun x => x.1 = tile ∧ x.2.1 = t) za
      (svwriteHorZa32 tile t (svwhilelt 0 16) (svld1S32 (svwhilelt 0 16) words a) za) := by
  rintro ⟨q, r, c⟩
  have on : svwhilelt 0 16 c = true := svwhilelt_all c
  constructor
  · rintro ⟨rfl, rfl⟩
    simp only [svwriteHorZa32, svld1S32, and_self, if_true, on, h]
  · intro out
    simp only [svwriteHorZa32, on, and_true, if_neg out]

lemma vertical_wrote {f : Int → Byte}
    (h : ∀ (r : Fin 16) (b : Fin 4), f (a + 4 * (r : Nat) + (b : Nat)) = byte (za (tile, r, t)) b) :
    Wrote f (fun x => a ≤ x ∧ x < a + 64) mem (svst1VerZa32 tile t (svwhilelt 0 16) za a mem) := by
  intro x
  constructor
  · rintro ⟨low, high⟩
    have inside : 0 ≤ x - a ∧ x - a < 64 := by omega
    have at_ := h ⟨(x - a).toNat / 4, by omega⟩ ⟨(x - a).toNat % 4, by omega⟩
    have place : a + 4 * (((x - a).toNat / 4 : Nat) : Int) + (((x - a).toNat % 4 : Nat) : Int) = x := by omega
    rw [place] at at_
    have on : svwhilelt 0 16 (⟨(x - a).toNat / 4, by omega⟩ : Fin 16) = true := svwhilelt_all _
    rw [svst1VerZa32, dif_pos inside, if_pos on, at_]
  · intro out
    rw [svst1VerZa32, dif_neg (fun inside => out (by omega))]

lemma horizontal_wrote {f : Int → Word32} (h : ∀ c : Fin 16, f (a + (c : Nat)) = za (tile, t, c)) :
    Wrote f (fun x => a ≤ x ∧ x < a + 16) words (svst1HorZa32 tile t (svwhilelt 0 16) za a words) := by
  intro x
  constructor
  · rintro ⟨low, high⟩
    have inside : 0 ≤ x - a ∧ x - a < 16 := by omega
    have at_ := h ⟨(x - a).toNat, by omega⟩
    have place : a + (((x - a).toNat : Nat) : Int) = x := by omega
    rw [place] at at_
    have on : svwhilelt 0 16 (⟨(x - a).toNat, by omega⟩ : Fin 16) = true := svwhilelt_all _
    rw [svst1HorZa32, dif_pos inside, if_pos on, at_]
  · intro out
    rw [svst1HorZa32, dif_neg (fun inside => out (by omega))]

end Kupl.Sme
