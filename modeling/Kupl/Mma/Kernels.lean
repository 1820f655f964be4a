import Kupl.Mma.Ring
import Mathlib.Tactic.FinCases

/-!
# The product of matrices in exact arithmetic (`kupl_mma_mma.h`, `kupl_mma_copy.h`)

| source | here |
|---|---|
| `call_mma<16, 64, Stride<2, Stride<1, 32>>, …, bfloat16_t, bfloat16_t, float>` | `callMma16x64x2` |
| `call_mma<16, 64, Stride<1, 16>, …, bfloat16_t, bfloat16_t, float>` | `callMma16x64x1` |
| `call_mma<32, 32, …, Stride<Stride<1, 64>, 2>, bfloat16_t, bfloat16_t>` | `callMma32x32x2` |
| `call_mma<32, 32, …, Stride<576, 1>, bfloat16_t, bfloat16_t>` | `callMma32x32Rows` |
| `call_mma<32, 16, …, double, double, double>` | `callMma32x16` |
| `KP36_16x64_F32_STORE`, `KP36_32x16_F64_STORE` | `callCopy16x64F32Store`, `callCopy32x16F64Store` |
| `KP36_32x32_F32_STORE` | `callCopy32x32F32Store1024`, `callCopy32x32F32Store2048` |

Pointers are offsets in their buffer. `Stride` says how a dimension of a matrix lies in a buffer, and `Holds` that a
buffer holds a matrix. `tile16x64`, `tile32x32` and `tile32x16` say where an element of the product is in the tiles.
-/

namespace Kupl.Mma
open Sme

variable {R : Type} {q l : Nat}

/-! ### The kernels -/

section Kernels
variable [CommRing R]

def loadTiles [NeZero l] (tiles : List (Fin q × Int)) (row : Int) (dataC : Int → R) (za : Tiles q l R) :
    Tiles q l R :=
  slices (fun t tile a za => svwriteHor tile t (svwhilelt 0 l) (svld1 (svwhilelt 0 l) dataC a) za) row l 0 tiles za

/-- The lanes of a whole vector of `bfloat16_t`. -/
def p16 : Pred (16 * 2) := svwhilelt 0 32

/-- The lanes of half a vector of `bfloat16_t`. -/
def p16Half : Pred (16 * 2) := svwhilelt 0 16

/-- The lanes of a vector of `double`. -/
def p64 : Pred (8 * 1) := svwhilelt 0 8

/-- Pair-packed A and B. -/
def callMma16x64x2 (dataA dataB dataC : Int → R) (sizeK : Int) (za : Tiles 4 16 R) : Tiles 4 16 R :=
  let products := fun a b =>
    let va0 := svld1 p16 dataA a
    [(0, va0, svld1 p16 dataB b), (1, va0, svld1 p16 dataB (b + 32)), (2, va0, svld1 p16 dataB (b + 64)),
      (3, va0, svld1 p16 dataB (b + 96))]
  outers products 32 128 (sizeK.tdiv 2).toNat 0 0 (loadTiles [(0, 0), (1, 16), (2, 32), (3, 48)] 64 dataC za)

/-- Column-major A and row-major B: every element has a `0` beside it. -/
def callMma16x64x1 (dataA dataB dataC : Int → R) (sizeK : Int) (za : Tiles 4 16 R) : Tiles 4 16 R :=
  let vzero := svld1 p16Half (fun _ => 0) 0
  let products := fun a b =>
    let va0 := svzip1 (svld1 p16Half dataA a) vzero
    [(0, va0, svzip1 (svld1 p16Half dataB b) vzero), (1, va0, svzip1 (svld1 p16Half dataB (b + 16)) vzero),
      (2, va0, svzip1 (svld1 p16Half dataB (b + 32)) vzero), (3, va0, svzip1 (svld1 p16Half dataB (b + 48)) vzero)]
  outers products 16 64 sizeK.toNat 0 0 (loadTiles [(0, 0), (1, 16), (2, 32), (3, 48)] 64 dataC za)

/-- Pair-packed A and B, added to the tiles as they are. -/
def callMma32x32x2 (dataA dataB : Int → R) (sizeK : Int) (za : Tiles 4 16 R) : Tiles 4 16 R :=
  let products := fun a b =>
    let va0 := svld1 p16 dataA a
    let vb0 := svld1 p16 dataB b
    let vb1 := svld1 p16 dataB (b + 32)
    let va1 := svld1 p16 dataA (a + 32)
    [(0, va0, vb0), (1, va0, vb1), (2, va1, vb0), (3, va1, vb1)]
  outers products 64 64 (sizeK.tdiv 2).toNat 0 0 za

/-- Pair-packed A and B in rows of 576 elements, added to the tiles as they are. -/
def callMma32x32Rows (dataA dataB : Int → R) (sizeK : Int) (za : Tiles 4 16 R) : Tiles 4 16 R :=
  let products := fun a b =>
    let vb0 := svld1 p16 dataB b
    let vb1 := svld1 p16 dataB (b + 576)
    let vb2 := svzip1 vb0 vb1
    let va0 := svld1 p16 dataA a
    let vb3 := svzip2 vb0 vb1
    let va1 := svld1 p16 dataA (a + 32)
    [(0, va0, vb2), (1, va0, vb3), (2, va1, vb2), (3, va1, vb3)]
  outers products 64 (2 * 576) (sizeK.tdiv 2).toNat 0 0 za

/-- Column-major A and row-major B. -/
def callMma32x16 (dataA dataB dataC : Int → R) (sizeK : Int) (za : Tiles 8 8 R) : Tiles 8 8 R :=
  let products := fun a b =>
    let vc0 := svld1 p64 dataA a
    let vc4 := svld1 p64 dataB b
    let vc1 := svld1 p64 dataA (a + 8)
    let vc2 := svld1 p64 dataA (a + 16)
    let vc3 := svld1 p64 dataA (a + 24)
    let vc5 := svld1 p64 dataB (b + 8)
    [(0, vc0, vc4), (1, vc1, vc4), (2, vc2, vc4), (3, vc3, vc4), (4, vc0, vc5), (5, vc1, vc5), (6, vc2, vc5),
      (7, vc3, vc5)]
  outers products 32 16 sizeK.toNat 0 0 (loadTiles
    [(0, 0), (4, 0 + 8), (1, 128), (5, 128 + 8), (2, 256), (6, 256 + 8), (3, 384), (7, 384 + 8)] 16 dataC za)

end Kernels

/-! ### The stores -/

/-- (C++ `KP36_16x64_F32_STORE`). -/
def callCopy16x64F32Store (data : Int → R) (za : Tiles 4 16 R) : Int → R :=
  slices (fun t tile a data => svst1Hor tile t (svwhilelt 0 16) za a data) 64 16 0
    [(0, 0), (1, 16), (2, 32), (3, 48)] data

/-- (C++ `KP36_32x16_F64_STORE`). -/
def callCopy32x16F64Store (data : Int → R) (za : Tiles 8 8 R) : Int → R :=
  slices (fun t tile a data => svst1Hor tile t (svwhilelt 0 8) za a data) 16 8 0
    [(0, 0), (4, 0 + 8), (1, 128), (5, 128 + 8), (2, 256), (6, 256 + 8), (3, 384), (7, 384 + 8)] data

/-- (C++ `KP36_32x32_F32_STORE`), with the place of the lower half. -/
def callCopy32x32F32Store (half : Int) (data : Int → R) (za : Tiles 4 16 R) : Int → R :=
  slices (fun t tile a data => svst1Ver tile t svptrue za a data) 16 16 0
    [(0, 0), (1, 16 * 16), (2, half), (3, half + 16 * 16)] data

/-- (C++ `KP36_32x32_F32_STORE` for `Stride<Stride<1, 1024>, 16>`). -/
def callCopy32x32F32Store1024 (data : Int → R) (za : Tiles 4 16 R) : Int → R := callCopy32x32F32Store 1024 data za

/-- (C++ `KP36_32x32_F32_STORE` for `Stride<Stride<1, 2048>, 16>`). -/
def callCopy32x32F32Store2048 (data : Int → R) (za : Tiles 4 16 R) : Int → R := callCopy32x32F32Store 2048 data za

/-! ### Matrices in buffers and in tiles -/

/-- How one dimension lies in a buffer: `Int<step>`, or `Stride<Int<inner>, Int<outer>>` for pieces of some length. -/
inductive Stride
  | step (s : Int)
  | cut (piece inner outer : Int)

def Stride.place : Stride → Nat → Int
  | .step s, i => i * s
  | .cut piece near far, i => i % piece * near + i / piece * far

def Holds {m w : Nat} (rows cols : Stride) (data : Int → R) (M : Matrix (Fin m) (Fin w) R) : Prop :=
  ∀ (i : Fin m) (j : Fin w), data (rows.place i + cols.place j) = M i j

instance holds_decidable {m w : Nat} [DecidableEq R] (rows cols : Stride) (data : Int → R)
    (M : Matrix (Fin m) (Fin w) R) : Decidable (Holds rows cols data M) :=
  let _ (i : Fin m) (j : Fin w) : Decidable (data (rows.place i + cols.place j) = M i j) := decEq (α := R) _ _
  inferInstanceAs (Decidable (∀ (i : Fin m) (j : Fin w), data (rows.place i + cols.place j) = M i j))

def tile16x64 : Fin 16 × Fin 64 ≃ Fin 4 × Fin 16 × Fin 16 where
  toFun x := (⟨x.2 / 16, by omega⟩, x.1, ⟨x.2 % 16, by omega⟩)
  invFun p := (p.2.1, ⟨16 * p.1 + p.2.2, by omega⟩)
  left_inv := by
    rintro ⟨i, j⟩
    simp only [Prod.mk.injEq, Fin.ext_iff, true_and]
    omega
  right_inv := by
    rintro ⟨k, r, c⟩
    simp only [Prod.mk.injEq, Fin.ext_iff, true_and]
    omega

def tile32x32 : Fin 32 × Fin 32 ≃ Fin 4 × Fin 16 × Fin 16 where
  toFun x := (⟨x.1 / 16 * 2 + x.2 / 16, by omega⟩, ⟨x.1 % 16, by omega⟩, ⟨x.2 % 16, by omega⟩)
  invFun p := (⟨16 * (p.1 / 2 : Nat) + p.2.1, by omega⟩, ⟨16 * (p.1 % 2 : Nat) + p.2.2, by omega⟩)
  left_inv := by
    rintro ⟨i, j⟩
    simp only [Prod.mk.injEq, Fin.ext_iff]
    omega
  right_inv := by
    rintro ⟨k, r, c⟩
    simp only [Prod.mk.injEq, Fin.ext_iff]
    omega

/-- Four tiles one below the other, and four tiles to their right. -/
def tile32x16 : Fin 32 × Fin 16 ≃ Fin 8 × Fin 8 × Fin 8 where
  toFun x := (⟨x.2 / 8 * 4 + x.1 / 8, by omega⟩, ⟨x.1 % 8, by omega⟩, ⟨x.2 % 8, by omega⟩)
  invFun p := (⟨8 * (p.1 % 4 : Nat) + p.2.1, by omega⟩, ⟨8 * (p.1 / 4 : Nat) + p.2.2, by omega⟩)
  left_inv := by
    rintro ⟨i, j⟩
    simp only [Prod.mk.injEq, Fin.ext_iff]
    omega
  right_inv := by
    rintro ⟨k, r, c⟩
    simp only [Prod.mk.injEq, Fin.ext_iff]
    omega

def inTiles {m w : Nat} (tile : Fin m × Fin w ≃ Fin q × Fin l × Fin l) (za : Tiles q l R) :
    Matrix (Fin m) (Fin w) R := Matrix.of fun i j => za (tile (i, j))

/-! ### Loads and stores -/

section Buffers
variable {m w : Nat} {tile : Fin m × Fin w ≃ Fin q × Fin l × Fin l} {rows cols : Stride} {corner : Fin q → Int}
  {tiles : List (Fin q × Int)} {row : Int}

lemma inTiles_inj {za za' : Tiles q l R} (same : inTiles tile za = inTiles tile za') : za = za' := by
  funext p
  have at_ := congrFun (congrFun same (tile.symm p).1) (tile.symm p).2
  simpa only [inTiles, Matrix.of_apply, Prod.mk.eta, Equiv.apply_symm_apply] using at_

def placeOf (tile : Fin m × Fin w ≃ Fin q × Fin l × Fin l) (rows cols : Stride)
    (p : Fin q × Fin l × Fin l) : Int :=
  rows.place (tile.symm p).1 + cols.place (tile.symm p).2

lemma placeOf_tile {i : Fin m} {j : Fin w} : placeOf tile rows cols (tile (i, j)) = rows.place i + cols.place j := by
  rw [placeOf, Equiv.symm_apply_apply]

variable [NeZero l]

lemma store_holds {f : Fin q → Fin l → Fin l → Fin q × Fin l × Fin l} {p : Pred l}
    (all : ∀ lane, p lane = true)
    (own : Function.Injective (placeOf tile rows cols))
    (places : ∀ k t lane, placeOf tile rows cols (f k t lane) = corner k + (t : Nat) * row + (lane : Nat))
    (corners : ∀ k, (k, corner k) ∈ tiles) (only : ∀ e ∈ tiles, e.2 = corner e.1)
    (onto : ∀ x, ∃ k t lane, f k t lane = x) (data : Int → R) (za : Tiles q l R) :
    Holds rows cols
      (slices (fun t tile a data => svst1 p (fun lane => za (f tile t lane)) a data) row l 0 tiles data)
      (inTiles tile za) := by
  intro i j
  obtain ⟨k, t, lane, at_⟩ := onto (tile (i, j))
  have stored := store_right all own za corners only places data k t lane
  rwa [at_, placeOf_tile] at stored

variable [CommRing R]

lemma load_holds {dataC : Int → R} {C : Matrix (Fin m) (Fin w) R} (holds : Holds rows cols dataC C)
    (places : ∀ k r c, placeOf tile rows cols (k, r, c) = corner k + (r : Nat) * row + (c : Nat))
    (corners : ∀ k, (k, corner k) ∈ tiles) (only : ∀ e ∈ tiles, e.2 = corner e.1) (za : Tiles q l R) :
    inTiles tile (loadTiles tiles row dataC za) = C := by
  ext i j
  have loaded : ∀ p, loadTiles tiles row dataC za p = dataC (placeOf tile rows cols p) := by
    rintro ⟨k, r, c⟩
    rw [places, loadTiles, load_right corners only]
  rw [inTiles, Matrix.of_apply, loaded, placeOf_tile, holds i j]

end Buffers

section Products
variable [CommRing R] {m w : Nat} {tile : Fin m × Fin w ≃ Fin q × Fin l × Fin l}

lemma outers_holds {g n d K : Nat} {products : Int → Int →
    List (Fin q × (Fin (l * g) → R) × (Fin (l * g) → R))}
    {stepA stepB : Int} {A : Matrix (Fin m) (Fin K) R} {B : Matrix (Fin K) (Fin w) R} (σ : Fin n × Fin d ≃ Fin K)
    {u v : Fin q → Int → Int → Fin (l * g) → R} (once : ∀ a b, ((products a b).map (·.1)).Nodup)
    (mem : ∀ k a b, (k, u k a b, v k a b) ∈ products a b)
    (turn : ∀ k r c, ∀ t : Fin n, inner (u k (t * stepA) (t * stepB)) (v k (t * stepA) (t * stepB)) r c =
      ∑ e : Fin d, A (tile.symm (k, r, c)).1 (σ (t, e)) * B (σ (t, e)) (tile.symm (k, r, c)).2) (za : Tiles q l R) :
    inTiles tile (outers products stepA stepB n 0 0 za) = inTiles tile za + A * B := by
  ext i j
  have added : ∀ p, outers products stepA stepB n 0 0 za p = za p + (A * B) (tile.symm p).1 (tile.symm p).2 := by
    rintro ⟨k, r, c⟩
    exact outers_mul σ once (mem k) (turn k r c) za
  rw [Matrix.add_apply, inTiles, inTiles, Matrix.of_apply, Matrix.of_apply, added, Equiv.symm_apply_apply]

/-! ### The vectors -/

variable {data : Int → R} {a : Int}

lemma p16_at (r : Fin 16) (e : Fin 2) :
    svld1 p16 data a (finProdFinEquiv (r, e)) = data (a + 2 * (r : Nat) + (e : Nat)) := by
  have on : p16 (finProdFinEquiv (r, e)) = true := svwhilelt_all (n := 32) _
  rw [svld1, if_pos on, lane_val]
  push_cast
  ring_nf

lemma p64_at (r : Fin 8) (e : Fin 1) : svld1 p64 data a (finProdFinEquiv (r, e)) = data (a + (r : Nat)) := by
  have on : p64 (finProdFinEquiv (r, e)) = true := svwhilelt_all (n := 8) _
  rw [svld1, if_pos on, lane_val, Fin.val_eq_zero e, one_mul, Nat.zero_add]

end Products

/-! ### The places of the tiles -/

lemma place16x64 (k : Fin 4) (r c : Fin 16) :
    placeOf tile16x64 (.step 64) (.step 1) (k, r, c) = 16 * (k : Nat) + (r : Nat) * 64 + (c : Nat) := by
  simp only [placeOf, Stride.place, tile16x64, Equiv.coe_fn_symm_mk]
  push_cast
  ring

lemma place32x16 (k r c : Fin 8) : placeOf tile32x16 (.step 16) (.step 1) (k, r, c) =
      128 * ((k : Nat) % 4 : Nat) + 8 * ((k : Nat) / 4 : Nat) + (r : Nat) * 16 + (c : Nat) := by
  simp only [placeOf, Stride.place, tile32x16, Equiv.coe_fn_symm_mk]
  push_cast
  ring

lemma place32x32 (half : Int) (k : Fin 4) (r c : Fin 16) : placeOf tile32x32 (.cut 16 1 half) (.step 16) (k, r, c) =
      ((k : Nat) / 2 : Nat) * half + 256 * ((k : Nat) % 2 : Nat) + (c : Nat) * 16 + (r : Nat) := by
  have rest : ((16 * ((k : Nat) / 2) + (r : Nat) : Nat) : Int) % 16 = (r : Nat) := by omega
  have piece : ((16 * ((k : Nat) / 2) + (r : Nat) : Nat) : Int) / 16 = ((k : Nat) / 2 : Nat) := by omega
  simp only [placeOf, Stride.place, tile32x32, Equiv.coe_fn_symm_mk, rest, piece]
  push_cast
  ring

lemma own16x64 : Function.Injective (placeOf tile16x64 (.step 64) (.step 1)) := by
  rintro ⟨k, r, c⟩ ⟨k', r', c'⟩ same
  rw [place16x64, place16x64] at same
  simp only [Prod.mk.injEq, Fin.ext_iff]
  omega

lemma own32x16 : Function.Injective (placeOf tile32x16 (.step 16) (.step 1)) := by
  rintro ⟨k, r, c⟩ ⟨k', r', c'⟩ same
  rw [place32x16, place32x16] at same
  have digits (k : Fin 8) : ∃ p q : Nat, p < 4 ∧ q < 2 ∧ (k : Nat) = 4 * q + p ∧ (k : Nat) % 4 = p ∧
    (k : Nat) / 4 = q :=
    ⟨k % 4, k / 4, by omega, by omega, by omega, rfl, rfl⟩
  obtain ⟨p, q, ltP, ltQ, isK, isP, isQ⟩ := digits k
  obtain ⟨p', q', ltP', ltQ', isK', isP', isQ'⟩ := digits k'
  rw [isP, isQ, isP', isQ'] at same
  simp only [Prod.mk.injEq, Fin.ext_iff, isK, isK']
  clear isK isK' isP isQ isP' isQ'
  omega

lemma own32x32 {half : Int} (far : 512 ≤ half) :
    Function.Injective (placeOf tile32x32 (.cut 16 1 half) (.step 16)) := by
  rintro ⟨k, r, c⟩ ⟨k', r', c'⟩ same
  rw [place32x32, place32x32] at same
  have cases : ∀ k : Fin 4, ((k : Nat) / 2 : Nat) = 0 ∨ ((k : Nat) / 2 : Nat) = 1 := by omega
  simp only [Prod.mk.injEq, Fin.ext_iff]
  rcases cases k with upper | lower <;> rcases cases k' with upper' | lower'
  · rw [upper, upper'] at same
    omega
  · rw [upper, lower'] at same
    omega
  · rw [lower, upper'] at same
    omega
  · rw [lower, lower'] at same
    omega

/-! ### The kernels multiply -/

section Kernels
variable [CommRing R] {n K : Nat} {dataA dataB dataC : Int → R}

lemma pairs_turns : (((n * 2 : Nat) : Int).tdiv 2).toNat = n := by
  rw [Int.tdiv_eq_ediv_of_nonneg (by omega)]
  omega

lemma callMma16x64x2_right {A : Matrix (Fin 16) (Fin (n * 2)) R} {B : Matrix (Fin (n * 2)) (Fin 64) R}
    {C : Matrix (Fin 16) (Fin 64) R} (holdsA : Holds (.step 2) (.cut 2 1 32) dataA A)
    (holdsB : Holds (.cut 2 1 128) (.step 2) dataB B) (holdsC : Holds (.step 64) (.step 1) dataC C)
    (za : Tiles 4 16 R) : inTiles tile16x64 (callMma16x64x2 dataA dataB dataC (n * 2 : Nat) za) = C + A * B := by
  have loaded : inTiles tile16x64 (loadTiles [(0, 0), (1, 16), (2, 32), (3, 48)] 64 dataC za) = C :=
    load_holds holdsC place16x64 (by decide) (by decide) za
  rw [callMma16x64x2, pairs_turns, ← loaded]
  apply outers_holds (u := fun _ a _ => svld1 p16 dataA a)
    (v := fun k _ b => svld1 p16 dataB (b + 32 * (k : Nat))) finProdFinEquiv
  · intro a b
    simp
  · intro k a b
    fin_cases k <;> simp
  · intro k r c t
    apply Finset.sum_congr rfl
    intro e _
    rw [p16_at, p16_at, ← holdsA, ← holdsB]
    congr 2
    · simp only [Stride.place, lane_val, tile16x64, Equiv.coe_fn_symm_mk]
      omega
    · simp only [Stride.place, lane_val, tile16x64, Equiv.coe_fn_symm_mk]
      omega

lemma inner_zero {v u : Fin (16 * 2) → R} {r c : Fin 16} :
    inner (svzip1 v (svld1 p16Half (fun _ => 0) 0)) (svzip1 u (svld1 p16Half (fun _ => 0) 0)) r c =
      v ⟨r, by omega⟩ * u ⟨c, by omega⟩ := by
  have zero : ∀ lane, svld1 p16Half (fun _ => (0 : R)) 0 lane = 0 := by
    intro lane
    rw [svld1, ite_self]
  rw [Sme.inner, Fin.sum_univ_two]
  simp only [svzip1_at, if_true, Fin.isValue, one_ne_zero, if_false, zero, mul_zero, add_zero]

lemma p16Half_at {data : Int → R} {a : Int} (r : Fin 16) :
    svld1 p16Half data a ⟨r, by omega⟩ = data (a + (r : Nat)) := by
  have on : p16Half ⟨r, by omega⟩ = true := by
    simp only [p16Half, svwhilelt, decide_eq_true_eq]
    omega
  rw [svld1, if_pos on]

lemma callMma16x64x1_right {A : Matrix (Fin 16) (Fin K) R} {B : Matrix (Fin K) (Fin 64) R}
    {C : Matrix (Fin 16) (Fin 64) R} (holdsA : Holds (.step 1) (.step 16) dataA A)
    (holdsB : Holds (.step 64) (.step 1) dataB B) (holdsC : Holds (.step 64) (.step 1) dataC C)
    (za : Tiles 4 16 R) : inTiles tile16x64 (callMma16x64x1 dataA dataB dataC K za) = C + A * B := by
  have loaded : inTiles tile16x64 (loadTiles [(0, 0), (1, 16), (2, 32), (3, 48)] 64 dataC za) = C :=
    load_holds holdsC place16x64 (by decide) (by decide) za
  rw [callMma16x64x1, Int.toNat_natCast, ← loaded]
  apply outers_holds (d := 1) (u := fun _ a _ => svzip1 (svld1 p16Half dataA a) (svld1 p16Half (fun _ => 0) 0))
    (v := fun k _ b => svzip1 (svld1 p16Half dataB (b + 16 * (k : Nat))) (svld1 p16Half (fun _ => 0) 0))
    (Equiv.prodUnique _ _)
  · intro a b
    simp
  · intro k a b
    fin_cases k <;> simp
  · intro k r c t
    rw [inner_zero, Fin.sum_univ_one, p16Half_at, p16Half_at, ← holdsA, ← holdsB]
    congr 2
    · simp only [Stride.place, tile16x64, Equiv.coe_fn_symm_mk, Equiv.prodUnique_apply]
      omega
    · simp only [Stride.place, tile16x64, Equiv.coe_fn_symm_mk, Equiv.prodUnique_apply]
      omega

lemma callMma32x32x2_right {A : Matrix (Fin 32) (Fin (n * 2)) R} {B : Matrix (Fin (n * 2)) (Fin 32) R}
    (holdsA : Holds (.step 2) (.cut 2 1 64) dataA A) (holdsB : Holds (.cut 2 1 64) (.step 2) dataB B)
    (za : Tiles 4 16 R) :
    inTiles tile32x32 (callMma32x32x2 dataA dataB (n * 2 : Nat) za) = inTiles tile32x32 za + A * B := by
  rw [callMma32x32x2, pairs_turns]
  apply outers_holds (u := fun k a _ => svld1 p16 dataA (a + 32 * ((k : Nat) / 2 : Nat)))
    (v := fun k _ b => svld1 p16 dataB (b + 32 * ((k : Nat) % 2 : Nat))) finProdFinEquiv
  · intro a b
    simp
  · intro k a b
    fin_cases k <;> simp
  · intro k r c t
    apply Finset.sum_congr rfl
    intro e _
    rw [p16_at, p16_at, ← holdsA, ← holdsB]
    congr 2
    · simp only [Stride.place, lane_val, tile32x32, Equiv.coe_fn_symm_mk]
      omega
    · simp only [Stride.place, lane_val, tile32x32, Equiv.coe_fn_symm_mk]
      omega

lemma p16_lane {data : Int → R} {a : Int} (lane : Fin (16 * 2)) :
    svld1 p16 data a lane = data (a + (lane : Nat)) := by
  have on : p16 lane = true := svwhilelt_all (n := 32) _
  rw [svld1, if_pos on]

lemma rows_at {data : Int → R} {b : Int} (k : Fin 4) (c : Fin 16) (e : Fin 2) :
    (if (k : Nat) % 2 = 0 then svzip1 else svzip2) (svld1 p16 data b) (svld1 p16 data (b + 576))
      (finProdFinEquiv (c, e)) = data (b + 576 * (e : Nat) + (16 * ((k : Nat) % 2 : Nat) + (c : Nat))) := by
  have row : (if e = 0 then svld1 p16 data b else svld1 p16 data (b + 576)) = svld1 p16 data (b + 576 * (e : Nat)) := by
    rcases Fin.exists_fin_two.1 ⟨e, rfl⟩ with rfl | rfl <;> simp
  rcases Nat.mod_two_eq_zero_or_one k with left | right
  · rw [if_pos left, svzip1_at, row, p16_lane, left, Nat.cast_zero, mul_zero, zero_add]
  · rw [if_neg (by omega), svzip2_at, row, p16_lane, right]
    congr 1

lemma callMma32x32Rows_right {A : Matrix (Fin 32) (Fin (n * 2)) R} {B : Matrix (Fin (n * 2)) (Fin 32) R}
    (holdsA : Holds (.step 2) (.cut 2 1 64) dataA A) (holdsB : Holds (.step 576) (.step 1) dataB B)
    (za : Tiles 4 16 R) :
    inTiles tile32x32 (callMma32x32Rows dataA dataB (n * 2 : Nat) za) = inTiles tile32x32 za + A * B := by
  rw [callMma32x32Rows, pairs_turns]
  apply outers_holds (u := fun k a _ => svld1 p16 dataA (a + 32 * ((k : Nat) / 2 : Nat)))
    (v := fun k _ b => (if (k : Nat) % 2 = 0 then svzip1 else svzip2) (svld1 p16 dataB b) (svld1 p16 dataB (b + 576)))
    finProdFinEquiv
  · intro a b
    simp
  · intro k a b
    fin_cases k <;> simp
  · intro k r c t
    apply Finset.sum_congr rfl
    intro e _
    rw [p16_at, rows_at, ← holdsA, ← holdsB]
    refine congrArg₂ (· * ·) (congrArg dataA ?_) (congrArg dataB ?_)
    · simp only [Stride.place, lane_val, tile32x32, Equiv.coe_fn_symm_mk]
      omega
    · simp only [Stride.place, lane_val, tile32x32, Equiv.coe_fn_symm_mk]
      omega

lemma callMma32x16_right {A : Matrix (Fin 32) (Fin K) R} {B : Matrix (Fin K) (Fin 16) R}
    {C : Matrix (Fin 32) (Fin 16) R} (holdsA : Holds (.step 1) (.step 32) dataA A)
    (holdsB : Holds (.step 16) (.step 1) dataB B) (holdsC : Holds (.step 16) (.step 1) dataC C)
    (za : Tiles 8 8 R) : inTiles tile32x16 (callMma32x16 dataA dataB dataC K za) = C + A * B := by
  have loaded : inTiles tile32x16 (loadTiles
      [(0, 0), (4, 0 + 8), (1, 128), (5, 128 + 8), (2, 256), (6, 256 + 8), (3, 384), (7, 384 + 8)] 16 dataC za) = C :=
    load_holds holdsC place32x16 (by decide) (by decide) za
  rw [callMma32x16, Int.toNat_natCast, ← loaded]
  apply outers_holds (d := 1) (u := fun k a _ => svld1 p64 dataA (a + 8 * ((k : Nat) % 4 : Nat)))
    (v := fun k _ b => svld1 p64 dataB (b + 8 * ((k : Nat) / 4 : Nat))) (Equiv.prodUnique _ _)
  · intro a b
    simp
  · intro k a b
    fin_cases k <;> simp
  · intro k r c t
    rw [Sme.inner, Fin.sum_univ_one, Fin.sum_univ_one, p64_at, p64_at, ← holdsA, ← holdsB]
    congr 2
    · simp only [Stride.place, tile32x16, Equiv.coe_fn_symm_mk, Equiv.prodUnique_apply]
      omega
    · simp only [Stride.place, tile32x16, Equiv.coe_fn_symm_mk, Equiv.prodUnique_apply]
      omega

end Kernels

/-! ### The stores take what the kernels leave -/

section Stores
variable {data : Int → R}

lemma callCopy16x64F32Store_right (za : Tiles 4 16 R) :
    Holds (.step 64) (.step 1) (callCopy16x64F32Store data za) (inTiles tile16x64 za) := by
  have onto : ∀ x : Fin 4 × Fin 16 × Fin 16, ∃ k t lane, (k, t, lane) = x := by
    rintro ⟨k, r, c⟩
    exact ⟨k, r, c, rfl⟩
  exact store_holds (f := fun k t lane => (k, t, lane)) svwhilelt_all own16x64 place16x64 (by decide) (by decide)
    onto data za

lemma callCopy32x16F64Store_right (za : Tiles 8 8 R) :
    Holds (.step 16) (.step 1) (callCopy32x16F64Store data za) (inTiles tile32x16 za) := by
  have onto : ∀ x : Fin 8 × Fin 8 × Fin 8, ∃ k t lane, (k, t, lane) = x := by
    rintro ⟨k, r, c⟩
    exact ⟨k, r, c, rfl⟩
  exact store_holds (f := fun k t lane => (k, t, lane)) svwhilelt_all own32x16 place32x16 (by decide) (by decide)
    onto data za

lemma callCopy32x32F32Store_right {half : Int} (far : 512 ≤ half) (za : Tiles 4 16 R) :
    Holds (.cut 16 1 half) (.step 16) (callCopy32x32F32Store half data za) (inTiles tile32x32 za) := by
  have onto : ∀ x : Fin 4 × Fin 16 × Fin 16, ∃ k t lane, (k, lane, t) = x := by
    rintro ⟨k, r, c⟩
    exact ⟨k, c, r, rfl⟩
  have corners : ∀ k : Fin 4, (k, ((k : Nat) / 2 : Nat) * half + 256 * ((k : Nat) % 2 : Nat)) ∈
      [((0 : Fin 4), (0 : Int)), (1, 16 * 16), (2, half), (3, half + 16 * 16)] := by
    intro k
    fin_cases k <;> simp
  have only : ∀ e ∈ [((0 : Fin 4), (0 : Int)), (1, 16 * 16), (2, half), (3, half + 16 * 16)],
      e.2 = (((e.1 : Fin 4) : Nat) / 2 : Nat) * half + 256 * (((e.1 : Fin 4) : Nat) % 2 : Nat) := by
    simp
  exact store_holds (f := fun k t lane => (k, lane, t)) (fun _ => rfl) (own32x32 far)
    (fun k t lane => place32x32 half k lane t) corners only onto data za

end Stores

/-- The kernels give the same tiles whether the matrices are packed or not, and the stores find the product in them. -/
theorem kernels_multiply (R : Type) [CommRing R] :
    (∀ (K : Nat) (A : Matrix (Fin 16) (Fin K) R) (B : Matrix (Fin K) (Fin 64) R) (C : Matrix (Fin 16) (Fin 64) R)
        (packedA packedB a b c c' d : Int → R) (za za' : Tiles 4 16 R), Even K →
      Holds (.step 2) (.cut 2 1 32) packedA A → Holds (.cut 2 1 128) (.step 2) packedB B →
      Holds (.step 1) (.step 16) a A → Holds (.step 64) (.step 1) b B →
      Holds (.step 64) (.step 1) c C → Holds (.step 64) (.step 1) c' C →
      callMma16x64x2 packedA packedB c K za = callMma16x64x1 a b c' K za' ∧
        inTiles tile16x64 (callMma16x64x1 a b c' K za') = C + A * B ∧
        Holds (.step 64) (.step 1) (callCopy16x64F32Store d (callMma16x64x1 a b c' K za')) (C + A * B)) ∧
    (∀ (K : Nat) (A : Matrix (Fin 32) (Fin K) R) (B : Matrix (Fin K) (Fin 32) R) (packedA packedB b d : Int → R)
        (za : Tiles 4 16 R), Even K →
      Holds (.step 2) (.cut 2 1 64) packedA A → Holds (.cut 2 1 64) (.step 2) packedB B →
      Holds (.step 576) (.step 1) b B →
      callMma32x32x2 packedA packedB K za = callMma32x32Rows packedA b K za ∧
        inTiles tile32x32 (callMma32x32Rows packedA b K za) = inTiles tile32x32 za + A * B ∧
        Holds (.cut 16 1 1024) (.step 16) (callCopy32x32F32Store1024 d (callMma32x32Rows packedA b K za))
          (inTiles tile32x32 za + A * B) ∧
        Holds (.cut 16 1 2048) (.step 16) (callCopy32x32F32Store2048 d (callMma32x32Rows packedA b K za))
          (inTiles tile32x32 za + A * B)) ∧
    (∀ (K : Nat) (A : Matrix (Fin 32) (Fin K) R) (B : Matrix (Fin K) (Fin 16) R) (C : Matrix (Fin 32) (Fin 16) R)
        (a b c d : Int → R) (za : Tiles 8 8 R),
      Holds (.step 1) (.step 32) a A → Holds (.step 16) (.step 1) b B → Holds (.step 16) (.step 1) c C →
      inTiles tile32x16 (callMma32x16 a b c K za) = C + A * B ∧
        Holds (.step 16) (.step 1) (callCopy32x16F64Store d (callMma32x16 a b c K za)) (C + A * B)) := by
  refine ⟨?_, ?_, ?_⟩
  · intro K A B C packedA packedB a b c c' d za za' even onPackedA onPackedB onA onB onC onC'
    obtain ⟨n, rfl⟩ := exists_eq_mul_left_of_dvd even.two_dvd
    have packed := callMma16x64x2_right onPackedA onPackedB onC za
    have plain := callMma16x64x1_right onA onB onC' za'
    refine ⟨inTiles_inj (packed.trans plain.symm), plain, ?_⟩
    rw [← plain]
    exact callCopy16x64F32Store_right _
  · intro K A B packedA packedB b d za even onPackedA onPackedB onB
    obtain ⟨n, rfl⟩ := exists_eq_mul_left_of_dvd even.two_dvd
    have packed := callMma32x32x2_right onPackedA onPackedB za
    have rows := callMma32x32Rows_right onPackedA onB za
    have near : (512 : Int) ≤ 1024 := by decide
    have far : (512 : Int) ≤ 2048 := by decide
    refine ⟨inTiles_inj (packed.trans rows.symm), rows, ?_, ?_⟩
    · rw [← rows]
      exact callCopy32x32F32Store_right near _
    · rw [← rows]
      exact callCopy32x32F32Store_right far _
  · intro K A B C a b c d za onA onB onC
    have right := callMma32x16_right onA onB onC za
    refine ⟨right, ?_⟩
    rw [← right]
    exact callCopy32x16F64Store_right _

def rowIndex (m w : Nat) : Matrix (Fin m) (Fin w) Int := Matrix.of fun i _ => i

/-- A matrix whose element is its column. -/
def colIndex (m w : Nat) : Matrix (Fin m) (Fin w) Int := Matrix.of fun _ j => j

/-- Two products for each element. -/
theorem kernels_multiply_two : (callMma16x64x2 (fun x => x / 2) (fun x => x / 2) (fun x => x / 64) 2 (fun _ => 5) =
        callMma16x64x1 (fun x => x % 16) (fun x => x % 64) (fun x => x / 64) 2 (fun _ => 7) ∧
      inTiles tile16x64 (callMma16x64x1 (fun x => x % 16) (fun x => x % 64) (fun x => x / 64) 2 (fun _ => 7)) =
        rowIndex 16 64 + rowIndex 16 2 * colIndex 2 64) ∧
    (callMma32x32x2 (fun x => x / 2) (fun x => x / 2) 2 (fun _ => 5) =
        callMma32x32Rows (fun x => x / 2) (fun x => x % 576) 2 (fun _ => 5) ∧
      Holds (.cut 16 1 2048) (.step 16)
        (callCopy32x32F32Store2048 (fun _ => 0) (callMma32x32Rows (fun x => x / 2) (fun x => x % 576) 2 (fun _ => 5)))
        (inTiles tile32x32 (fun _ => 5) + rowIndex 32 2 * colIndex 2 32)) ∧
    Holds (.step 16) (.step 1)
      (callCopy32x16F64Store (fun _ => 0)
        (callMma32x16 (fun x => x % 32) (fun x => x % 16) (fun x => x / 16) 3 (fun _ => 5)))
      (rowIndex 32 16 + rowIndex 32 3 * colIndex 3 16) := by
  obtain ⟨wide, square, tall⟩ := kernels_multiply Int
  have first := wide 2 (rowIndex 16 2) (colIndex 2 64) (rowIndex 16 64) (fun x => x / 2) (fun x => x / 2)
    (fun x => x % 16) (fun x => x % 64) (fun x => x / 64) (fun x => x / 64) (fun _ => 0) (fun _ => 5) (fun _ => 7)
    even_two (by decide +kernel) (by decide +kernel) (by decide +kernel) (by decide +kernel) (by decide +kernel)
    (by decide +kernel)
  have second := square 2 (rowIndex 32 2) (colIndex 2 32) (fun x => x / 2) (fun x => x / 2) (fun x => x % 576)
    (fun _ => 0) (fun _ => 5) even_two (by decide +kernel) (by decide +kernel) (by decide +kernel)
  have third := tall 3 (rowIndex 32 3) (colIndex 3 16) (rowIndex 32 16) (fun x => x % 32) (fun x => x % 16)
    (fun x => x / 16) (fun _ => 0) (fun _ => 5) (by decide +kernel) (by decide +kernel) (by decide +kernel)
  exact ⟨⟨first.1, first.2.1⟩, ⟨second.1, second.2.2.2⟩, third.2⟩

end Kupl.Mma
