import Kupl.Mma.Sme
import Mathlib.Data.Matrix.Mul
import Mathlib.Tactic.Ring

/-!
# Tiles over a ring

The instructions of the matrix extension in exact arithmetic: the elements of vectors, tiles and memories are those of a
ring. There are `q` tiles of `l` by `l` elements, and a vector that is multiplied has `g` elements for each row or
column of a tile. A loop of outer products adds a product of matrices to the tiles (`outers_mul`).
-/

namespace Kupl.Sme

variable {R : Type} {q l g n : Nat}

/-- The tiles, at tile, horizontal slice and column. -/
abbrev Tiles (q l : Nat) (R : Type) := Fin q × Fin l × Fin l → R

/-! ### Stores and permutations -/

/-- All lanes (`svptrue_b16`). -/
def svptrue : Pred n := fun _ => true

/-- A vector to memory, the places of the other lanes unchanged. -/
def svst1 (p : Pred n) (v : Fin n → R) (a : Int) (mem : Int → R) : Int → R :=
  fun x => if h : 0 ≤ x - a ∧ x - a < n then
      if p ⟨(x - a).toNat, by omega⟩ then v ⟨(x - a).toNat, by omega⟩ else mem x
    else mem x

/-- A horizontal slice to memory (`svst1_hor_za32`, `svst1_hor_za64`). -/
def svst1Hor (tile : Fin q) (slice : Fin l) (p : Pred l) (za : Tiles q l R) (a : Int) (mem : Int → R) : Int → R :=
  svst1 p (fun c => za (tile, slice, c)) a mem

/-- A vertical slice to memory (`svst1_ver_za32`). -/
def svst1Ver (tile : Fin q) (slice : Fin l) (p : Pred l) (za : Tiles q l R) (a : Int) (mem : Int → R) : Int → R :=
  svst1 p (fun r => za (tile, r, slice)) a mem

/-- The low halves of two vectors, by turns (`svzip1_bf16`). -/
def svzip1 (v w : Fin (l * 2) → R) : Fin (l * 2) → R :=
  fun lane => (if lane.val % 2 = 0 then v else w) ⟨lane / 2, by omega⟩

/-- The high halves of two vectors, by turns (`svzip2_bf16`). -/
def svzip2 (v w : Fin (l * 2) → R) : Fin (l * 2) → R :=
  fun lane => (if lane.val % 2 = 0 then v else w) ⟨l + lane / 2, by omega⟩

lemma lane_val (r : Fin l) (e : Fin g) : (finProdFinEquiv (r, e)).val = e + g * r := rfl

lemma svzip1_at {v u : Fin (l * 2) → R} (r : Fin l) (e : Fin 2) :
    svzip1 v u (finProdFinEquiv (r, e)) = (if e = 0 then v else u) ⟨r, by omega⟩ := by
  have rest : (finProdFinEquiv (r, e)).val % 2 = 0 ↔ e = 0 := by
    rw [lane_val]
    omega
  have piece : (finProdFinEquiv (r, e)).val / 2 = r := by
    rw [lane_val]
    omega
  simp only [svzip1, rest, piece]

lemma svzip2_at {v u : Fin (l * 2) → R} (r : Fin l) (e : Fin 2) :
    svzip2 v u (finProdFinEquiv (r, e)) = (if e = 0 then v else u) ⟨l + r, by omega⟩ := by
  have rest : (finProdFinEquiv (r, e)).val % 2 = 0 ↔ e = 0 := by
    rw [lane_val]
    omega
  have piece : (finProdFinEquiv (r, e)).val / 2 = r := by
    rw [lane_val]
    omega
  simp only [svzip2, rest, piece]

lemma svst1_wrote {f mem : Int → R} {a : Int} {p : Pred n} {v : Fin n → R} (all : ∀ lane, p lane = true)
    (h : ∀ lane : Fin n, f (a + (lane : Nat)) = v lane) :
    Wrote f (fun x => a ≤ x ∧ x < a + n) mem (svst1 p v a mem) := by
  intro x
  constructor
  · rintro ⟨low, high⟩
    have inside : 0 ≤ x - a ∧ x - a < n := by omega
    have at_ := h ⟨(x - a).toNat, by omega⟩
    have place : a + (((x - a).toNat : Nat) : Int) = x := by omega
    rw [place] at at_
    rw [svst1, dif_pos inside, if_pos (all _), at_]
  · intro out
    rw [svst1, dif_neg (fun inside => out (by omega))]

section Stores
variable [NeZero l] {corner : Fin q → Int} {tiles : List (Fin q × Int)} {row : Int}

lemma store_right {elem : Fin q → Fin l → Fin l → Fin q × Fin l × Fin l} {p : Pred l}
    (all : ∀ lane, p lane = true)
    {place : Fin q × Fin l × Fin l → Int} (own : Function.Injective place) (za : Tiles q l R)
    (corners : ∀ k, (k, corner k) ∈ tiles) (only : ∀ e ∈ tiles, e.2 = corner e.1)
    (places : ∀ k t lane, place (elem k t lane) = corner k + (t : Nat) * row + (lane : Nat)) (mem : Int → R)
    (k : Fin q) (t lane : Fin l) :
    slices (fun t tile a mem => svst1 p (fun lane => za (elem tile t lane)) a mem) row l 0 tiles mem
      (place (elem k t lane)) = za (elem k t lane) := by
  have stored := slices_wrote (Function.extend place za mem) (fun _ _ a x => a ≤ x ∧ x < a + l) row
    (fun t tile a mem => svst1 p (fun lane => za (elem tile t lane)) a mem) tiles (by
      intro t e at_ m
      apply svst1_wrote all
      intro lane
      rw [only e at_, ← places, own.extend_apply]) mem
  rw [(stored (place (elem k t lane))).1 ⟨t, (k, corner k), corners k, ?_⟩, own.extend_apply]
  rw [places]
  omega

end Stores

/-! ### Loads and products -/

variable [CommRing R]

/-- A vector from memory, `0` in the other lanes (`svld1_bf16`, `svld1_f32`, `svld1_f64`, `ldnt1h`). -/
def svld1 (p : Pred n) (mem : Int → R) (a : Int) : Fin n →
    R := fun lane => if p lane then mem (a + (lane : Nat)) else 0

/-- A vector to a horizontal slice, the other lanes unchanged (`svwrite_hor_za32_m`, `svwrite_hor_za64_m`). -/
def svwriteHor (tile : Fin q) (slice : Fin l) (p : Pred l) (v : Fin l → R) (za : Tiles q l R) : Tiles q l R :=
  fun (q, r, c) => if q = tile ∧ r = slice ∧ p c then v c else za (q, r, c)

/-- A lane, `0` where it takes no part. -/
def active (p : Pred n) (v : Fin n → R) (lane : Fin n) : R := if p lane then v lane else 0

/-- The sum of `g` outer products, added to a tile (`svmopa_za32_bf16_m` with two, `svmopa_za64_f64_m` with one). -/
def svmopa (tile : Fin q) (pn pm : Pred (l * g)) (zn zm : Fin (l * g) → R) (za : Tiles q l R) : Tiles q l R :=
  fun (q, r, c) =>
    if q = tile then
      za (q, r, c) + ∑ e : Fin g, active pn zn (finProdFinEquiv (r, e)) * active pm zm (finProdFinEquiv (c, e))
    else za (q, r, c)

/-- The loop over the outer products: those of one turn, and then both pointers move. -/
def outers (products : Int → Int → List (Fin q × (Fin (l * g) → R) × (Fin (l * g) → R))) (stepA stepB : Int) :
    Nat → Int → Int → Tiles q l R → Tiles q l R
  | 0, _, _, za => za
  | n + 1, a, b, za =>
    outers products stepA stepB n (a + stepA) (b + stepB)
      ((products a b).foldl
        (fun za e => svmopa e.1 (svwhilelt 0 (l * g : Nat)) (svwhilelt 0 (l * g : Nat)) e.2.1 e.2.2 za) za)

/-! ### The products -/

/-- What the outer products of two vectors add to an element. -/
def inner (zn zm : Fin (l * g) → R) (r c : Fin l) : R :=
  ∑ e : Fin g, zn (finProdFinEquiv (r, e)) * zm (finProdFinEquiv (c, e))

lemma svmopa_at {tile : Fin q} {zn zm : Fin (l * g) → R} {za : Tiles q l R} {r c : Fin l} :
    svmopa tile (svwhilelt 0 (l * g : Nat)) (svwhilelt 0 (l * g : Nat)) zn zm za (tile, r, c) =
      za (tile, r, c) + inner zn zm r c := by
  simp only [svmopa, if_true, active, svwhilelt_all, inner]

lemma svmopa_other {tile k : Fin q} {pn pm : Pred (l * g)} {zn zm : Fin (l * g) → R} {za : Tiles q l R} {r c : Fin l}
    (ne : k ≠ tile) : svmopa tile pn pm zn zm za (k, r, c) = za (k, r, c) := by
  simp only [svmopa, if_neg ne]

section Turn
variable {k : Fin q} {r c : Fin l}

lemma products_other {products : List (Fin q × (Fin (l * g) → R) × (Fin (l * g) → R))} (za : Tiles q l R)
    (out : k ∉ products.map (·.1)) :
    products.foldl (fun za e =>
      svmopa e.1 (svwhilelt 0 (l * g : Nat)) (svwhilelt 0 (l * g : Nat)) e.2.1 e.2.2 za) za (k, r, c) =
        za (k, r, c) := by
  induction products generalizing za with
  | nil => rfl
  | cons e products ih =>
    rw [List.map_cons, List.mem_cons, not_or] at out
    rw [List.foldl_cons, ih _ out.2, svmopa_other out.1]

lemma products_at {products : List (Fin q × (Fin (l * g) → R) × (Fin (l * g) → R))} {zn zm : Fin (l * g) → R}
    (za : Tiles q l R) (once : (products.map (·.1)).Nodup) (mem : (k, zn, zm) ∈ products) :
    products.foldl (fun za e =>
      svmopa e.1 (svwhilelt 0 (l * g : Nat)) (svwhilelt 0 (l * g : Nat)) e.2.1 e.2.2 za) za (k, r, c) =
        za (k, r, c) + inner zn zm r c := by
  induction products generalizing za with
  | nil => cases mem
  | cons e products ih =>
    rw [List.map_cons, List.nodup_cons] at once
    rw [List.foldl_cons]
    rcases List.mem_cons.1 mem with rfl | rest
    · rw [products_other _ once.1, svmopa_at]
    · have ne : k ≠ e.1 := by
        rintro rfl
        exact once.1 (List.mem_map.2 ⟨_, rest, rfl⟩)
      rw [ih _ once.2 rest, svmopa_other ne]

end Turn

lemma outers_eq {products : Int → Int → List (Fin q × (Fin (l * g) → R) × (Fin (l * g) → R))}
    {stepA stepB : Int}
    {zn zm : Int → Int → Fin (l * g) → R} {k : Fin q} {r c : Fin l}
    (once : ∀ a b, ((products a b).map (·.1)).Nodup)
    (mem : ∀ a b, (k, zn a b, zm a b) ∈ products a b) (n : Nat) (a b : Int) (za : Tiles q l R) :
    outers products stepA stepB n a b za (k, r, c) = za (k, r, c) +
      ∑ t : Fin n, inner (zn (a + t * stepA) (b + t * stepB)) (zm (a + t * stepA) (b + t * stepB)) r c := by
  induction n generalizing a b za with
  | zero => simp [outers]
  | succ n ih =>
    have later : ∀ (z step : Int) (t : Fin n), z + step + t * step = z + t.succ * step := by
      intro z step t
      rw [Fin.val_succ]
      push_cast
      ring
    have first : ∀ (z step : Int), z + ((0 : Fin (n + 1)) : Nat) * step = z := by
      intro z step
      simp
    rw [outers, ih, products_at za (once a b) (mem a b), Fin.sum_univ_succ, first, first, add_assoc]
    simp only [later]

lemma outers_mul {products : Int → Int → List (Fin q × (Fin (l * g) → R) × (Fin (l * g) → R))}
    {stepA stepB : Int}
    {zn zm : Int → Int → Fin (l * g) → R} {k : Fin q} {r c : Fin l} {m w K d : Nat} {A : Matrix (Fin m) (Fin K) R}
    {B : Matrix (Fin K) (Fin w) R} {i : Fin m} {j : Fin w} (σ : Fin n × Fin d ≃ Fin K)
    (once : ∀ a b, ((products a b).map (·.1)).Nodup) (mem : ∀ a b, (k, zn a b, zm a b) ∈ products a b)
    (turn : ∀ t : Fin n, inner (zn (t * stepA) (t * stepB)) (zm (t * stepA) (t * stepB)) r c =
      ∑ e : Fin d, A i (σ (t, e)) * B (σ (t, e)) j) (za : Tiles q l R) :
    outers products stepA stepB n 0 0 za (k, r, c) = za (k, r, c) + (A * B) i j := by
  rw [outers_eq once mem, Matrix.mul_apply, ← Equiv.sum_comp σ, Fintype.sum_prod_type]
  congr 1
  apply Finset.sum_congr rfl
  intro t _
  rw [Int.zero_add, Int.zero_add, turn]

/-! ### The loads -/

section Writes
variable {tile : Fin q} {t : Fin l} {a : Int} {mem : Int → R} {za : Tiles q l R}

lemma svwriteHor_wrote {f : Tiles q l R} (h : ∀ c : Fin l, f (tile, t, c) = mem (a + (c : Nat))) :
    Wrote f (fun x => x.1 = tile ∧ x.2.1 = t) za
      (svwriteHor tile t (svwhilelt 0 l) (svld1 (svwhilelt 0 l) mem a) za) := by
  rintro ⟨q, r, c⟩
  have on : svwhilelt 0 l c = true := svwhilelt_all c
  constructor
  · rintro ⟨rfl, rfl⟩
    simp only [svwriteHor, svld1, and_self, if_true, on, h]
  · intro out
    simp only [svwriteHor, on, and_true, if_neg out]

end Writes

/-! ### Loading the tiles -/

section Sweeps
variable [NeZero l] {corner : Fin q → Int} {tiles : List (Fin q × Int)} {row : Int}

lemma load_right (corners : ∀ k, (k, corner k) ∈ tiles) (only : ∀ e ∈ tiles, e.2 = corner e.1) (mem : Int → R)
    (za : Tiles q l R) (k : Fin q) (r c : Fin l) :
    slices (fun t tile a za => svwriteHor tile t (svwhilelt 0 l) (svld1 (svwhilelt 0 l) mem a) za) row l 0 tiles za
      (k, r, c) = mem (corner k + (r : Nat) * row + (c : Nat)) := by
  have loaded := slices_wrote
    (fun (x : Fin q × Fin l × Fin l) => mem (corner x.1 + (x.2.1 : Nat) * row + (x.2.2 : Nat)))
    (fun t q _ x => x.1 = q ∧ x.2.1 = t) row
    (fun t tile a za => svwriteHor tile t (svwhilelt 0 l) (svld1 (svwhilelt 0 l) mem a) za) tiles (by
      intro t e at_ m
      apply svwriteHor_wrote
      intro c
      rw [only e at_]) za
  exact (loaded (k, r, c)).1 ⟨r, (k, corner k), corners k, rfl, rfl⟩

end Sweeps

end Kupl.Sme
