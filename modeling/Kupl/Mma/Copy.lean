import Kupl.Mma.Sme
import Kupl.Word.Checked

/-!
# The copies of the matrix kernels (`kupl_mma_copy.h`)

The four kernels that pack matrices of bytes differ in the number of lines that they pack together and in the tiles that
they use: `callCopyTrans` is their common body. A line is a row of A or a column of B, and lies in one piece; the packed
block of four consecutive elements of every line comes before that of the next four. The two kernels that store the
product empty the four tiles: `callCopyStore`.

Products of `int` are checked; `none` is an overflow. Pointers are offsets in their buffer.

| source | here |
|---|---|
| `KP36_16x4_INT8_TRANS_RM2ZZ` | `callCopy16x4Int8TransRm2zz` |
| `KP36_4x64_INT8_TRANS_CM2NN` | `callCopy4x64Int8TransCm2nn` |
| `KP36_32x4_INT8_TRANS_RM2ZZ` | `callCopy32x4Int8TransRm2zz` |
| `KP36_4x32_INT8_TRANS_CM2NN` | `callCopy4x32Int8TransCm2nn` |
| `KP36_16x64_INT32_STORE`, `KP36_32x32_INT32_STORE` | `callCopy16x64Int32Store`, `callCopy32x32Int32Store` |
-/

namespace Kupl.Mma
open Sme

/-- The loop `for (int i = 0; i < stop; i += step)`, with its turns as fuel. -/
def loop {σ : Type} (step : Int) (body : Int → σ → Option σ) : Nat → Int → σ → Option σ
  | 0, _, s => some s
  | n + 1, i, s => do
    let s ← body i s
    let i ← Word.add 32 i step
    loop step body n i s

def turns (stop step : Int) : Nat := ((stop + step - 1) / step).toNat

/-- What a packing kernel has of its own: the lines that it packs together, and for each tile the first of its lines
and its place in the packed block. -/
structure Trans where
  lines : Int
  tiles : List (Fin 4 × Int × Int)

/-- Where the lines of a tile begin (C++ `data_src0` to `data_src3`). -/
def dataSrc (size tileL tileK : Int) : Fin 4 × Int × Int → Option (Fin 4 × Int)
  | (tile, line, _) => do
    let first ← Word.add 32 tileL line
    let row ← Word.mul 32 first size
    pure (tile, row + tileK)

/-- The body of the two loops: 64 bytes of every line go through the tiles. -/
def transBlock (kernel : Trans) (src : Int → Byte) (size tileL tileK : Int) (s : Za × (Int → Byte)) :
    Option (Za × (Int → Byte)) := do
  let srcs ← kernel.tiles.mapM (dataSrc size tileL tileK)
  let za := sweep (fun t tile a za => svld1HorZa32 tile t (svwhilelt 0 16) src a za) size 16 0 srcs s.1
  let block ← Word.mul 32 tileL size
  let place ← Word.mul 32 tileK kernel.lines
  let dsts := kernel.tiles.map fun (tile, _, off) => (tile, block + place + off)
  pure (za, sweep (fun t tile a dst => svst1VerZa32 tile t (svwhilelt 0 16) za a dst) (kernel.lines * 4) 16 0 dsts s.2)

/-- The packing kernels, for `count` lines of `size` bytes. -/
def callCopyTrans (kernel : Trans) (dst src : Int → Byte) (count size : Int) (za : Za) :
    Option (Za × (Int → Byte)) :=
  loop kernel.lines (fun tileL => loop 64 (transBlock kernel src size tileL) (turns size 64) 0)
    (turns count kernel.lines) 0 (za, dst)

section Copies
variable (dst src : Int → Byte) (sizeM sizeN : Int) (za : Za)

/-- (C++ `KP36_16x4_INT8_TRANS_RM2ZZ`): the lines are the rows. -/
def callCopy16x4Int8TransRm2zz : Option (Za × (Int → Byte)) :=
  callCopyTrans ⟨16, [(0, 0, 0)]⟩ dst src sizeM sizeN za

/-- (C++ `KP36_4x64_INT8_TRANS_CM2NN`): the lines are the columns. -/
def callCopy4x64Int8TransCm2nn : Option (Za × (Int → Byte)) :=
  callCopyTrans ⟨64, [(0, 0, 0), (1, 16, 64), (2, 32, 128), (3, 48, 192)]⟩ dst src sizeN sizeM za

/-- (C++ `KP36_32x4_INT8_TRANS_RM2ZZ`): the lines are the rows. -/
def callCopy32x4Int8TransRm2zz : Option (Za × (Int → Byte)) :=
  callCopyTrans ⟨32, [(0, 0, 0), (1, 16, 64)]⟩ dst src sizeM sizeN za

/-- (C++ `KP36_4x32_INT8_TRANS_CM2NN`): the lines are the columns. -/
def callCopy4x32Int8TransCm2nn : Option (Za × (Int → Byte)) :=
  callCopyTrans ⟨32, [(0, 0, 0), (1, 16, 64)]⟩ dst src sizeN sizeM za

end Copies

/-- The kernels that store the tiles: the place of each tile, and from one row to the next. -/
def callCopyStore (tiles : List (Fin 4 × Int)) (row : Int) (data : Int → Word32) (za : Za) : Int → Word32 :=
  sweep (fun t tile a data => svst1HorZa32 tile t (svwhilelt 0 16) za a data) row 16 0 tiles data

/-- (C++ `KP36_16x64_INT32_STORE`). -/
def callCopy16x64Int32Store (data : Int → Word32) (za : Za) : Int → Word32 :=
  callCopyStore [(0, 0), (1, 16), (2, 32), (3, 48)] 64 data za

/-- (C++ `KP36_32x32_INT32_STORE`). -/
def callCopy32x32Int32Store (data : Int → Word32) (za : Za) : Int → Word32 :=
  callCopyStore [(0, 0), (1, 16), (2, 16 * 32), (3, 16 * 32 + 16)] 32 data za

/-! ### The loops -/

section Loop
variable {σ : Type} {step : Int} {body : Int → σ → Option σ} {n : Nat}

lemma loop_some (P : Nat → σ → Prop) {s : σ} (nonneg : 0 ≤ step) (fits : n * step < 2 ^ 31)
    (turn : ∀ u < n, ∀ s, P u s → ∃ s', body (u * step) s = some s' ∧ P (u + 1) s') (start : P 0 s) :
    ∃ s', loop step body n 0 s = some s' ∧ P n s' := by
  have from_ : ∀ (k u : Nat) (s : σ), u + k = n → P u s →
    ∃ s', loop step body k (u * step) s = some s' ∧ P n s' := by
    intro k
    induction k with
    | zero =>
      rintro u s rfl here
      exact ⟨s, rfl, here⟩
    | succ k ih =>
      intro u s sum here
      obtain ⟨s₁, run, next⟩ := turn u (by omega) s here
      have grow : ((u + 1 : Nat) : Int) * step ≤ n * step := by
        apply Int.mul_le_mul_of_nonneg_right _ nonneg
        exact_mod_cast (by omega : u + 1 ≤ n)
      have low : 0 ≤ ((u + 1 : Nat) : Int) * step := Int.mul_nonneg (by omega) nonneg
      have next_eq : (u : Int) * step + step = ((u + 1 : Nat) : Int) * step := by
        push_cast
        rw [Int.add_mul, Int.one_mul]
      have moved : Word.add 32 (u * step) step = some (((u + 1 : Nat) : Int) * step) := by
        rw [Word.add_eq (by rw [next_eq]; constructor <;> omega), next_eq]
      obtain ⟨s', rest, last⟩ := ih (u + 1) s₁ (by omega) next
      refine ⟨s', ?_, last⟩
      rw [loop, run]
      simp only [Option.bind_eq_bind, Option.bind_some, moved]
      exact rest
  obtain ⟨s', run, last⟩ := from_ n 0 s (by omega) start
  exact ⟨s', by simpa using run, last⟩

lemma loop_none {u : Nat} (lt : u < n) (stuck : ∀ s, body (u * step) s = none) (s : σ) :
    loop step body n 0 s = none := by
  have from_ : ∀ (k v : Nat) (s : σ), v ≤ u → u < v + k → loop step body k (v * step) s = none := by
    intro k
    induction k with
    | zero => intro v s le lt; omega
    | succ k ih =>
      intro v s le lt
      by_cases here : v = u
      · subst here
        rw [loop, stuck]
        rfl
      · rw [loop]
        cases run : body (v * step) s with
        | none => rfl
        | some s₁ =>
          simp only [Option.bind_eq_bind, Option.bind_some]
          cases moved : Word.add 32 (v * step) step with
          | none => rfl
          | some i =>
            obtain ⟨_, rfl⟩ := Word.add_eq_some.1 moved
            have rest := ih (v + 1) s₁ (by omega) (by omega)
            have next_eq : (v : Int) * step + step = ((v + 1 : Nat) : Int) * step := by
              push_cast
              rw [Int.add_mul, Int.one_mul]
            simp only [Option.bind_some, next_eq]
            exact rest
  simpa using from_ n 0 s (by omega) (by omega)

lemma turns_mul {n : Nat} {step : Int} (pos : 0 < step) : turns (n * step) step = n := by
  have div : (n * step + step - 1) / step = n := by
    rw [show (n : Int) * step + step - 1 = (step - 1) + n * step by omega,
      Int.add_mul_ediv_right _ _ (by omega), Int.ediv_eq_zero_of_lt (by omega) (by omega), Int.zero_add]
  rw [turns, div, Int.toNat_natCast]

lemma mapM_some {α β : Type} {f : α → Option β} {g : α → β} {l : List α}
    (h : ∀ e ∈ l, f e = some (g e)) : l.mapM f = some (l.map g) := by
  induction l with
  | nil => rfl
  | cons e l ih =>
    rw [List.mapM_cons, h e List.mem_cons_self, ih (fun e mem => h e (List.mem_cons_of_mem _ mem))]
    rfl

end Loop

end Kupl.Mma
