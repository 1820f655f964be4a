import Kupl.Mma.Atoms

/-!
# The product of packed matrices (`kupl_mma_mma.h`)

The two kernels for bytes load the four tiles from C and add one group of four products after the other: the bytes of
one group stand together in the packed matrices. `chain16x64` and `chain32x32` run the kernels one after the other.

| source | here |
|---|---|
| `call_mma<16, 64, …, int8_t, int8_t, int32_t>` | `callMma16x64` |
| `call_mma<32, 32, …, int8_t, int8_t, int32_t>` | `callMma32x32` |
-/

namespace Kupl.Mma
open Sme Finset

/-- The loop over the groups: the products of one turn, and then both pointers move. -/
def outer (products : List (Fin 4 × Int × Int)) (stepA stepB : Int) (dataA dataB : Int → Byte) :
    Nat → Int → Int → Za → Za
  | 0, _, _, za => za
  | n + 1, a, b, za =>
    outer products stepA stepB dataA dataB n (a + stepA) (b + stepB)
      (products.foldl (fun za (tile, offA, offB) =>
        svmopaZa32S8 tile (svwhilelt 0 64) (svwhilelt 0 64) (svld1S8 (svwhilelt 0 64) dataA (a + offA))
          (svld1S8 (svwhilelt 0 64) dataB (b + offB)) za) za)

/-- The two kernels: the places of the tiles in C, and the places in the packed group of what is multiplied into each
tile. -/
def callMma (tiles : List (Fin 4 × Int)) (row : Int) (products : List (Fin 4 × Int × Int)) (stepA stepB : Int)
    (dataA dataB : Int → Byte) (dataC : Int → Word32) (sizeK : Int) (za : Za) : Za :=
  outer products stepA stepB dataA dataB (sizeK.tdiv 4).toNat 0 0
    (sweep (fun t tile a za => svwriteHorZa32 tile t (svwhilelt 0 16) (svld1S32 (svwhilelt 0 16) dataC a) za) row 16 0
      tiles za)

/-- (C++ `call_mma<16, 64, …>`). -/
def callMma16x64 (dataA dataB : Int → Byte) (dataC : Int → Word32) (sizeK : Int) (za : Za) : Za :=
  callMma [(0, 0), (1, 16), (2, 32), (3, 48)] 64 [(0, 0, 0), (1, 0, 64), (2, 0, 128), (3, 0, 192)] 64 256
    dataA dataB dataC sizeK za

/-- (C++ `call_mma<32, 32, …>`). -/
def callMma32x32 (dataA dataB : Int → Byte) (dataC : Int → Word32) (sizeK : Int) (za : Za) : Za :=
  callMma [(0, 0), (1, 16), (2, 16 * 32), (3, 16 * 32 + 16)] 32 [(0, 0, 0), (1, 0, 64), (2, 64, 0), (3, 64, 64)] 128 128
    dataA dataB dataC sizeK za

/-- Pack both matrices, multiply and store, 16 rows by 64 columns. -/
def chain16x64 (sizeK : Int) (a b bufA bufB : Int → Byte) (c d : Int → Word32) (za : Za) :
    Option (Int → Word32) := do
  let (za, packedA) ← callCopy16x4Int8TransRm2zz bufA a 16 sizeK za
  let (za, packedB) ← callCopy4x64Int8TransCm2nn bufB b sizeK 64 za
  pure (callCopy16x64Int32Store d (callMma16x64 packedA packedB c sizeK za))

/-- Pack both matrices, multiply and store, 32 rows by 32 columns. -/
def chain32x32 (sizeK : Int) (a b bufA bufB : Int → Byte) (c d : Int → Word32) (za : Za) :
    Option (Int → Word32) := do
  let (za, packedA) ← callCopy32x4Int8TransRm2zz bufA a 32 sizeK za
  let (za, packedB) ← callCopy4x32Int8TransCm2nn bufB b sizeK 32 za
  pure (callCopy32x32Int32Store d (callMma32x32 packedA packedB c sizeK za))

/-- `C[i][j] + ∑ A[i][k] * B[k][j]` modulo `2 ^ 32`: A lies row by row, B column by column, C row by row. -/
def element (row sizeK : Int) (a b : Int → Byte) (c : Int → Word32) (i j : Int) : Word32 :=
  BitVec.ofInt 32 ((c (i * row + j)).toInt +
    ∑ k ∈ Finset.range sizeK.toNat, (a (i * sizeK + k)).toInt * (b (j * sizeK + k)).toInt)

/-- The elements by their places. -/
def product (row sizeK : Int) (a b : Int → Byte) (c : Int → Word32) (x : Int) : Word32 :=
  element row sizeK a b c (x / row) (x % row)

/-! ### The sums -/

lemma element_eq (row sizeK : Int) (a b : Int → Byte) (c : Int → Word32) (i j : Int) :
    element row sizeK a b c i j = c (i * row + j) + ∑ k ∈ Finset.range sizeK.toNat,
      (a (i * sizeK + k)).signExtend 32 * (b (j * sizeK + k)).signExtend 32 := by
  have sum : ∀ n : Nat, BitVec.ofInt 32 (∑ k ∈ Finset.range n,
    (a (i * sizeK + k)).toInt * (b (j * sizeK + k)).toInt) =
      ∑ k ∈ Finset.range n, (a (i * sizeK + k)).signExtend 32 * (b (j * sizeK + k)).signExtend 32 := by
    intro n
    induction n with
    | zero => rfl
    | succ n ih =>
      rw [sum_range_succ, sum_range_succ, BitVec.ofInt_add, ih, BitVec.ofInt_mul]
      rfl
  rw [element, BitVec.ofInt_add, sum, BitVec.ofInt_toInt]

lemma sum_groups (f : Nat → Word32) (n : Nat) :
    ∑ i ∈ Finset.range n, ∑ b : Fin 4, f (4 * i + b) = ∑ k ∈ Finset.range (4 * n), f k := by
  induction n with
  | zero => rfl
  | succ n ih =>
    have four : ∑ k ∈ Finset.range (4 * (n + 1)), f k =
        ∑ k ∈ Finset.range (4 * n), f k + f (4 * n) + f (4 * n + 1) + f (4 * n + 2) + f (4 * n + 3) := by
      rw [show 4 * (n + 1) = 4 * n + 3 + 1 by omega, sum_range_succ, sum_range_succ,
        sum_range_succ, sum_range_succ]
    rw [sum_range_succ, ih, four, Fin.sum_univ_four, ← add_assoc, ← add_assoc, ← add_assoc]
    rfl

def group (dataA dataB : Int → Byte) (x y : Int) (r c : Fin 16) : Word32 :=
  ∑ b : Fin 4, (dataA (x + 4 * (r : Nat) + (b : Nat))).signExtend 32 *
    (dataB (y + 4 * (c : Nat) + (b : Nat))).signExtend 32

lemma dot_eq (dataA dataB : Int → Byte) (x y : Int) (r c : Fin 16) :
    dot (svwhilelt 0 64) (svwhilelt 0 64) (svld1S8 (svwhilelt 0 64) dataA x) (svld1S8 (svwhilelt 0 64) dataB y) r c =
      group dataA dataB x y r c := by
  have on : ∀ lane : Fin 64, svwhilelt 0 64 lane = true := svwhilelt_all
  apply sum_congr rfl
  intro b _
  simp only [lane8, svld1S8, on, if_true]
  push_cast
  rw [Int.add_assoc, Int.add_assoc]

variable {offA offB : Fin 4 → Int} {stepA stepB : Int} {dataA dataB : Int → Byte}

/-- The four products of a turn, where tile `q` has the places `offA q` and `offB q`. -/
def four (offA offB : Fin 4 → Int) : List (Fin 4 × Int × Int) :=
  [(0, offA 0, offB 0), (1, offA 1, offB 1), (2, offA 2, offB 2), (3, offA 3, offB 3)]

/-- A turn adds the products of four groups. -/
lemma turn_right (x y : Int) (za : Za) (q : Fin 4) (r c : Fin 16) :
    (four offA offB).foldl (fun za (e : Fin 4 × Int × Int) =>
        svmopaZa32S8 e.1 (svwhilelt 0 64) (svwhilelt 0 64) (svld1S8 (svwhilelt 0 64) dataA (x + e.2.1))
          (svld1S8 (svwhilelt 0 64) dataB (y + e.2.2)) za) za (q, r, c) =
      za (q, r, c) + group dataA dataB (x + offA q) (y + offB q) r c := by
  rw [← dot_eq]
  match q with
  | 0 | 1 | 2 | 3 => rfl

lemma outer_right (n : Nat) (x y : Int) (za : Za) (q : Fin 4) (r c : Fin 16) :
    outer (four offA offB) stepA stepB dataA dataB n x y za (q, r, c) =
      za (q, r, c) + ∑ i ∈ Finset.range n, group dataA dataB (x + i * stepA + offA q)
        (y + i * stepB + offB q) r c := by
  induction n generalizing x y za with
  | zero => simp [outer]
  | succ n ih =>
    have later : ∀ (z step : Int) (i : Nat), z + step + i * step = z + (i + 1 : Nat) * step := by
      intro z step i
      push_cast
      ring
    rw [outer, ih, turn_right, sum_range_succ', Nat.cast_zero, Int.zero_mul, Int.add_zero, Int.zero_mul,
      Int.add_zero, add_assoc, add_comm (group _ _ _ _ _ _)]
    simp only [later]

/-! ### The tiles in the product -/

/-- Tile `q` has the rows from `line q` on and the columns from `col q` on, and the tiles have all elements. -/
structure Layout (linesA linesB : Int) (line col : Fin 4 → Int) : Prop where
  rows : ∀ q, 0 ≤ line q ∧ line q + 16 ≤ linesA
  cols : ∀ q, 0 ≤ col q ∧ col q + 16 ≤ linesB
  all : ∀ i j, 0 ≤ i → i < linesA → 0 ≤ j → j < linesB → ∃ q, line q ≤ i ∧ i < line q + 16 ∧
    col q ≤ j ∧ j < col q + 16

lemma layout16x64 : Layout 16 64 (fun _ => 0) (fun q => 16 * (q : Nat)) where
  rows := by intro q; omega
  cols := by intro q; omega
  all := by
    intro i j _ _ _ _
    refine ⟨⟨(j / 16).toNat, by omega⟩, ?_⟩
    dsimp only
    omega

lemma layout32x32 : Layout 32 32 (fun q => 16 * ((q : Nat) / 2 : Nat)) (fun q => 16 * ((q : Nat) % 2 : Nat)) where
  rows := by intro q; omega
  cols := by intro q; omega
  all := by
    intro i j _ _ _ _
    refine ⟨⟨(i / 16 * 2 + j / 16).toNat, by omega⟩, ?_⟩
    dsimp only
    omega

variable {linesA linesB : Int} {line col : Fin 4 → Int} {a b : Int → Byte} {c : Int → Word32} {n : Nat}

/-- Where the tiles begin in a matrix with rows of this length. -/
def corners (row : Int) (line col : Fin 4 → Int) : List (Fin 4 × Int) :=
  [(0, line 0 * row + col 0), (1, line 1 * row + col 1), (2, line 2 * row + col 2), (3, line 3 * row + col 3)]

lemma mem_corners {row : Int} {e : Fin 4 × Int} : e ∈ corners row line col ↔ e.2 = line e.1 * row + col e.1 := by
  obtain ⟨q, x⟩ := e
  match q with
  | 0 | 1 | 2 | 3 => simp [corners]

lemma product_at {row : Int} (sizeK : Int) {i j : Int} (lt : 0 ≤ j ∧ j < row) :
    product row sizeK a b c (i * row + j) = element row sizeK a b c i j := by
  have parts : (i * row + j) / row = i ∧ (i * row + j) % row = j := by
    apply (Int.ediv_emod_unique (by omega)).2
    refine ⟨?_, lt.1, lt.2⟩
    rw [Int.mul_comm, Int.add_comm]
  rw [product, parts.1, parts.2]

section
variable (layout : Layout linesA linesB line col)
include layout

lemma group_packed {packedA packedB : Int → Byte}
    (onA : HasLines linesA.toNat a (n * 64) packedA) (onB : HasLines linesB.toNat b (n * 64) packedB) {i : Nat}
    (lt : i < n * 16)
    (q : Fin 4) (r t : Fin 16) :
    group packedA packedB (0 + i * (linesA * 4) + 4 * line q) (0 + i * (linesB * 4) + 4 * col q) r t =
      ∑ e : Fin 4, (a ((line q + (r : Nat)) * (n * 64) + (4 * i + (e : Nat) : Nat))).signExtend 32 *
        (b ((col q + (t : Nat)) * (n * 64) + (4 * i + (e : Nat) : Nat))).signExtend 32 := by
  have one : ∀ (lines : Int) (src buf : Int → Byte) (l : Int), 0 ≤ l → l < lines →
      HasLines lines.toNat src (n * 64) buf → ∀ e : Fin 4,
      buf (i * (lines * 4) + 4 * l + (e : Nat)) = src (l * (n * 64) + (4 * i + (e : Nat) : Nat)) := by
    intro lines src buf l low high has e
    obtain ⟨height, rfl⟩ : ∃ height : Nat, lines = height := ⟨lines.toNat, by omega⟩
    obtain ⟨m, rfl⟩ : ∃ m : Nat, l = m := ⟨l.toNat, by omega⟩
    have at_ := has (0 * height + m) (by omega) (i * 4 + e) (by omega)
    rw [Int.toNat_natCast, Packed.place_at (by omega) e.isLt] at at_
    push_cast at at_ ⊢
    convert at_ using 2 <;> ring
  apply sum_congr rfl
  intro e _
  have rows := layout.rows q
  have cols := layout.cols q
  have left := one linesA a packedA (line q + (r : Nat)) (by omega) (by omega) onA e
  have right := one linesB b packedB (col q + (t : Nat)) (by omega) (by omega) onB e
  rw [← left, ← right]
  congr 3 <;> ring

lemma callMma_right {packedA packedB : Int → Byte}
    (onA : HasLines linesA.toNat a (n * 64) packedA) (onB : HasLines linesB.toNat b (n * 64) packedB)
    (za : Za) (q : Fin 4)
    (r t : Fin 16) :
    callMma (corners linesB line col) linesB (four (fun q => 4 * line q) (fun q => 4 * col q)) (linesA * 4) (linesB * 4)
        packedA packedB c (n * 64) za (q, r, t) =
      product linesB (n * 64) a b c ((line q + (r : Nat)) * linesB + (col q + (t : Nat))) := by
  have cols := layout.cols q
  have loaded := sweep_wrote (fun (x : Fin 4 × Fin 16 × Fin 16) =>
      c ((line x.1 + ((x.2.1 : Nat) : Int)) * linesB + (col x.1 + ((x.2.2 : Nat) : Int))))
    (fun t q _ x => x.1 = q ∧ x.2.1 = t) linesB
    (fun t tile a za => svwriteHorZa32 tile t (svwhilelt 0 16) (svld1S32 (svwhilelt 0 16) c a) za)
    (corners linesB line col) (by
      intro t e mem m
      apply write_wrote
      intro k
      rw [mem_corners.1 mem]
      congr 1
      ring) za
  have start := (loaded (q, r, t)).1 ⟨r, (q, line q * linesB + col q), mem_corners.2 rfl, rfl, rfl⟩
  have count : (((n : Int) * 64).tdiv 4).toNat = n * 16 := by
    rw [Int.tdiv_eq_ediv_of_nonneg (by omega)]
    omega
  rw [callMma, count, outer_right, start, product_at _ ⟨by omega, by omega⟩, element_eq]
  congr 1
  calc ∑ i ∈ Finset.range (n * 16), group packedA packedB (0 + i * (linesA * 4) + 4 * line q)
        (0 + i * (linesB * 4) + 4 * col q) r t
      = ∑ i ∈ Finset.range (n * 16), ∑ e : Fin 4,
          (a ((line q + (r : Nat)) * (n * 64) + (4 * i + (e : Nat) : Nat))).signExtend 32 *
            (b ((col q + (t : Nat)) * (n * 64) + (4 * i + (e : Nat) : Nat))).signExtend 32 :=
        sum_congr rfl fun i mem => group_packed layout onA onB (mem_range.1 mem) q r t
    _ = ∑ k ∈ Finset.range (4 * (n * 16)), (a ((line q + (r : Nat)) * (n * 64) + k)).signExtend 32 *
          (b ((col q + (t : Nat)) * (n * 64) + k)).signExtend 32 :=
        sum_groups (fun k => (a ((line q + (r : Nat)) * (n * 64) + k)).signExtend 32 *
          (b ((col q + (t : Nat)) * (n * 64) + k)).signExtend 32) (n * 16)
    _ = _ := by rw [show 4 * (n * 16) = ((n : Int) * 64).toNat by omega]

lemma callCopyStore_right {za : Za} {f : Int → Word32}
    (h : ∀ q (r t : Fin 16), za (q, r, t) = f ((line q + (r : Nat)) * linesB + (col q + (t : Nat))))
    (d : Int → Word32)
    {i j : Int} (row : 0 ≤ i ∧ i < linesA) (column : 0 ≤ j ∧ j < linesB) :
    callCopyStore (corners linesB line col) linesB d za (i * linesB + j) = f (i * linesB + j) := by
  have stored := sweep_wrote f (fun _ _ a x => a ≤ x ∧ x < a + 16) linesB
    (fun t tile a data => svst1HorZa32 tile t (svwhilelt 0 16) za a data) (corners linesB line col) (by
      intro t e mem m
      apply horizontal_wrote
      intro k
      rw [mem_corners.1 mem, h]
      congr 1
      ring) d
  obtain ⟨q, low, high, left, right⟩ := layout.all i j row.1 row.2 column.1 column.2
  refine (stored (i * linesB + j)).1
    ⟨⟨(i - line q).toNat, by omega⟩, (q, line q * linesB + col q), mem_corners.2 rfl, ?_⟩
  have cast : (((i - line q).toNat : Nat) : Int) = i - line q := by omega
  have place : line q * linesB + col q + (i - line q) * linesB = i * linesB + col q := by ring
  rw [cast, place]
  omega

end

/-! ### The chains -/

variable {bufA bufB : Int → Byte} {d : Int → Word32} {za : Za}

lemma chain16x64_right (pos : 0 < n) (fits : n * 64 ≤ 2 ^ 25) :
    ∃ d', chain16x64 (n * 64) a b bufA bufB c d za = some d' ∧
      ∀ i j, 0 ≤ i → i < 16 → 0 ≤ j → j < 64 → d' (i * 64 + j) = element 64 (n * 64) a b c i j := by
  obtain ⟨sA, runA, onA⟩ := callCopyTrans_right (Atom.int8Rm2zz16x4.plain rfl) (by decide) pos
    (show n * 64 * 16 ≤ 2 ^ 31 by omega) bufA a za
  obtain ⟨sB, runB, onB⟩ := callCopyTrans_right (Atom.int8Cm2nn4x64.plain rfl) (by decide) pos
    (show n * 64 * 64 ≤ 2 ^ 31 by omega) bufB b sA.1
  refine ⟨callCopy16x64Int32Store d (callMma16x64 sA.2 sB.2 c (n * 64) sB.1), ?_, ?_⟩
  · unfold chain16x64 callCopy16x4Int8TransRm2zz callCopy4x64Int8TransCm2nn
    rw [runA]
    simp only [Option.bind_eq_bind, Option.bind_some, runB]
    rfl
  · intro i j low high left right
    have tiles := callMma_right (c := c) layout16x64 onA onB sB.1
    rw [← product_at _ ⟨left, right⟩]
    exact callCopyStore_right layout16x64 tiles d ⟨low, high⟩ ⟨left, right⟩

lemma chain16x64_none (big : 2 ^ 25 < n * 64) : chain16x64 (n * 64) a b bufA bufB c d za = none := by
  have stuck : ∀ za, callCopy4x64Int8TransCm2nn bufB b (n * 64) 64 za = none := fun za =>
    callCopyTrans_none (show (64 : Int) = (64 : Nat) from rfl) (by decide) (by omega) (by omega) bufB za
  unfold chain16x64
  cases callCopy16x4Int8TransRm2zz bufA a 16 (n * 64) za with
  | none => rfl
  | some s =>
    simp only [Option.bind_eq_bind, Option.bind_some, stuck]
    rfl

lemma chain32x32_right (pos : 0 < n) (fits : n * 64 ≤ 2 ^ 26) :
    ∃ d', chain32x32 (n * 64) a b bufA bufB c d za = some d' ∧
      ∀ i j, 0 ≤ i → i < 32 → 0 ≤ j → j < 32 → d' (i * 32 + j) = element 32 (n * 64) a b c i j := by
  obtain ⟨sA, runA, onA⟩ := callCopyTrans_right (Atom.int8Rm2zz32x4.plain rfl) (by decide) pos
    (show n * 64 * 32 ≤ 2 ^ 31 by omega) bufA a za
  obtain ⟨sB, runB, onB⟩ := callCopyTrans_right (Atom.int8Cm2nn4x32.plain rfl) (by decide) pos
    (show n * 64 * 32 ≤ 2 ^ 31 by omega) bufB b sA.1
  refine ⟨callCopy32x32Int32Store d (callMma32x32 sA.2 sB.2 c (n * 64) sB.1), ?_, ?_⟩
  · unfold chain32x32 callCopy32x4Int8TransRm2zz callCopy4x32Int8TransCm2nn
    rw [runA]
    simp only [Option.bind_eq_bind, Option.bind_some, runB]
    rfl
  · intro i j low high left right
    have tiles := callMma_right (c := c) layout32x32 onA onB sB.1
    rw [← product_at _ ⟨left, right⟩]
    exact callCopyStore_right layout32x32 tiles d ⟨low, high⟩ ⟨left, right⟩

lemma chain32x32_none (big : 2 ^ 26 < n * 64) : chain32x32 (n * 64) a b bufA bufB c d za = none := by
  have stuck : callCopy32x4Int8TransRm2zz bufA a 32 (n * 64) za = none :=
    callCopyTrans_none (show (32 : Int) = (32 : Nat) from rfl) (by decide) (by omega) (by omega) bufA za
  unfold chain32x32
  rw [stuck]
  rfl

/-- Both chains give the product as long as the places in the packed matrices are values of `int`, and only then. -/
theorem chains_multiply (sizeK : Int) (pos : 0 < sizeK) (mult : 64 ∣ sizeK) (a b bufA bufB : Int → Byte)
    (c d : Int → Word32) (za : Za) :
    ((∃ d', chain16x64 sizeK a b bufA bufB c d za = some d' ∧
        ∀ i j, 0 ≤ i → i < 16 → 0 ≤ j → j < 64 → d' (i * 64 + j) = element 64 sizeK a b c i j) ↔
          sizeK ≤ 2 ^ 25) ∧
      ((∃ d', chain32x32 sizeK a b bufA bufB c d za = some d' ∧
        ∀ i j, 0 ≤ i → i < 32 → 0 ≤ j → j < 32 → d' (i * 32 + j) = element 32 sizeK a b c i j) ↔
          sizeK ≤ 2 ^ 26) := by
  obtain ⟨n, rfl⟩ : ∃ n : Nat, sizeK = n * 64 := ⟨(sizeK / 64).toNat, by omega⟩
  refine ⟨⟨?_, ?_⟩, ⟨?_, ?_⟩⟩
  · rintro ⟨d', run, _⟩
    by_contra big
    rw [chain16x64_none (by omega)] at run
    cases run
  · intro fits
    exact chain16x64_right (by omega) (by omega)
  · rintro ⟨d', run, _⟩
    by_contra big
    rw [chain32x32_none (by omega)] at run
    cases run
  · intro fits
    exact chain32x32_right (by omega) (by omega)

/-- A matrix of bytes. -/
def ones : Int → Byte := fun _ => 1

/-- A matrix of words. -/
def zeros : Int → Word32 := fun _ => 0

/-- Matrices of ones. -/
theorem chains_multiply_ones : (∃ d', chain16x64 64 ones ones ones ones zeros zeros (fun _ => 0) = some d' ∧
        ∀ i j, 0 ≤ i → i < 16 → 0 ≤ j → j < 64 → d' (i * 64 + j) = element 64 64 ones ones zeros i j) ∧
      ∃ d', chain32x32 64 ones ones ones ones zeros zeros (fun _ => 0) = some d' ∧
        ∀ i j, 0 ≤ i → i < 32 → 0 ≤ j → j < 32 → d' (i * 32 + j) = element 32 64 ones ones zeros i j := by
  have chains := chains_multiply 64 (by decide) (by decide) ones ones ones ones zeros zeros (fun _ => 0)
  exact ⟨chains.1.2 (by decide), chains.2.2 (by decide)⟩

/-- With `2 ^ 25 + 64` products for each element of 16 rows and 64 columns, a place in the packed B is no `int`. -/
theorem chain_not_multiply : ¬∃ d', chain16x64 33554496 ones ones ones ones zeros zeros (fun _ => 0) = some d' ∧
      ∀ i j, 0 ≤ i → i < 16 → 0 ≤ j → j < 64 →
        d' (i * 64 + j) = element 64 33554496 ones ones zeros i j := by
  rintro ⟨d', run, _⟩
  have size : (33554496 : Int) = (524289 : Nat) * 64 := by norm_num
  rw [size, chain16x64_none (by omega)] at run
  cases run

end Kupl.Mma
