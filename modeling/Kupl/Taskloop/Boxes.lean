import Kupl.Taskloop.Cells

/-!
# Which tasks make up a range

The block of task `id` takes one block of each dimension, whose indices are the digits of `id`, with
the sign of the number of blocks before the dimension. `tiled_iff` says when the tasks with the first
numbers hold each point of a range once: their number is the value of a place, the dimensions before it
that have several blocks are cut where an iterate is, and of the later ones the first block has all.
-/

namespace Kupl.Range
open Kupl.Cut

/-- The numbers of blocks of the dimensions, but for the sign. -/
def NdRange.counts (range : NdRange) (d : Nat) : Nat := (range.ndRange d).loopBlocks.natAbs

/-- The number of blocks of the dimensions before `d`. -/
def NdRange.blocksBefore (range : NdRange) (d : Nat) : Int :=
  ((List.range d).map fun e => (range.ndRange e).loopBlocks).prod

def NdRange.index (range : NdRange) (id d : Nat) : Int :=
  ((id : Int).tdiv (range.blocksBefore d)).tmod (range.ndRange d).loopBlocks

/-- The block of a task. -/
def NdRange.box (range : NdRange) (id : Nat) : NdRange :=
  ⟨range.dim, fun d => (range.ndRange d).cell (range.index id d)⟩

/-- The tasks of a set hold each point of a range once. -/
structure NdRange.Tiled (range : NdRange) (tasks : Nat → Prop) : Prop where
  held : ∀ x, range.Mem x → ∃ id, tasks id ∧ (range.box id).Mem x
  once : ∀ x i j, tasks i → tasks j → (range.box i).Mem x → (range.box j).Mem x → i = j
  inside : ∀ x id, tasks id → (range.box id).Mem x → range.Mem x

/-- The dimensions before `k` are cut into blocks that begin at an iterate, and of the others the first
block has all iterates. -/
structure NdRange.Aligned (range : NdRange) (k : Nat) : Prop where
  dim : k ≤ range.dim.toNat
  cut : ∀ d < k, range.counts d = 1 ∨ (0 < (range.ndRange d).step ∧ 0 < range.blocksBefore d ∧
    (range.ndRange d).step ∣ (range.ndRange d).blocksize)
  first : ∀ d < range.dim.toNat, k ≤ d → (range.ndRange d).FirstBlock

section Index
variable {range : NdRange} {id d : Nat}

lemma NdRange.blocksBefore_succ : range.blocksBefore (d + 1) = range.blocksBefore d * (range.ndRange d).loopBlocks := by
  simp [NdRange.blocksBefore, List.range_succ]

lemma NdRange.natAbs_blocksBefore : (range.blocksBefore d).natAbs = place range.counts d := by
  induction d with
  | zero => rfl
  | succ d ih => rw [NdRange.blocksBefore_succ, Int.natAbs_mul, ih, place_succ, NdRange.counts]

lemma NdRange.natAbs_index : (range.index id d).natAbs = id / place range.counts d % range.counts d := by
  rw [NdRange.index, Int.natAbs_tmod, Int.natAbs_tdiv, NdRange.natAbs_blocksBefore, Int.natAbs_natCast]
  rfl

lemma NdRange.index_of_pos (pos : 0 < range.blocksBefore d) :
    range.index id d = (id / place range.counts d % range.counts d : Nat) := by
  have nonneg : 0 ≤ range.index id d :=
    Int.tmod_nonneg _ (Int.tdiv_nonneg (Int.natCast_nonneg id) pos.le)
  rw [← NdRange.natAbs_index, Int.natAbs_of_nonneg nonneg]

lemma NdRange.index_nonpos (nonpos : range.blocksBefore d ≤ 0) : range.index id d ≤ 0 := by
  have quot := Int.tdiv_nonpos_of_nonneg_of_nonpos (Int.natCast_nonneg id) nonpos
  have flip := Int.tmod_nonneg (range.ndRange d).loopBlocks (Int.neg_nonneg.2 quot)
  rw [Int.neg_tmod] at flip
  exact Int.neg_nonneg.1 flip

lemma NdRange.index_zero (zero : id / place range.counts d % range.counts d = 0) : range.index id d = 0 := by
  rw [← Int.natAbs_eq_zero, NdRange.natAbs_index, zero]

end Index

section Tiling
variable {range : NdRange} {tasks : Nat → Prop} {id d k m : Nat} {x : Nat → Int}

lemma NdRange.Sound.mem_lower (sound : range.Sound) : range.Mem fun d => (range.ndRange d).lower := by
  intro d hd
  exact ⟨0, by simp, sound.before d (Int.lt_toNat.2 hd)⟩

lemma NdRange.counts_pos (few : id < place range.counts range.dim.toNat) (hd : d < range.dim.toNat) :
    0 < range.counts d := by
  apply Nat.pos_of_ne_zero
  intro none
  have zero : place range.counts (d + 1) = 0 := by rw [place_succ, none, Nat.mul_zero]
  have dvd : place range.counts (d + 1) ∣ _ := place_dvd hd
  rw [zero, Nat.zero_dvd] at dvd
  omega

lemma NdRange.box_top (sound : range.Sound) (few : id < place range.counts range.dim.toNat) :
    (range.box id).Mem fun d => (range.ndRange d).lower + range.index id d * (range.ndRange d).blocksize := by
  intro d hd
  have hd := Int.lt_toNat.2 hd
  apply KuplRange.cell_top (sound.blocksize d hd) (sound.before d hd)
  rw [NdRange.natAbs_index]
  exact Nat.mod_lt _ (NdRange.counts_pos few hd)

lemma NdRange.Tiled.index_spec (T : range.Tiled tasks) (sound : range.Sound)
    (few : id < place range.counts range.dim.toNat) (task : tasks id) (hd : d < range.dim.toNat) :
    (range.ndRange d).step < 0 ∧ range.index id d ≤ 0 ∨ 0 < (range.ndRange d).step ∧ 0 ≤ range.index id d ∧
        (range.ndRange d).step ∣ range.index id d * (range.ndRange d).blocksize := by
  obtain ⟨k, eq, before⟩ := T.inside _ id task (NdRange.box_top sound few) d (Int.lt_toNat.1 hd)
  have size := sound.blocksize d hd
  have eq : range.index id d * (range.ndRange d).blocksize = k * (range.ndRange d).step :=
    add_left_cancel eq
  rcases before with ⟨pos, -⟩ | ⟨neg, -⟩
  · refine .inr ⟨pos, ?_, Dvd.intro_left _ eq.symm⟩
    have nonneg : 0 ≤ range.index id d * (range.ndRange d).blocksize := by
      rw [eq]
      exact mul_nonneg (Int.natCast_nonneg k) pos.le
    exact nonneg_of_mul_nonneg_left nonneg (by omega)
  · refine .inl ⟨neg, ?_⟩
    have nonpos : range.index id d * (range.ndRange d).blocksize ≤ 0 := by
      rw [eq]
      exact mul_nonpos_of_nonneg_of_nonpos (Int.natCast_nonneg k) neg.le
    exact nonpos_of_mul_nonpos_left nonpos (by omega)

lemma NdRange.Tiled.zero (T : range.Tiled tasks) (sound : range.Sound)
    (few : ∀ id, tasks id → id < place range.counts range.dim.toNat) : tasks 0 := by
  obtain ⟨id, task, mem⟩ := T.held _ sound.mem_lower
  have first : ∀ d < range.dim.toNat, range.index id d = 0 := by
    intro d hd
    have size := sound.blocksize d hd
    have spec := T.index_spec sound (few id task) task hd
    obtain ⟨k, eq, before⟩ := mem d (Int.lt_toNat.1 hd)
    have eq : (range.ndRange d).lower = (range.ndRange d).lower +
      range.index id d * (range.ndRange d).blocksize + k * (range.ndRange d).step := eq
    -- `lower` is no iterate behind a later block
    have none : range.index id d * (range.ndRange d).blocksize = 0 := by
      rcases spec with ⟨neg, le⟩ | ⟨pos, ge, -⟩
      · have here := mul_nonpos_of_nonpos_of_nonneg le (by omega : 0 ≤ (range.ndRange d).blocksize)
        have rest := mul_nonpos_of_nonneg_of_nonpos (Int.natCast_nonneg k) neg.le
        omega
      · have here := mul_nonneg ge (by omega : 0 ≤ (range.ndRange d).blocksize)
        have rest := mul_nonneg (Int.natCast_nonneg k) pos.le
        omega
    exact (mul_eq_zero.1 none).resolve_right (by omega)
  have zero := @mod_place_of_zero range.counts id range.dim.toNat fun d hd => by
    rw [← NdRange.natAbs_index, first d hd, Int.natAbs_zero]
  rw [Nat.mod_eq_of_lt (few id task)] at zero
  exact zero ▸ task

lemma NdRange.Tiled.cut (T : range.Tiled (· < m)) (sound : range.Sound)
    (few : m ≤ place range.counts range.dim.toNat)
    (hd : d < range.dim.toNat) (lt : place range.counts d < m) (two : 2 ≤ range.counts d) :
    0 < (range.ndRange d).step ∧ 0 < range.blocksBefore d ∧
      (range.ndRange d).step ∣ (range.ndRange d).blocksize := by
  have some : place range.counts d < place range.counts range.dim.toNat := by omega
  have digit : ∀ e < range.dim.toNat, (range.index (place range.counts d) e).natAbs = if e = d then 1 else 0 := by
    intro e he
    rw [NdRange.natAbs_index]
    exact digit_place (fun e he => NdRange.counts_pos some he) two hd he
  have one := digit d hd
  rw [if_pos rfl] at one
  rcases T.index_spec sound some lt hd with ⟨neg, le⟩ | ⟨pos, ge, dvd⟩
  · -- in a dimension that goes down the first task has the point as well
    have top := NdRange.box_top sound some
    have same : place range.counts d = 0 := by
      apply T.once _ _ _ lt (by omega : 0 < m) top
      intro e he
      have he := Int.lt_toNat.2 he
      have zero : range.index 0 e = 0 := NdRange.index_zero (by simp)
      show ((range.ndRange e).cell (range.index 0 e)).Mem _
      rw [zero]
      by_cases eq : e = d
      · subst eq
        apply (KuplRange.cell_zero (sound.before e he) (sound.blocksize e he) (.inl neg)).2
        exact T.inside _ _ lt top e (Int.lt_toNat.1 he)
      · have other := digit e he
        rw [if_neg eq, Int.natAbs_eq_zero] at other
        have here := top e (Int.lt_toNat.1 he)
        simp only [NdRange.box, other] at here ⊢
        exact here
    have here : 0 < place range.counts d :=
      place_pos fun e he => NdRange.counts_pos some (by omega)
    omega
  · have index : range.index (place range.counts d) d = 1 := by omega
    refine ⟨pos, ?_, by rwa [index, one_mul] at dvd⟩
    apply lt_of_not_ge
    intro nonpos
    have : range.index (place range.counts d) d ≤ 0 := NdRange.index_nonpos nonpos
    omega

lemma NdRange.Tiled.eq_place (T : range.Tiled (· < m)) (sound : range.Sound)
    (few : m ≤ place range.counts range.dim.toNat) (pos : 0 < m) (le : m ≤ place range.counts k)
    (hk : k ≤ range.dim.toNat) (before : ∀ d < k, place range.counts d < m) : m = place range.counts k := by
  have some : m - 1 < place range.counts range.dim.toNat := by omega
  have counts : ∀ d < k, 0 < range.counts d := fun d hd => NdRange.counts_pos some (by omega)
  -- the first iterate of the last block
  let y : Nat → Int := fun d => (range.ndRange d).lower +
    if d < k then ((range.counts d - 1 : Nat) : Int) * (range.ndRange d).blocksize else 0
  have mem : ∀ d < range.dim.toNat, (range.ndRange d).Mem (y d) ∧ (d < k → range.counts d = 1 ∨ ∀ i : Nat,
        ((range.ndRange d).cell i).Mem (y d) → i = range.counts d - 1) := by
    intro d hd
    have size := sound.blocksize d hd
    by_cases late : k ≤ d
    · refine ⟨?_, fun lt => absurd lt (by omega)⟩
      simp only [y, if_neg (by omega : ¬d < k), add_zero]
      exact sound.mem_lower d (Int.lt_toNat.1 hd)
    · have top := counts d (by omega)
      by_cases one : range.counts d = 1
      · refine ⟨?_, fun _ => .inl one⟩
        simp only [y, one, Nat.sub_self, Nat.cast_zero, zero_mul, ite_self, add_zero]
        exact sound.mem_lower d (Int.lt_toNat.1 hd)
      · obtain ⟨up, blocks, dvd⟩ := T.cut sound few hd (before d (by omega)) (by omega)
        have here : y d = (range.ndRange d).lower +
            ((range.counts d - 1 : Nat) : Int) * (range.ndRange d).blocksize := by
          simp only [y, if_pos (by omega : d < k)]
        have last : ((range.ndRange d).cell ((range.counts d - 1 : Nat) : Int)).Mem (y d) := by
          rw [here]
          apply KuplRange.cell_top size (sound.before d hd)
          rw [Int.natAbs_natCast]
          exact Nat.sub_lt top Nat.one_pos
        obtain ⟨inside, index⟩ := (KuplRange.mem_cell size up dvd).1 last
        refine ⟨inside, fun _ => .inr fun i hi => ?_⟩
        have other := ((KuplRange.mem_cell size up dvd).1 hi).2
        omega
  obtain ⟨id, lt, held⟩ := T.held y fun d hd => (mem d (Int.lt_toNat.2 hd)).1
  have last := @mod_place_of_last range.counts id k (fun d hd => by
    have hd' : d < range.dim.toNat := by omega
    have less := Nat.mod_lt (id / place range.counts d) (counts d hd)
    rcases (mem d hd').2 hd with one | index
    · omega
    · by_cases one : range.counts d = 1
      · omega
      · obtain ⟨-, blocks, -⟩ := T.cut sound few (by omega) (before d hd)
          (by have := counts d hd; omega)
        apply index
        rw [← NdRange.index_of_pos blocks]
        exact held d (Int.lt_toNat.1 hd')) counts
  rw [Nat.mod_eq_of_lt (by omega)] at last
  omega

lemma NdRange.Tiled.aligned (T : range.Tiled (· < m)) (sound : range.Sound)
    (few : m ≤ place range.counts range.dim.toNat) : ∃ k, m = place range.counts k ∧ range.Aligned k := by
  have pos : 0 < m := by
    obtain ⟨id, lt, -⟩ := T.held _ sound.mem_lower
    omega
  have some : m - 1 < place range.counts range.dim.toNat := by omega
  have ex : ∃ k, m ≤ place range.counts k := ⟨_, few⟩
  obtain ⟨k, le, least⟩ : ∃ k, m ≤ place range.counts k ∧ ∀ d < k, place range.counts d < m :=
    ⟨Nat.find ex, Nat.find_spec ex, fun d hd => by
      have := Nat.find_min ex hd
      omega⟩
  have hk : k ≤ range.dim.toNat := by
    apply le_of_not_gt
    intro gt
    have := least _ gt
    omega
  have eq := T.eq_place sound few pos le hk least
  refine ⟨k, eq, hk, fun d hd => ?_, fun d hd late => ?_⟩
  · have one := NdRange.counts_pos some (by omega : d < range.dim.toNat)
    by_cases two : 2 ≤ range.counts d
    · exact .inr (T.cut sound few (by omega) (least d hd) two)
    · exact .inl (by omega)
  · rcases sound.before d hd with ⟨up, -⟩ | ⟨down, -⟩
    · refine .inr fun y mem => ?_
      have point : range.Mem (Function.update (fun d => (range.ndRange d).lower) d y) := by
        intro e he
        by_cases same : e = d
        · subst same
          rwa [Function.update_self]
        · rw [Function.update_of_ne same]
          exact sound.mem_lower e he
      obtain ⟨id, lt, held⟩ := T.held _ point
      have zero : range.index id d = 0 := by
        apply NdRange.index_zero
        have last := @digit_eq_zero range.counts id k d
          (fun e he => NdRange.counts_pos some (by omega)) (by omega) late
        rw [last, Nat.zero_mod]
      have here := held d (Int.lt_toNat.1 hd)
      simp only [NdRange.box, zero, Function.update_self] at here
      obtain ⟨i, -, before⟩ := here
      rcases before with ⟨-, lt⟩ | ⟨neg, -⟩
      · have lt : y < min (range.ndRange d).upper
          ((range.ndRange d).lower + 0 * (range.ndRange d).blocksize + (range.ndRange d).blocksize) := lt
        omega
      · have neg : (range.ndRange d).step < 0 := neg
        omega
    · exact .inl down

def NdRange.taskDigit (range : NdRange) (x : Nat → Int) (d : Nat) : Nat :=
  if range.counts d = 1 then 0
  else ((x d - (range.ndRange d).lower) / (range.ndRange d).blocksize).toNat

lemma NdRange.Aligned.taskDigit_lt (A : range.Aligned k) (sound : range.Sound) (mem : range.Mem x)
    (hd : d < k) : range.taskDigit x d < range.counts d := by
  have hd' : d < range.dim.toNat := Nat.lt_of_lt_of_le hd A.dim
  have size := sound.blocksize d hd'
  obtain ⟨i, eq, before⟩ := mem d (Int.lt_toNat.1 hd')
  unfold NdRange.taskDigit
  split
  · omega
  · rename_i many
    obtain ⟨pos, -, -⟩ := (A.cut d hd).resolve_left many
    rcases before with ⟨-, lt⟩ | ⟨neg, -⟩
    · have far : (0 : Int) ≤ i * (range.ndRange d).step := mul_nonneg (Int.natCast_nonneg i) pos.le
      have up : (range.ndRange d).lower < (range.ndRange d).upper := by omega
      have quot := Int.ediv_nonneg (by omega : 0 ≤ x d - (range.ndRange d).lower) (by omega :
        0 ≤ (range.ndRange d).blocksize)
      have le := Int.ediv_mul_le (x d - (range.ndRange d).lower)
        (by omega : (range.ndRange d).blocksize ≠ 0)
      have block : (x d - (range.ndRange d).lower) / (range.ndRange d).blocksize <
          (range.ndRange d).loopBlocks := (KuplRange.lt_loopBlocks size up).2 (by omega)
      unfold NdRange.counts
      omega
    · omega

lemma NdRange.Aligned.mem_box (A : range.Aligned k) (sound : range.Sound)
    (counts : ∀ d < range.dim.toNat, 0 < range.counts d) (few : id < place range.counts k) :
    (range.box id).Mem x ↔ range.Mem x ∧ ∀ d < k, id / place range.counts d % range.counts d =
      range.taskDigit x d := by
  have dimension : ∀ d < range.dim.toNat, ((range.box id).ndRange d).Mem (x d) ↔ (range.ndRange d).Mem (x d) ∧
        (d < k → id / place range.counts d % range.counts d = range.taskDigit x d) := by
    intro d hd
    have size := sound.blocksize d hd
    have dir := sound.before d hd
    show ((range.ndRange d).cell (range.index id d)).Mem (x d) ↔ _
    by_cases early : d < k
    · simp only [early, true_imp_iff, NdRange.taskDigit]
      by_cases one : range.counts d = 1
      · rw [if_pos one, one, Nat.mod_one, NdRange.index_zero (by rw [one, Nat.mod_one]),
          KuplRange.cell_zero dir size (KuplRange.firstBlock_of_one size dir one)]
        simp
      · obtain ⟨pos, blocks, dvd⟩ := (A.cut d early).resolve_left one
        rw [if_neg one, NdRange.index_of_pos blocks, KuplRange.mem_cell size pos dvd]
        refine and_congr_right fun mem => ?_
        obtain ⟨i, eq, -⟩ := mem
        have far : (0 : Int) ≤ i * (range.ndRange d).step :=
          mul_nonneg (Int.natCast_nonneg i) pos.le
        have quot := Int.ediv_nonneg (by omega : 0 ≤ x d - (range.ndRange d).lower) (by omega :
          0 ≤ (range.ndRange d).blocksize)
        omega
    · have zero : range.index id d = 0 := by
        apply NdRange.index_zero
        have last := @digit_eq_zero range.counts id k d (fun e he => counts e (by omega)) few
          (by omega)
        rw [last, Nat.zero_mod]
      rw [zero, KuplRange.cell_zero dir size (A.first d hd (by omega))]
      simp [early]
  constructor
  · intro mem
    refine ⟨fun d hd => ((dimension d (Int.lt_toNat.2 hd)).1 (mem d hd)).1, fun d hd => ?_⟩
    have hd' : d < range.dim.toNat := Nat.lt_of_lt_of_le hd A.dim
    exact ((dimension d hd').1 (mem d (Int.lt_toNat.1 hd'))).2 hd
  · intro ⟨mem, digits⟩ d hd
    exact (dimension d (Int.lt_toNat.2 hd)).2 ⟨mem d hd, digits d⟩

lemma NdRange.Aligned.tiled (A : range.Aligned k) (sound : range.Sound)
    (counts : ∀ d < range.dim.toNat, 0 < range.counts d) : range.Tiled (· < place range.counts k) := by
  refine ⟨fun x mem => ?_, fun x i j hi hj memi memj => ?_, fun x id lt mem => ?_⟩
  · obtain ⟨id, ⟨lt, digits⟩, -⟩ := existsUnique_places fun d hd => A.taskDigit_lt sound mem hd
    exact ⟨id, lt, (A.mem_box sound counts lt).2 ⟨mem, digits⟩⟩
  · obtain ⟨mem, di⟩ := (A.mem_box sound counts hi).1 memi
    obtain ⟨-, dj⟩ := (A.mem_box sound counts hj).1 memj
    exact (existsUnique_places fun d hd => A.taskDigit_lt sound mem hd).unique ⟨hi, di⟩ ⟨hj, dj⟩
  · exact ((A.mem_box sound counts lt).1 mem).1

/-- The first tasks hold a range, each point once, if and only if the blocks begin at iterates. -/
theorem NdRange.tiled_iff (sound : range.Sound) (few : m ≤ place range.counts range.dim.toNat)
    (some : 0 < place range.counts range.dim.toNat) :
    range.Tiled (· < m) ↔ ∃ k, m = place range.counts k ∧ range.Aligned k := by
  constructor
  · exact fun T => T.aligned sound few
  · rintro ⟨k, rfl, A⟩
    exact A.tiled sound fun d hd => NdRange.counts_pos some hd

end Tiling
end Kupl.Range
