import Mathlib.Data.Finset.Prod
import Mathlib.Order.Interval.Set.Basic
import Mathlib.Tactic.Ring

/-!
# The packed order of a matrix

Lines of equal length are packed in blocks of some lines. A block holds group after group of consecutive elements, and
for each group its elements of one line after the other: `place` is where an element comes. The packed matrix has every
element once, and a list of moves that has every element, and not more moves than elements, moves each one once:
`Packs.of`.
-/

namespace Kupl.Packed

/-- The place of element `n` of line `m`, where a block has `block` lines and a group has `group` elements. -/
def place (block group size m n : Nat) : Nat :=
  (m - m % block) * size + (n - n % group) * block + m % block * group + n % group

variable {block group count size m n x : Nat}

lemma place_at {i k l b : Nat} (line : l < block) (small : b < group) :
    place block group size (i * block + l) (k * group + b)
      = i * block * size + k * group * block + l * group + b := by
  have lineOf : (i * block + l) % block = l := by
    rw [Nat.add_comm, Nat.add_mul_mod_self_right, Nat.mod_eq_of_lt line]
  have numberOf : (k * group + b) % group = b := by
    rw [Nat.add_comm, Nat.add_mul_mod_self_right, Nat.mod_eq_of_lt small]
  rw [place, lineOf, numberOf, Nat.add_sub_cancel, Nat.add_sub_cancel]

lemma exists_parts (blocks : block ∣ count) (groups : group ∣ size) (line : m < count) (within : n < size) :
    ∃ i < count / block, ∃ l < block, ∃ k < size / group, ∃ b < group, m = i * block + l ∧
      n = k * group + b := by
  have posBlock : 0 < block := Nat.pos_of_dvd_of_pos blocks (by omega)
  have posGroup : 0 < group := Nat.pos_of_dvd_of_pos groups (by omega)
  refine ⟨m / block, Nat.div_lt_div_of_lt_of_dvd blocks line, m % block, Nat.mod_lt _ posBlock,
    n / group, Nat.div_lt_div_of_lt_of_dvd groups within, n % group, Nat.mod_lt _ posGroup, ?_, ?_⟩
  · rw [Nat.mul_comm, Nat.div_add_mod]
  · rw [Nat.mul_comm, Nat.div_add_mod]

lemma place_lt (blocks : block ∣ count) (groups : group ∣ size) (line : m < count) (within : n < size) :
    place block group size m n < count * size := by
  obtain ⟨i, ltI, l, ltL, k, ltK, b, ltB, rfl, rfl⟩ := exists_parts blocks groups line within
  rw [place_at ltL ltB]
  obtain ⟨c, rfl⟩ := blocks
  obtain ⟨s, rfl⟩ := groups
  rw [Nat.mul_div_cancel_left _ (by omega)] at ltI ltK
  calc i * block * (group * s) + k * group * block + l * group + b
      < i * block * (group * s) + k * group * block + (l + 1) * group := by
        rw [Nat.succ_mul]
        omega
    _ ≤ i * block * (group * s) + k * group * block + block * group :=
        Nat.add_le_add_left (Nat.mul_le_mul_right _ ltL) _
    _ = i * block * (group * s) + (k + 1) * (group * block) := by ring
    _ ≤ i * block * (group * s) + s * (group * block) := Nat.add_le_add_left (Nat.mul_le_mul_right _ ltK) _
    _ = (i + 1) * (block * (group * s)) := by ring
    _ ≤ c * (block * (group * s)) := Nat.mul_le_mul_right _ ltI
    _ = block * c * (group * s) := by ring

lemma exists_place (blocks : block ∣ count) (groups : group ∣ size) (lt : x < count * size) :
    ∃ m < count, ∃ n < size, place block group size m n = x := by
  obtain ⟨c, rfl⟩ := blocks
  obtain ⟨s, rfl⟩ := groups
  have pos : 0 < block * (group * s) := by
    refine Nat.pos_of_ne_zero fun zero => ?_
    have none : block * c * (group * s) = c * (block * (group * s)) := by ring
    rw [none, zero, Nat.mul_zero] at lt
    exact Nat.not_lt_zero x lt
  have posBlock : 0 < block := Nat.pos_of_mul_pos_right pos
  have posGroup : 0 < group := Nat.pos_of_mul_pos_right (Nat.pos_of_mul_pos_left pos)
  obtain ⟨i, isI⟩ : ∃ i, i = x / (block * (group * s)) := ⟨_, rfl⟩
  obtain ⟨y, isY⟩ : ∃ y, y = x % (block * (group * s)) := ⟨_, rfl⟩
  obtain ⟨k, isK⟩ : ∃ k, k = y / (block * group) := ⟨_, rfl⟩
  obtain ⟨z, isZ⟩ : ∃ z, z = y % (block * group) := ⟨_, rfl⟩
  have ltI : i < c := by
    rw [isI]
    refine Nat.div_lt_of_lt_mul ?_
    calc x < block * c * (group * s) := lt
      _ = block * (group * s) * c := by ring
  have ltK : k < s := by
    rw [isK]
    refine Nat.div_lt_of_lt_mul ?_
    calc y < block * (group * s) := isY ▸ Nat.mod_lt _ pos
      _ = block * group * s := by ring
  have ltZ : z < block * group := isZ ▸ Nat.mod_lt _ (Nat.mul_pos posBlock posGroup)
  have ltL : z / group < block := Nat.div_lt_of_lt_mul (by rwa [Nat.mul_comm])
  have ltB : z % group < group := Nat.mod_lt _ posGroup
  refine ⟨i * block + z / group, ?_, k * group + z % group, ?_, ?_⟩
  · calc i * block + z / group < (i + 1) * block := by
          rw [Nat.succ_mul]
          omega
      _ ≤ c * block := Nat.mul_le_mul_right _ ltI
      _ = block * c := Nat.mul_comm ..
  · calc k * group + z % group < (k + 1) * group := by
          rw [Nat.succ_mul]
          omega
      _ ≤ s * group := Nat.mul_le_mul_right _ ltK
      _ = group * s := Nat.mul_comm ..
  · rw [place_at ltL ltB]
    have partsX := Nat.div_add_mod x (block * (group * s))
    have partsY := Nat.div_add_mod y (block * group)
    have partsZ := Nat.div_add_mod z group
    rw [← isI, ← isY] at partsX
    rw [← isK, ← isZ] at partsY
    calc i * block * (group * s) + k * group * block + z / group * group + z % group
        = block * (group * s) * i + (block * group * k + (group * (z / group) + z % group)) := by ring
      _ = x := by rw [partsZ, partsY, partsX]

/-! ### Moves -/

section Moves
variable {β : Type} {src : Int → β} {reads : List Int} {writes : List (Int × β)}

/-- A matrix is packed: the places of its elements are all places below its size, each place is written once and each
element is read once, no other ones are, and each element comes to its place. -/
structure Packs (block group count size : Nat) (src : Int → β) (reads : List Int)
    (writes : List (Int × β)) : Prop where
  bijective : Set.BijOn (fun e : Nat × Nat => place block group size e.1 e.2)
    {e | e.1 < count ∧ e.2 < size} {x | x < count * size}
  written : (writes.map Prod.fst).Perm ((List.range (count * size)).map Nat.cast)
  read : reads.Perm ((List.range (count * size)).map Nat.cast)
  moved : ∀ m < count, ∀ n < size, ((place block group size m n : Int), src (m * size + n)) ∈ writes

lemma place_bijective (blocks : block ∣ count) (groups : group ∣ size) :
    Set.BijOn (fun e : Nat × Nat => place block group size e.1 e.2) {e | e.1 < count ∧ e.2 < size}
      {x | x < count * size} := by
  have elements : {e : Nat × Nat | e.1 < count ∧ e.2 < size}
      = (Finset.range count ×ˢ Finset.range size : Finset _) := by
    ext e
    rw [Finset.mem_coe, Finset.mem_product, Finset.mem_range, Finset.mem_range]
    rfl
  have places : {x | x < count * size} = (Finset.range (count * size) : Set Nat) := by
    ext x
    rw [Finset.mem_coe, Finset.mem_range]
    rfl
  have into : Set.MapsTo (fun e : Nat × Nat => place block group size e.1 e.2) {e | e.1 < count ∧ e.2 < size}
      {x | x < count * size} := fun e is => place_lt blocks groups is.1 is.2
  have onto : Set.SurjOn (fun e : Nat × Nat => place block group size e.1 e.2) {e | e.1 < count ∧ e.2 < size}
      {x | x < count * size} := by
    intro x lt
    obtain ⟨m, ltM, n, ltN, is⟩ := exists_place blocks groups lt
    exact ⟨(m, n), ⟨ltM, ltN⟩, is⟩
  refine ⟨into, ?_, onto⟩
  rw [elements, places] at into onto
  rw [elements]
  refine Finset.injOn_of_surjOn_of_card_le _ into onto ?_
  rw [Finset.card_product, Finset.card_range, Finset.card_range, Finset.card_range]

lemma perm_range {l : List Int} (length : l.length = n) (all : ∀ x < n, (x : Int) ∈ l) :
    l.Perm ((List.range n).map Nat.cast) := by
  have nodup : ((List.range n).map (Nat.cast : Nat → Int)).Nodup :=
    List.nodup_range.map fun _ _ eq => Int.ofNat_inj.1 eq
  have within : (List.range n).map (Nat.cast : Nat → Int) ⊆ l := by
    intro y mem
    obtain ⟨x, lt, rfl⟩ := List.mem_map.1 mem
    exact all x (List.mem_range.1 lt)
  refine ((nodup.subperm within).perm_of_length_le ?_).symm
  rw [List.length_map, List.length_range, length]

lemma Packs.of (blocks : block ∣ count) (groups : group ∣ size) (numberW : writes.length = count * size)
    (numberR : reads.length = count * size)
    (moved : ∀ m < count, ∀ n < size, ((place block group size m n : Int), src (m * size + n)) ∈ writes ∧
      (m * size + n : Int) ∈ reads) : Packs block group count size src reads writes where
  bijective := place_bijective blocks groups
  written := by
    refine perm_range ((List.length_map _).trans numberW) fun x lt => ?_
    obtain ⟨m, ltM, n, ltN, is⟩ := exists_place blocks groups lt
    rw [← is]
    exact List.mem_map_of_mem (moved m ltM n ltN).1
  read := by
    refine perm_range numberR fun x lt => ?_
    have pos : 0 < size := Nat.pos_of_mul_pos_left (Nat.zero_lt_of_lt lt)
    have mem := (moved (x / size) (Nat.div_lt_of_lt_mul (by rwa [Nat.mul_comm])) (x % size) (Nat.mod_lt _ pos)).2
    have parts : ((x / size : Nat) : Int) * size + ((x % size : Nat) : Int) = x := by
      exact_mod_cast Nat.div_add_mod' x size
    rwa [parts] at mem
  moved m ltM n ltN := (moved m ltM n ltN).1

end Moves

end Kupl.Packed
