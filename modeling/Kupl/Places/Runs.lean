import Mathlib.Data.Finset.Card

/-!
# Runs of a labelling

Some numbers below a bound carry a label, and these are taken in ascending order. A run ends where the next number has
another label: `turns` counts where this happens, and a `block` is the numbers of one run. The first blocks are all the
numbers of a label each exactly where no run among them is taken up again.
-/

namespace Kupl.Runs
open Finset

section Turns
variable {α : Type} [DecidableEq α] (avail : Nat → Bool) (label : Nat → α)

/-- The label of the last number before. -/
def prev : Nat → Option α
  | 0 => none
  | i + 1 => if avail i then some (label i) else prev i

/-- A run ends before the number. -/
def Changes (i : Nat) : Prop := avail i ∧ prev avail label i ≠ none ∧ prev avail label i ≠ some (label i)

instance (i : Nat) : Decidable (Changes avail label i) := inferInstanceAs (Decidable (_ ∧ _))

/-- The runs that end before one of the first numbers. -/
def turns : Nat → Nat
  | 0 => 0
  | i + 1 => turns i + if Changes avail label i then 1 else 0

/-- The numbers of a run below the bound. -/
def block (bound m : Nat) : Finset Nat :=
  (Finset.range bound).filter fun i => avail i ∧ turns avail label (i + 1) = m

/-- The numbers of a label below the bound. -/
def domain (bound : Nat) (a : α) : Finset Nat := (Finset.range bound).filter fun i => avail i ∧ label i = a

def labels (bound : Nat) : Finset α := ((Finset.range bound).filter (avail ·)).image label

/-- A label is taken up again only where as many runs as the limit end before the first of its numbers. -/
def Kept (bound n : Nat) : Prop :=
  ∀ i j k, i < j → j < k → k < bound → avail i → avail j → avail k → label i = label k →
    label j ≠ label i →
    n ≤ turns avail label (i + 1)

end Turns

variable {α : Type} {avail : Nat → Bool} {label : Nat → α} {i j k m n bound : Nat} {a : α}

lemma prev_skip (not : ¬ avail i) : prev avail label (i + 1) = prev avail label i := if_neg not

lemma prev_take (is : avail i) : prev avail label (i + 1) = some (label i) := if_pos is

lemma prev_eq_none : prev avail label i = none ↔ ∀ j < i, ¬ avail j := by
  induction i with
  | zero => exact ⟨fun _ j lt => absurd lt (Nat.not_lt_zero j), fun _ => rfl⟩
  | succ i ih =>
    constructor
    · intro none j lt is
      by_cases last : avail i
      · rw [prev_take last] at none
        cases none
      · rw [prev_skip last] at none
        obtain lt | rfl := Nat.lt_or_eq_of_le (Nat.le_of_lt_succ lt)
        · exact ih.1 none j lt is
        · exact last is
    · intro none
      rw [prev_skip (none i (Nat.lt_succ_self i))]
      exact ih.2 fun j lt => none j (Nat.lt_succ_of_lt lt)

variable [DecidableEq α]

lemma mem_block : i ∈ block avail label bound m ↔ i < bound ∧ avail i ∧ turns avail label (i + 1) = m := by
  rw [block, mem_filter, mem_range]

lemma mem_domain : i ∈ domain avail label bound a ↔ i < bound ∧ avail i ∧ label i = a := by
  rw [domain, mem_filter, mem_range]

lemma mem_labels : a ∈ labels avail label bound ↔ ∃ i, (i < bound ∧ avail i) ∧ label i = a := by
  rw [labels, mem_image]
  refine exists_congr fun i => and_congr_left fun _ => ?_
  rw [mem_filter, mem_range]

lemma turns_mono : Monotone (turns avail label) :=
  monotone_nat_of_le_succ fun _ => Nat.le_add_right _ _

lemma turns_succ_le : turns avail label (i + 1) ≤ turns avail label i + 1 := by
  rw [turns]
  split
  · exact le_rfl
  · exact Nat.le_succ _

lemma turns_stay (not : ¬ Changes avail label i) : turns avail label (i + 1) = turns avail label i := by
  rw [turns, if_neg not]
  rfl

lemma turns_turn (changes : Changes avail label i) : turns avail label (i + 1) = turns avail label i + 1 := by
  rw [turns, if_pos changes]

lemma turns_none (none : ∀ j < i, ¬ avail j) : turns avail label i = 0 := by
  induction i with
  | zero => rfl
  | succ i ih =>
    rw [turns_stay fun changes => none i (Nat.lt_succ_self i) changes.1]
    exact ih fun j lt => none j (Nat.lt_succ_of_lt lt)

lemma turns_iff (is : avail i) (lt : i < m) :
    (turns avail label m = turns avail label (i + 1) ↔ ∀ j < m, i < j → avail j → label j = label i) ∧
      (turns avail label m = turns avail label (i + 1) → prev avail label m = some (label i)) := by
  induction m, lt using Nat.le_induction with
  | base => exact ⟨⟨fun _ j low high => absurd low (Nat.not_lt.2 high), fun _ => rfl⟩, fun _ => prev_take is⟩
  | succ m le ih =>
    obtain ⟨iff, last⟩ := ih
    have from_i : turns avail label (i + 1) ≤ turns avail label m := turns_mono le
    by_cases changes : Changes avail label m
    · have turn := turns_turn changes
      refine ⟨⟨fun same => absurd same (by omega), fun all => ?_⟩, fun same => absurd same (by omega)⟩
      have same : turns avail label m = turns avail label (i + 1) := iff.2 fun j lt => all j (Nat.lt_succ_of_lt lt)
      have isLabel := all m (Nat.lt_succ_self m) le changes.1
      exact absurd (isLabel ▸ last same) changes.2.2
    · rw [turns_stay changes]
      refine ⟨⟨fun same j lt low isJ => ?_, fun all => iff.2 fun j lt => all j (Nat.lt_succ_of_lt lt)⟩,
        fun same => ?_⟩
      · obtain lt | rfl := Nat.lt_or_eq_of_le (Nat.le_of_lt_succ lt)
        · exact iff.1 same j lt low isJ
        · refine Classical.byContradiction fun other => changes ⟨isJ, ?_, ?_⟩
          · rw [last same]
            exact Option.some_ne_none _
          · rw [last same]
            exact fun eq => other (Option.some.inj eq).symm
      · by_cases isM : avail m
        · have isLabel : label m = label i := by
            refine Classical.byContradiction fun other => changes ⟨isM, ?_, ?_⟩
            · rw [last same]
              exact Option.some_ne_none _
            · rw [last same]
              exact fun eq => other (Option.some.inj eq).symm
          rw [prev_take isM, isLabel]
        · rw [prev_skip isM, last same]

lemma turns_eq_iff (is : avail i) (lt : i < k) :
    turns avail label (k + 1) = turns avail label (i + 1) ↔ ∀ j ≤ k, i < j → avail j → label j = label i := by
  rw [(turns_iff is (Nat.lt_succ_of_lt lt)).1]
  exact forall_congr' fun j => imp_congr_left Nat.lt_succ_iff

lemma label_of_turns (isI : avail i) (isK : avail k) (eq : turns avail label (k + 1) = turns avail label (i + 1)) :
    label k = label i := by
  obtain lt | rfl | lt := Nat.lt_trichotomy i k
  · exact (turns_eq_iff isI lt).1 eq k le_rfl lt isK
  · rfl
  · exact ((turns_eq_iff isK lt).1 eq.symm i le_rfl lt isI).symm

lemma exists_turns (some : ∃ i < bound, avail i) (le : m ≤ turns avail label bound) :
    ∃ i < bound, avail i ∧ turns avail label (i + 1) = m := by
  induction bound with
  | zero =>
    obtain ⟨i, lt, -⟩ := some
    exact absurd lt (Nat.not_lt_zero i)
  | succ bound ih =>
    by_cases before : ∃ i < bound, avail i
    · by_cases old : m ≤ turns avail label bound
      · obtain ⟨i, lt, is⟩ := ih before old
        exact ⟨i, Nat.lt_succ_of_lt lt, is⟩
      · have changes : Changes avail label bound := by
          refine Classical.byContradiction fun not => ?_
          rw [turns_stay not] at le
          exact old le
        refine ⟨bound, Nat.lt_succ_self _, changes.1, ?_⟩
        rw [turns_turn changes] at le ⊢
        omega
    · have none : ∀ j < bound, ¬ avail j := fun j lt is => before ⟨j, lt, is⟩
      have stay : turns avail label (bound + 1) = 0 := by
        rw [turns_stay fun changes => changes.2.1 (prev_eq_none.2 none), turns_none none]
      obtain ⟨i, lt, is⟩ := some
      obtain lt | rfl := Nat.lt_or_eq_of_le (Nat.le_of_lt_succ lt)
      · exact absurd is (none i lt)
      · exact ⟨i, lt, is, by omega⟩

/-! ### The first blocks -/

/-- Sets are labels each, as many as there are up to a limit. -/
structure Exact (avail : Nat → Bool) (label : Nat → α) (bound n : Nat) (sets : List (Finset Nat)) : Prop where
  number : sets.length = min n (labels avail label bound).card
  each : ∀ S ∈ sets, ∃ a ∈ labels avail label bound, S = domain avail label bound a

lemma Kept.block_eq (kept : Kept avail label bound n) (lt : i < bound) (is : avail i)
    (within : turns avail label (i + 1) < n) :
    block avail label bound (turns avail label (i + 1)) = domain avail label bound (label i) := by
  ext k
  rw [mem_block, mem_domain]
  refine and_congr_right fun ltK => and_congr_right fun isK => ⟨label_of_turns is isK, fun same => ?_⟩
  obtain low | rfl | low := Nat.lt_trichotomy i k
  · refine (turns_eq_iff is low).2 fun j le lt isJ => Classical.byContradiction fun other => ?_
    obtain ltJ | rfl := Nat.lt_or_eq_of_le le
    · have := kept i j k lt ltJ ltK is isJ isK same.symm other
      omega
    · exact other same
  · rfl
  · refine ((turns_eq_iff isK low).2 fun j le ltJ isJ => Classical.byContradiction fun other => ?_).symm
    obtain ltI | rfl := Nat.lt_or_eq_of_le le
    · have behind := kept k j i ltJ ltI lt isK isJ is same other
      have mono : turns avail label (k + 1) ≤ turns avail label (i + 1) := turns_mono (by omega)
      omega
    · exact other same.symm

/-- The blocks up to a limit, and one more where the last number ends as many runs as the limit. -/
def firstBlocks (avail : Nat → Bool) (label : Nat → α) (bound n : Nat) : List (Finset Nat) :=
  (List.range (if n ≤ turns avail label (bound - 1) then n else turns avail label bound + 1)).map
    (block avail label bound)

lemma firstBlocks_within (within : ¬ (turns avail label (bound - 1) < n ∧ n ≤ turns avail label bound)) :
    firstBlocks avail label bound n
      = (List.range (min n (turns avail label bound + 1))).map (block avail label bound) := by
  have mono : turns avail label (bound - 1) ≤ turns avail label bound := turns_mono (Nat.sub_le bound 1)
  have same : (if n ≤ turns avail label (bound - 1) then n else turns avail label bound + 1)
      = min n (turns avail label bound + 1) := by
    split <;> omega
  rw [firstBlocks, same]

lemma card_ge (some : ∃ i < bound, avail i) (le : n ≤ turns avail label bound + 1)
    (isLabel : ∀ m < n, ∃ a ∈ labels avail label bound, block avail label bound m = domain avail label bound a) :
    n ≤ (labels avail label bound).card := by
  have nonempty : Nonempty α := ⟨label some.choose⟩
  choose! f inLabels isBlock using isLabel
  have card : (Finset.range n).card ≤ (labels avail label bound).card := by
    refine card_le_card_of_injOn f (fun m mem => inLabels m (mem_range.1 mem)) fun m mem l mem' eq => ?_
    have lt : m < n := mem_range.1 mem
    obtain ⟨i, ltI, is, isM⟩ := exists_turns some (show m ≤ turns avail label bound by omega)
    have inBlock : i ∈ block avail label bound m := mem_block.2 ⟨ltI, is, isM⟩
    rw [isBlock m lt, eq, ← isBlock l (mem_range.1 mem')] at inBlock
    exact isM.symm.trans (mem_block.1 inBlock).2.2
  rwa [card_range] at card

lemma card_le (isLabel : ∀ m < turns avail label bound + 1,
      ∃ a ∈ labels avail label bound, block avail label bound m = domain avail label bound a) :
    (labels avail label bound).card ≤ turns avail label bound + 1 := by
  have own : ∀ a ∈ labels avail label bound, ∃ m < turns avail label bound + 1,
      block avail label bound m = domain avail label bound a := by
    intro a mem
    obtain ⟨i, ⟨lt, is⟩, isA⟩ := mem_labels.1 mem
    have le : turns avail label (i + 1) ≤ turns avail label bound := turns_mono lt
    obtain ⟨b, -, isBlock⟩ := isLabel _ (Nat.lt_succ_of_le le)
    have inBlock : i ∈ block avail label bound (turns avail label (i + 1)) := mem_block.2 ⟨lt, is, rfl⟩
    have isB := inBlock
    rw [isBlock] at isB
    obtain rfl : b = a := (mem_domain.1 isB).2.2.symm.trans isA
    exact ⟨_, Nat.lt_succ_of_le le, isBlock⟩
  choose! f inRange isBlock using own
  have card : (labels avail label bound).card ≤ (Finset.range (turns avail label bound + 1)).card := by
    refine card_le_card_of_injOn f (fun a mem => mem_coe.2 (mem_range.2 (inRange a mem))) ?_
    intro a mem b mem' eq
    obtain ⟨i, ⟨lt, is⟩, isA⟩ := mem_labels.1 mem
    have inDomain : i ∈ domain avail label bound a := mem_domain.2 ⟨lt, is, isA⟩
    rw [← isBlock a mem, eq, isBlock b mem'] at inDomain
    exact isA.symm.trans (mem_domain.1 inDomain).2.2
  rwa [card_range] at card

lemma firstBlocks_exact_iff (pos : 0 < n) : Exact avail label bound n (firstBlocks avail label bound n) ↔
    (∃ i < bound, avail i) ∧ ¬ (turns avail label (bound - 1) < n ∧ n ≤ turns avail label bound) ∧
      Kept avail label bound n := by
  constructor
  · intro exact
    have within : ¬ (turns avail label (bound - 1) < n ∧ n ≤ turns avail label bound) := by
      rintro ⟨before, behind⟩
      have number := exact.number
      rw [firstBlocks, if_neg (Nat.not_le_of_lt before), List.length_map, List.length_range] at number
      omega
    have each : ∀ m < n, m ≤ turns avail label bound →
        ∃ a ∈ labels avail label bound, block avail label bound m = domain avail label bound a := by
      intro m lt le
      refine exact.each _ ?_
      rw [firstBlocks_within within]
      exact List.mem_map_of_mem (List.mem_range.2 (by omega))
    refine ⟨?_, within, ?_⟩
    · obtain ⟨a, mem, -⟩ := each 0 pos (Nat.zero_le _)
      obtain ⟨i, ⟨lt, is⟩, -⟩ := mem_labels.1 mem
      exact ⟨i, lt, is⟩
    · intro i j k ltJ ltK lt isI isJ isK same other
      refine Nat.le_of_not_lt fun few => other ?_
      have le : turns avail label (i + 1) ≤ turns avail label bound := turns_mono (by omega)
      obtain ⟨a, -, isBlock⟩ := each _ few le
      have inI : i ∈ block avail label bound (turns avail label (i + 1)) := mem_block.2 ⟨by omega, isI, rfl⟩
      rw [isBlock] at inI
      have inK : k ∈ block avail label bound (turns avail label (i + 1)) := by
        rw [isBlock]
        exact mem_domain.2 ⟨lt, isK, same.symm.trans (mem_domain.1 inI).2.2⟩
      have one := (mem_block.1 inK).2.2
      exact (turns_eq_iff isI (ltJ.trans ltK)).1 one j (Nat.le_of_lt ltK) ltJ isJ
  · rintro ⟨some, within, kept⟩
    have isLabel : ∀ m < min n (turns avail label bound + 1),
        ∃ a ∈ labels avail label bound, block avail label bound m = domain avail label bound a := by
      intro m lt
      obtain ⟨i, ltI, is, isM⟩ := exists_turns some (show m ≤ turns avail label bound by omega)
      refine ⟨label i, mem_labels.2 ⟨i, ⟨ltI, is⟩, rfl⟩, ?_⟩
      rw [← isM]
      exact kept.block_eq ltI is (by omega)
    rw [firstBlocks_within within]
    constructor
    · have few := card_ge some (Nat.min_le_right _ _) isLabel
      rw [List.length_map, List.length_range]
      by_cases lt : turns avail label bound + 1 ≤ n
      · rw [Nat.min_eq_right lt] at isLabel
        have all := card_le isLabel
        omega
      · omega
    · intro S mem
      obtain ⟨m, lt, rfl⟩ := List.mem_map.1 mem
      exact isLabel m (List.mem_range.1 lt)

end Kupl.Runs
