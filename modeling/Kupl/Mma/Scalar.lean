import Kupl.Mma.Trans

/-!
# The packing copies without tiles (`kupl_mma_copy.h`)

| source | here |
|---|---|
| the common body | `callCopyScalar` |
| `KP36_16x1_BF16_TRANS_RM2CM` | `callCopy16x1Bf16TransRm2cm` |
| `KP36_1x64_BF16_TRANS_CM2RM` | `callCopy1x64Bf16TransCm2rm` |

Element after element is moved. The number of a line counts from the first line of the matrix, where the place of its
element in the block needs the number in the block: from the second block on the places are too high.
-/

namespace Kupl.Mma

section Model
variable {β : Type}

def moveElement (lines : Int) (src : Int → β) (size tileL k line : Int) (s : Moves β) : Option (Moves β) := do
  let block ← Word.mul 32 tileL size
  let column ← Word.mul 32 k lines
  let first ← Word.add 32 block column
  let x ← Word.add 32 first line
  let row ← Word.mul 32 line size
  let a ← Word.add 32 row k
  pure { s with reads := s.reads ++ [a], writes := s.writes ++ [(x, src a)] }

/-- The copies, for `count` lines of `size` elements. -/
def callCopyScalar (lines : Int) (src : Int → β) (count size : Int) (s : Moves β) : Option (Moves β) :=
  loop lines (fun tileL =>
    loop 1 (fun k => loop 1 (moveElement lines src size tileL k) lines.toNat tileL) (turns size 1) 0)
    (turns count lines) 0 s

/-- (C++ `KP36_16x1_BF16_TRANS_RM2CM`): the lines are the rows. -/
def callCopy16x1Bf16TransRm2cm (src : Int → β) (sizeM sizeN : Int) (s : Moves β) : Option (Moves β) :=
  callCopyScalar 16 src sizeM sizeN s

/-- (C++ `KP36_1x64_BF16_TRANS_CM2RM`): the lines are the columns. -/
def callCopy1x64Bf16TransCm2rm (src : Int → β) (sizeM sizeN : Int) (s : Moves β) : Option (Moves β) :=
  callCopyScalar 64 src sizeN sizeM s

end Model

variable {β : Type} {src : Int → β} {s s' : Moves β} {height c w : Nat}

lemma loop_shift {σ : Type} {step first : Int} {body : Int → σ → Option σ} {n : Nat} {i : Int} {r : σ}
    (nonneg : 0 ≤ step) (low : 0 ≤ first) (here : 0 ≤ i) (fits : first + i + n * step < 2 ^ 31) :
    loop step body n (first + i) r = loop step (fun i => body (first + i)) n i r := by
  induction n generalizing i r with
  | zero => rfl
  | succ n ih =>
    have grow : ((n + 1 : Nat) : Int) * step = n * step + step := by
      push_cast
      ring
    have rest : 0 ≤ (n : Int) * step := Int.mul_nonneg (by omega) nonneg
    rw [loop, loop]
    cases body (first + i) r with
    | none => rfl
    | some r' =>
      have left : Word.add 32 (first + i) step = some (first + (i + step)) := by
        rw [← Int.add_assoc]
        exact Word.add_eq (by constructor <;> norm_num <;> omega)
      have right : Word.add 32 i step = some (i + step) := Word.add_eq (by constructor <;> norm_num <;> omega)
      simp only [Option.bind_eq_bind, Option.bind_some, left, right]
      exact ih (by omega) (by omega)

lemma loop_first {σ : Type} {first : Nat} {body : Int → σ → Option σ} {n : Nat} {r : σ}
    (fits : first + n < 2 ^ 31) :
    loop 1 body n first r = loop 1 (fun i => body (first + i)) n 0 r := by
  have shift : loop 1 body n ((first : Int) + 0) r = loop 1 (fun i => body (first + i)) n 0 r :=
    loop_shift (by omega) (by omega) le_rfl (by norm_num at fits ⊢; omega)
  rwa [Int.add_zero] at shift

def scalarPlace (height width i k l : Nat) : Nat := i * height * width + k * height + (i * height + l)

variable {a b : Nat} {i k l : Nat}

lemma mul_nat (fits : a * b < 2 ^ 31) : Word.mul 32 a b = some ((a * b : Nat) : Int) := by
  refine Word.mul_eq ⟨?_, by exact_mod_cast fits⟩
  exact Int.le_trans (by norm_num) (Int.mul_nonneg (by omega) (by omega))

lemma add_nat (fits : a + b < 2 ^ 31) : Word.add 32 a b = some ((a + b : Nat) : Int) := by
  exact Word.add_eq ⟨by norm_num; omega, by exact_mod_cast fits⟩

lemma add_none (past : 2 ^ 31 ≤ a + b) : Word.add 32 a b = none := by
  refine Word.checked_none fun fits => ?_
  have := fits.2
  norm_num at this
  omega

lemma bind_of_eq {α γ : Type} {x : Option α} {a : α} {f : α → Option γ} (is : x = some a) :
    (x >>= f) = f a := by
  rw [is]
  rfl

lemma bind_of_none {α γ : Type} {x : Option α} {f : α → Option γ} (is : x = none) : (x >>= f) = none := by
  rw [is]
  rfl

lemma moveElement_some (fits : scalarPlace height w i k l < 2 ^ 31)
    (fitsA : (i * height + l) * w + k < 2 ^ 31) (s : Moves β) :
    ∃ s', moveElement height src w (i * height : Nat) k (i * height + l : Nat) s = some s' ∧
      Moved src 1 (fun x a => x = (scalarPlace height w i k l : Nat) ∧
        a = ((i * height + l) * w + k : Nat)) s s' := by
  rw [scalarPlace] at fits
  rw [moveElement, bind_of_eq (mul_nat (by omega)), bind_of_eq (mul_nat (by omega)), bind_of_eq (add_nat (by omega)),
    bind_of_eq (add_nat fits), bind_of_eq (mul_nat (by omega)), bind_of_eq (add_nat fitsA)]
  refine ⟨_, rfl, [_], [_], rfl, rfl, rfl, rfl, ?_⟩
  rintro x a ⟨rfl, rfl⟩
  exact ⟨List.mem_singleton.2 rfl, List.mem_singleton.2 rfl⟩

lemma moveElement_none (past : 2 ^ 31 ≤ scalarPlace height w i k l) (s : Moves β) :
    moveElement height src w (i * height : Nat) k (i * height + l : Nat) s = none := by
  rw [scalarPlace] at past
  rw [moveElement]
  by_cases block : i * height * w < 2 ^ 31
  · rw [bind_of_eq (mul_nat block)]
    by_cases column : k * height < 2 ^ 31
    · rw [bind_of_eq (mul_nat column)]
      by_cases first : i * height * w + k * height < 2 ^ 31
      · rw [bind_of_eq (add_nat first), bind_of_none (add_none past)]
      · rw [bind_of_none (add_none (Nat.le_of_not_lt first))]
    · rw [bind_of_none (mul_none (Nat.le_of_not_lt column))]
  · rw [bind_of_none (mul_none (Nat.le_of_not_lt block))]

lemma scalarPlace_le (ltI : i < c) (ltK : k < w) (ltL : l < height) :
    scalarPlace height w i k l ≤ scalarPlace height w (c - 1) (w - 1) (height - 1) := by
  have first : i * height ≤ (c - 1) * height := Nat.mul_le_mul_right _ (by omega)
  have block : i * height * w ≤ (c - 1) * height * w := Nat.mul_le_mul_right _ first
  have column : k * height ≤ (w - 1) * height := Nat.mul_le_mul_right _ (by omega)
  rw [scalarPlace, scalarPlace]
  omega

lemma source_le (ltI : i < c) (ltK : k < w) (ltL : l < height) :
    (i * height + l) * w + k ≤ scalarPlace height w (c - 1) (w - 1) (height - 1) := by
  have rows : i * height + l + 1 ≤ (c - 1) * height + height := by
    have first : i * height ≤ (c - 1) * height := Nat.mul_le_mul_right _ (by omega)
    omega
  have all : (i * height + l + 1) * w ≤ ((c - 1) * height + height) * w := Nat.mul_le_mul_right _ rows
  have own : (i * height + l + 1) * w = (i * height + l) * w + w := Nat.succ_mul _ _
  have sum : ((c - 1) * height + height) * w = (c - 1) * height * w + height * w := Nat.add_mul _ _ _
  have columns : (w - 1) * height + height = height * w := by
    rw [← Nat.succ_mul, Nat.mul_comm]
    congr 1
    omega
  rw [scalarPlace]
  omega

variable {za : Fin 4 → Nat → Nat → Nat → β}

lemma callCopyScalar_some (src : Int → β) (fitC : c * height < 2 ^ 31) (fitW : w < 2 ^ 31) (posH : 0 < height)
    (fits : scalarPlace height w (c - 1) (w - 1) (height - 1) < 2 ^ 31) (s : Moves β) :
    ∃ s', callCopyScalar height src (c * height : Nat) w s = some s' ∧ Moved src (c * (w * (height * 1)))
      (fun x a => ∃ i < c, ∃ k < w, ∃ l < height, x = (scalarPlace height w i k l : Nat) ∧
        a = ((i * height + l) * w + k : Nat)) s s' := by
  have turnsC : turns ((c * height : Nat) : Int) height = c := by
    push_cast
    exact turns_mul (by omega)
  have turnsW : turns (w : Int) 1 = w := by
    have turnsOne : turns ((w : Int) * 1) 1 = w := turns_mul (by omega)
    rwa [Int.mul_one] at turnsOne
  rw [callCopyScalar, turnsC, turnsW, Int.toNat_natCast]
  refine loop_moved (by omega) (by exact_mod_cast fitC) (fun i ltI r => ?_) s
  refine loop_moved (by omega) (by omega) (fun k ltK r => ?_) r
  have rows : i * height + height ≤ c * height := by
    rw [← Nat.succ_mul]
    exact Nat.mul_le_mul_right _ ltI
  have column : (k : Int) * 1 = k := Int.mul_one _
  have block : (i : Int) * height = ((i * height : Nat) : Int) := by push_cast; rfl
  rw [column, block, loop_first (by omega)]
  refine loop_moved (by omega) (by omega) (fun l ltL r => ?_) r
  have line : ((i * height : Nat) : Int) + (l : Int) * 1 = ((i * height + l : Nat) : Int) := by
    omega
  rw [line]
  exact moveElement_some (Nat.lt_of_le_of_lt (scalarPlace_le ltI ltK ltL) fits)
    (Nat.lt_of_le_of_lt (source_le ltI ltK ltL) fits) r

lemma callCopyScalar_none (posC : 0 < c) (posW : 0 < w) (fitC : c * height < 2 ^ 31) (posH : 0 < height)
    (past : 2 ^ 31 ≤ scalarPlace height w (c - 1) (w - 1) (height - 1)) (s : Moves β) :
    callCopyScalar height src (c * height : Nat) w s = none := by
  have turnsC : turns ((c * height : Nat) : Int) height = c := by
    push_cast
    exact turns_mul (by omega)
  have turnsW : turns (w : Int) 1 = w := by
    have turnsOne : turns ((w : Int) * 1) 1 = w := turns_mul (by omega)
    rwa [Int.mul_one] at turnsOne
  rw [callCopyScalar, turnsC, turnsW, Int.toNat_natCast]
  refine loop_none (u := c - 1) (by omega) (fun r => ?_) s
  refine loop_none (u := w - 1) (by omega) (fun r => ?_) r
  have last : (c - 1) * height + height = c * height := by
    rw [← Nat.succ_mul]
    congr 1
    omega
  have column : ((w - 1 : Nat) : Int) * 1 = (w - 1 : Nat) := Int.mul_one _
  have block : ((c - 1 : Nat) : Int) * height = (((c - 1) * height : Nat) : Int) := by push_cast; rfl
  rw [column, block, loop_first (by omega)]
  refine loop_none (u := height - 1) (by omega) (fun r => ?_) r
  have line : (((c - 1) * height : Nat) : Int) + ((height - 1 : Nat) : Int) * 1
      = (((c - 1) * height + (height - 1) : Nat) : Int) := by
    omega
  rw [line]
  exact moveElement_none past r

/-! ### The packed matrix -/

/-- Every place below the size is written once and no other one, and each element comes to its place: block after block
of lines, and in a block column after column. -/
structure Image (block count size : Nat) (src : Int → β) (writes : List (Int × β)) : Prop where
  written : (writes.map Prod.fst).Perm ((List.range (count * size)).map Nat.cast)
  moved : ∀ m < count, ∀ n < size, ((Packed.place block 1 size m n : Int), src (m * size + n)) ∈ writes

lemma image_of_moved (one : c = 0 ∨ w = 0 ∨ c = 1) (moved : Moved src (c * (w * (height * 1)))
      (fun x a => ∃ i < c, ∃ k < w, ∃ l < height, x = (scalarPlace height w i k l : Nat) ∧
        a = ((i * height + l) * w + k : Nat)) ⟨za, [], []⟩ s) : Image height (c * height) w src s.writes := by
  obtain ⟨R, W, reads, writes, numberR, numberW, all⟩ := moved
  rw [List.nil_append] at reads writes
  have packs : Packed.Packs height 1 (c * height) w src R W := by
    refine .of ⟨c, Nat.mul_comm ..⟩ (Nat.one_dvd w) (numberW.trans (by ring)) (numberR.trans (by ring)) ?_
    intro m ltM n ltN
    obtain rfl | rfl | rfl := one
    · omega
    · omega
    · have line : m < height := by omega
      have at_ := all _ _ ⟨0, Nat.one_pos, n, ltN, m, line, rfl, rfl⟩
      have isPlace : Packed.place height 1 w (0 * height + m) (n * 1 + 0)
          = 0 * height * w + n * 1 * height + m * 1 + 0 := Packed.place_at line Nat.one_pos
      have isScalar : scalarPlace height w 0 n m = 0 * height * w + n * 1 * height + m * 1 + 0 := by
        rw [scalarPlace]
        ring
      rw [isScalar, ← isPlace] at at_
      rw [Nat.zero_mul, Nat.zero_add, Nat.mul_one, Nat.add_zero] at at_
      exact at_
  rw [writes]
  exact ⟨packs.written, packs.moved⟩

lemma callCopyScalar_iff (src : Int → β) (za : Fin 4 → Nat → Nat → Nat → β) (posH : 0 < height)
    (fitC : c * height < 2 ^ 31) (fitW : w < 2 ^ 31) :
    (∃ s, callCopyScalar height src (c * height : Nat) w ⟨za, [], []⟩ = some s ∧
      Image height (c * height) w src s.writes) ↔ c = 0 ∨ w = 0 ∨ c = 1 ∧ w * height ≤ 2 ^ 31 := by
  have lastPlace : 0 < c → 0 < w → scalarPlace height w (c - 1) (w - 1) (height - 1) + 1
      = c * height * w + (c - 1) * height := by
    intro posC posW
    obtain ⟨c, rfl⟩ : ∃ d, c = d + 1 := ⟨c - 1, by omega⟩
    obtain ⟨w, rfl⟩ : ∃ d, w = d + 1 := ⟨w - 1, by omega⟩
    obtain ⟨height, rfl⟩ : ∃ d, height = d + 1 := ⟨height - 1, by omega⟩
    rw [scalarPlace, Nat.add_sub_cancel, Nat.add_sub_cancel, Nat.add_sub_cancel]
    ring
  constructor
  · rintro ⟨s, run, image⟩
    by_cases noC : c = 0
    · exact .inl noC
    by_cases noW : w = 0
    · exact .inr (.inl noW)
    have last := lastPlace (Nat.pos_of_ne_zero noC) (Nat.pos_of_ne_zero noW)
    have fits : scalarPlace height w (c - 1) (w - 1) (height - 1) < 2 ^ 31 := by
      refine Nat.lt_of_not_le fun past => ?_
      rw [callCopyScalar_none (by omega) (by omega) fitC posH past] at run
      cases run
    obtain ⟨s', run', R, W, -, writes, -, -, all⟩ := callCopyScalar_some src fitC fitW posH fits ⟨za, [], []⟩
    obtain rfl : s = s' := Option.some.inj (run.symm.trans run')
    rw [List.nil_append] at writes
    have written := (all _ _ ⟨c - 1, by omega, w - 1, by omega, height - 1, by omega, rfl, rfl⟩).1
    have inside := image.written.mem_iff.1 (writes ▸ List.mem_map_of_mem written)
    obtain ⟨x, lt, isX⟩ := List.mem_map.1 inside
    have lt := List.mem_range.1 lt
    have isX : x = scalarPlace height w (c - 1) (w - 1) (height - 1) := Int.ofNat_inj.1 isX
    have one : c = 1 := by
      refine Classical.byContradiction fun many => ?_
      have more : 1 * height ≤ (c - 1) * height := Nat.mul_le_mul_right _ (by omega)
      omega
    refine .inr (.inr ⟨one, ?_⟩)
    subst one
    have size : 1 * height * w + (1 - 1) * height = w * height := by ring
    omega
  · intro small
    by_cases noC : c = 0
    · subst noC
      have turnsC : turns ((0 * height : Nat) : Int) height = 0 := by
        push_cast
        exact turns_mul (n := 0) (by omega)
      have none : Moved src (0 * (w * (height * 1))) (fun x a => ∃ i < 0, ∃ k < w, ∃ l < height,
          x = (scalarPlace height w i k l : Nat) ∧ a = ((i * height + l) * w + k : Nat)) ⟨za, [], []⟩
            ⟨za, [], []⟩ := by
        refine Moved.none.mono (Nat.zero_mul _).symm ?_
        rintro x a ⟨i, lt, -⟩
        exact absurd lt (Nat.not_lt_zero i)
      exact ⟨⟨za, [], []⟩, by rw [callCopyScalar, turnsC]; rfl, image_of_moved (.inl rfl) none⟩
    · have fits : scalarPlace height w (c - 1) (w - 1) (height - 1) < 2 ^ 31 := by
        by_cases noW : w = 0
        · subst noW
          have rows : (c - 1) * height + height = c * height := by
            rw [← Nat.succ_mul]
            congr 1
            omega
          rw [scalarPlace]
          omega
        · have last := lastPlace (Nat.pos_of_ne_zero noC) (Nat.pos_of_ne_zero noW)
          obtain none | none | ⟨rfl, le⟩ := small
          · exact absurd none noC
          · exact absurd none noW
          · have size : 1 * height * w + (1 - 1) * height = w * height := by ring
            omega
      obtain ⟨s, run, moved⟩ := callCopyScalar_some src fitC fitW posH fits ⟨za, [], []⟩
      exact ⟨s, run, image_of_moved (small.imp_right (Or.imp_right And.left)) moved⟩

/-- The copies without tiles give the packed matrix where there is at most one block of lines, as long as its places are
values of the type, and only then. -/
theorem scalar_image_iff (src : Int → β) (za : Fin 4 → Nat → Nat → Nat → β) (sizeM sizeN : Nat)
    (fitM : sizeM < 2 ^ 31)
    (fitN : sizeN < 2 ^ 31) :
    (16 ∣ sizeM → ((∃ s, callCopy16x1Bf16TransRm2cm src sizeM sizeN ⟨za, [], []⟩ = some s ∧
      Image 16 sizeM sizeN src s.writes) ↔ sizeM = 0 ∨ sizeN = 0 ∨ sizeM = 16 ∧ sizeN * 16 ≤ 2 ^ 31)) ∧
    (64 ∣ sizeN → ((∃ s, callCopy1x64Bf16TransCm2rm src sizeM sizeN ⟨za, [], []⟩ = some s ∧
      Image 64 sizeN sizeM src s.writes) ↔ sizeN = 0 ∨ sizeM = 0 ∨ sizeN = 64 ∧ sizeM * 64 ≤ 2 ^ 31)) := by
  constructor
  · intro blocks
    obtain ⟨c, rfl⟩ := exists_eq_mul_left_of_dvd blocks
    have iff := callCopyScalar_iff src za (c := c) (w := sizeN) (show 0 < 16 by decide) fitM fitN
    refine iff.trans ?_
    omega
  · intro blocks
    obtain ⟨c, rfl⟩ := exists_eq_mul_left_of_dvd blocks
    have iff := callCopyScalar_iff src za (c := c) (w := sizeM) (show 0 < 64 by decide) fitN fitM
    refine iff.trans ?_
    omega

/-- Both copies give the packed matrix of 16 rows and 64 columns. -/
theorem scalar_image_iff_block :
    (∃ s, callCopy16x1Bf16TransRm2cm (fun a => a) 16 64 ⟨fun _ _ _ _ => 0, [], []⟩ = some s ∧
      Image 16 16 64 (fun a => a) s.writes) ∧
    ∃ s, callCopy1x64Bf16TransCm2rm (fun a => a) 16 64 ⟨fun _ _ _ _ => 0, [], []⟩ = some s ∧
      Image 64 64 16 (fun a => a) s.writes := by
  have copies := scalar_image_iff (fun a => a) (fun _ _ _ _ => 0) 16 64 (by decide) (by decide)
  exact ⟨(copies.1 (by decide)).2 (by decide), (copies.2 (by decide)).2 (by decide)⟩

/-- A column of 32 rows is written to the places from `0` to `15` and from `32` to `47`. -/
theorem scalar_image_not : ¬ ∀ sizeM sizeN : Nat, 16 ∣ sizeM → sizeM < 2 ^ 31 → sizeN < 2 ^ 31 →
    ∃ s, callCopy16x1Bf16TransRm2cm (fun a => a) sizeM sizeN ⟨fun _ _ _ _ => 0, [], []⟩ = some s ∧
      Image 16 sizeM sizeN (fun a => a) s.writes := by
  intro all
  have iff := callCopyScalar_iff (fun a => a) (fun _ _ _ _ => 0) (c := 2) (w := 1)
    (show 0 < 16 by decide) (by decide) (by decide)
  have small := iff.1 (all 32 1 (by decide) (by decide) (by decide))
  omega

end Kupl.Mma
