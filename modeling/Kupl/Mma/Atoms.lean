import Kupl.Mma.Trans

/-!
# The atoms of the packing copies (`kupl_mma_copy.h`)

| source | here |
|---|---|
| `KP36_32x1_F64_TRANS_RM2CM` | `callCopy32x1F64TransRm2cm` |
| `KP36_1x16_F64_TRANS_CM2RM` | `callCopy1x16F64TransCm2rm` |
| `KP36_16x2_BF16_TRANS_RM2ZZ` | `callCopy16x2Bf16TransRm2zz` |
| `KP36_2x64_BF16_TRANS_CM2NN` | `callCopy2x64Bf16TransCm2nn` |
| `KP36_32x2_BF16_TRANS_RM2ZZ` | `callCopy32x2Bf16TransRm2zz` |
| `KP36_2x32_BF16_TRANS_CM2NN` | `callCopy2x32Bf16TransCm2nn` |
| the four of `INT8` | `moves16x4Int8TransRm2zz` and so on |
| `TransTraits` | `TransTraits`, `Atom.traits` |
| `TiledCopy<CopyAtom, Shape<M, N>>::call` | `Atom.call` |

An atom packs its matrix as long as the products of `int` are values of the type, and only then.
-/

namespace Kupl.Mma

section Model
variable {β : Type} [Zero β]

section Copies
variable (src : Int → β) (sizeM sizeN : Int) (s : Moves β)

/-- (C++ `KP36_32x1_F64_TRANS_RM2CM`): the lines are the rows. -/
def callCopy32x1F64TransRm2cm : Option (Moves β) :=
  Kernel.copyTrans ⟨⟨32, [(0, 0, 0), (1, 8, 8), (2, 16, 16), (3, 24, 24)]⟩, 8, 1, 8⟩ src sizeM sizeN s

/-- (C++ `KP36_1x16_F64_TRANS_CM2RM`): the lines are the columns. -/
def callCopy1x16F64TransCm2rm : Option (Moves β) :=
  Kernel.copyTrans ⟨⟨16, [(0, 0, 0), (1, 8, 8)]⟩, 8, 1, 8⟩ src sizeN sizeM s

/-- (C++ `KP36_16x2_BF16_TRANS_RM2ZZ`): the lines are the rows. -/
def callCopy16x2Bf16TransRm2zz : Option (Moves β) :=
  Kernel.copyTrans ⟨⟨16, [(0, 0, 0)]⟩, 16, 2, 16⟩ src sizeM sizeN s

/-- (C++ `KP36_2x64_BF16_TRANS_CM2NN`): the lines are the columns. -/
def callCopy2x64Bf16TransCm2nn : Option (Moves β) :=
  Kernel.copyTrans ⟨⟨64, [(0, 0, 0), (1, 16, 32), (2, 32, 64), (3, 48, 96)]⟩, 16, 2, 16⟩ src sizeN sizeM s

/-- (C++ `KP36_32x2_BF16_TRANS_RM2ZZ`): the lines are the rows. -/
def callCopy32x2Bf16TransRm2zz : Option (Moves β) :=
  Kernel.copyHalves ⟨⟨32, []⟩, 16, 2, 16⟩ src sizeM sizeN s

/-- (C++ `KP36_2x32_BF16_TRANS_CM2NN`): the lines are the columns. -/
def callCopy2x32Bf16TransCm2nn : Option (Moves β) :=
  Kernel.copyHalves ⟨⟨32, []⟩, 16, 2, 16⟩ src sizeN sizeM s

/-- (C++ `KP36_16x4_INT8_TRANS_RM2ZZ`): the lines are the rows. -/
def moves16x4Int8TransRm2zz : Option (Moves β) :=
  Kernel.copyTrans ⟨⟨16, [(0, 0, 0)]⟩, 16, 4, 16⟩ src sizeM sizeN s

/-- (C++ `KP36_4x64_INT8_TRANS_CM2NN`): the lines are the columns. -/
def moves4x64Int8TransCm2nn : Option (Moves β) :=
  Kernel.copyTrans ⟨⟨64, [(0, 0, 0), (1, 16, 64), (2, 32, 128), (3, 48, 192)]⟩, 16, 4, 16⟩ src sizeN sizeM s

/-- (C++ `KP36_32x4_INT8_TRANS_RM2ZZ`): the lines are the rows. -/
def moves32x4Int8TransRm2zz : Option (Moves β) :=
  Kernel.copyTrans ⟨⟨32, [(0, 0, 0), (1, 16, 64)]⟩, 16, 4, 16⟩ src sizeM sizeN s

/-- (C++ `KP36_4x32_INT8_TRANS_CM2NN`): the lines are the columns. -/
def moves4x32Int8TransCm2nn : Option (Moves β) :=
  Kernel.copyTrans ⟨⟨32, [(0, 0, 0), (1, 16, 64)]⟩, 16, 4, 16⟩ src sizeN sizeM s

/-- The copies that pack a matrix through tiles (C++ `copy_atom_t`). -/
inductive Atom
  | f64Rm2cm32x1
  | f64Cm2rm1x16
  | bf16Rm2zz16x2
  | bf16Cm2nn2x64
  | bf16Rm2zz32x2
  | bf16Cm2nn2x32
  | int8Rm2zz16x4
  | int8Cm2nn4x64
  | int8Rm2zz32x4
  | int8Cm2nn4x32

/-- The shape of a copy, and what its sizes have to be multiples of, where that is not `0`. -/
structure TransTraits where
  m : Nat
  n : Nat
  alignmentM : Nat
  alignmentN : Nat
  alignMsg : String

/-- (C++ `TransTraits<Ops<…>>`). -/
def Atom.traits : Atom → TransTraits
  | f64Rm2cm32x1 => ⟨32, 1, 0, 8, "KP36_32x1_F64_TRANS_RM2CM: n must be multiple of 8"⟩
  | f64Cm2rm1x16 => ⟨1, 16, 8, 0, "KP36_1x16_F64_TRANS_CM2RM: m must be multiple of 8"⟩
  | bf16Rm2zz16x2 => ⟨16, 2, 0, 32, "KP36_16x2_BF16_TRANS_RM2ZZ: n must be multiple of 32"⟩
  | bf16Cm2nn2x64 => ⟨2, 64, 32, 0, "KP36_2x64_BF16_TRANS_CM2NN: m must be multiple of 32"⟩
  | bf16Rm2zz32x2 => ⟨32, 2, 0, 32, "KP36_32x2_BF16_TRANS_RM2ZZ: n must be multiple of 32"⟩
  | bf16Cm2nn2x32 => ⟨2, 32, 32, 0, "KP36_2x32_BF16_TRANS_CM2NN: m must be multiple of 32"⟩
  | int8Rm2zz16x4 => ⟨16, 4, 0, 64, "KP36_16x4_INT8_TRANS_RM2ZZ: n must be multiple of 64"⟩
  | int8Cm2nn4x64 => ⟨4, 64, 64, 0, "KP36_4x64_INT8_TRANS_CM2NN: m must be multiple of 64"⟩
  | int8Rm2zz32x4 => ⟨32, 4, 0, 64, "KP36_32x4_INT8_TRANS_RM2ZZ: n must be multiple of 64"⟩
  | int8Cm2nn4x32 => ⟨4, 32, 64, 0, "KP36_4x32_INT8_TRANS_CM2NN: m must be multiple of 64"⟩

/-- The copy of an atom (C++ `call_copy`). -/
def Atom.callCopy : Atom → Option (Moves β)
  | f64Rm2cm32x1 => callCopy32x1F64TransRm2cm src sizeM sizeN s
  | f64Cm2rm1x16 => callCopy1x16F64TransCm2rm src sizeM sizeN s
  | bf16Rm2zz16x2 => callCopy16x2Bf16TransRm2zz src sizeM sizeN s
  | bf16Cm2nn2x64 => callCopy2x64Bf16TransCm2nn src sizeM sizeN s
  | bf16Rm2zz32x2 => callCopy32x2Bf16TransRm2zz src sizeM sizeN s
  | bf16Cm2nn2x32 => callCopy2x32Bf16TransCm2nn src sizeM sizeN s
  | int8Rm2zz16x4 => moves16x4Int8TransRm2zz src sizeM sizeN s
  | int8Cm2nn4x64 => moves4x64Int8TransCm2nn src sizeM sizeN s
  | int8Rm2zz32x4 => moves32x4Int8TransRm2zz src sizeM sizeN s
  | int8Cm2nn4x32 => moves4x32Int8TransCm2nn src sizeM sizeN s

end Copies

def Atom.kernel : Atom → Kernel
  | f64Rm2cm32x1 => ⟨⟨32, [(0, 0, 0), (1, 8, 8), (2, 16, 16), (3, 24, 24)]⟩, 8, 1, 8⟩
  | f64Cm2rm1x16 => ⟨⟨16, [(0, 0, 0), (1, 8, 8)]⟩, 8, 1, 8⟩
  | bf16Rm2zz16x2 => ⟨⟨16, [(0, 0, 0)]⟩, 16, 2, 16⟩
  | bf16Cm2nn2x64 => ⟨⟨64, [(0, 0, 0), (1, 16, 32), (2, 32, 64), (3, 48, 96)]⟩, 16, 2, 16⟩
  | bf16Rm2zz32x2 => ⟨⟨32, []⟩, 16, 2, 16⟩
  | bf16Cm2nn2x32 => ⟨⟨32, []⟩, 16, 2, 16⟩
  | int8Rm2zz16x4 => ⟨⟨16, [(0, 0, 0)]⟩, 16, 4, 16⟩
  | int8Cm2nn4x64 => ⟨⟨64, [(0, 0, 0), (1, 16, 64), (2, 32, 128), (3, 48, 192)]⟩, 16, 4, 16⟩
  | int8Rm2zz32x4 => ⟨⟨32, [(0, 0, 0), (1, 16, 64)]⟩, 16, 4, 16⟩
  | int8Cm2nn4x32 => ⟨⟨32, [(0, 0, 0), (1, 16, 64)]⟩, 16, 4, 16⟩

def Atom.byRows : Atom → Bool
  | f64Rm2cm32x1 | bf16Rm2zz16x2 | bf16Rm2zz32x2 | int8Rm2zz16x4 | int8Rm2zz32x4 => true
  | f64Cm2rm1x16 | bf16Cm2nn2x64 | bf16Cm2nn2x32 | int8Cm2nn4x64 | int8Cm2nn4x32 => false

/-- The copy of an atom uses one tile for one half of the lines after the other. -/
def Atom.halves : Atom → Bool
  | bf16Rm2zz32x2 | bf16Cm2nn2x32 => true
  | _ => false

/-- A copy of a shape, or an error (C++ `TiledCopy<CopyAtom, Shape<Int<AtomShapeM>, Int<AtomShapeN>>>::call`). -/
def Atom.call (src : Int → β) (shapeM shapeN : Nat) (s : Moves β) (a : Atom) : Except String (Option (Moves β)) :=
  if a.traits.alignmentM ≠ 0 ∧ a.traits.m * shapeM % a.traits.alignmentM ≠ 0 then .error a.traits.alignMsg
  else if a.traits.alignmentN ≠ 0 ∧ a.traits.n * shapeN % a.traits.alignmentN ≠ 0 then .error a.traits.alignMsg
  else .ok (a.callCopy src (a.traits.m * shapeM : Nat) (a.traits.n * shapeN : Nat) s)

end Model

variable {β : Type} [Zero β]

def Atom.height (a : Atom) : Nat := a.kernel.lines.toNat

/-- The number of the lines. -/
def Atom.count (a : Atom) (sizeM sizeN : Nat) : Nat := if a.byRows then sizeM else sizeN

/-- The length of a line. -/
def Atom.size (a : Atom) (sizeM sizeN : Nat) : Nat := if a.byRows then sizeN else sizeM

/-- The products of a copy are values of the type. -/
def Atom.Fits (a : Atom) (count size : Nat) : Prop :=
  if a.halves then a.kernel.FitsHalves count size else a.kernel.FitsTrans a.height count size

def Atom.Aligned (a : Atom) (shapeM shapeN : Nat) : Prop :=
  (a.traits.alignmentM ≠ 0 → a.traits.m * shapeM % a.traits.alignmentM = 0) ∧
    (a.traits.alignmentN ≠ 0 → a.traits.n * shapeN % a.traits.alignmentN = 0)

lemma Atom.plain (a : Atom) (tiles : a.halves = false) : a.kernel.Plain a.height := by
  cases a with
  | bf16Rm2zz32x2 | bf16Cm2nn2x32 => cases tiles
  | _ => exact ⟨⟨rfl, by decide +kernel⟩, rfl, by decide +kernel, by decide +kernel, by decide +kernel, rfl⟩

lemma Atom.halved (a : Atom) (halves : a.halves = true) : a.kernel.Halved := by
  cases a with
  | bf16Rm2zz32x2 | bf16Cm2nn2x32 => exact ⟨⟨rfl, by decide⟩, rfl, rfl, rfl⟩
  | _ => cases halves

variable {a : Atom} {shapeM shapeN : Nat} {src : Int → β} {za : Fin 4 → Nat → Nat → Nat → β}

lemma Atom.callCopy_eq (a : Atom) (src : Int → β) (sizeM sizeN : Nat) (s : Moves β) :
    a.callCopy src sizeM sizeN s = if a.halves then a.kernel.copyHalves src (a.count sizeM sizeN) (a.size sizeM sizeN) s
      else a.kernel.copyTrans src (a.count sizeM sizeN) (a.size sizeM sizeN) s := by
  cases a <;> rfl

lemma Atom.Aligned.dvd (aligned : a.Aligned shapeM shapeN) :
    a.height ∣ a.count (a.traits.m * shapeM) (a.traits.n * shapeN) ∧
      a.kernel.lanes * a.kernel.group ∣ a.size (a.traits.m * shapeM) (a.traits.n * shapeN) := by
  obtain ⟨alignedM, alignedN⟩ := aligned
  cases a with
  | f64Rm2cm32x1 | bf16Rm2zz16x2 | bf16Rm2zz32x2 | int8Rm2zz16x4 | int8Rm2zz32x4 =>
    exact ⟨Nat.dvd_mul_right _ _, Nat.dvd_of_mod_eq_zero (alignedN (by decide))⟩
  | f64Cm2rm1x16 | bf16Cm2nn2x64 | bf16Cm2nn2x32 | int8Cm2nn4x64 | int8Cm2nn4x32 =>
    exact ⟨Nat.dvd_mul_right _ _, Nat.dvd_of_mod_eq_zero (alignedM (by decide))⟩

lemma Atom.call_eq (aligned : a.Aligned shapeM shapeN) (s : Moves β) : a.call src shapeM shapeN s
    = .ok (a.callCopy src (a.traits.m * shapeM : Nat) (a.traits.n * shapeN : Nat) s) := by
  rw [Atom.call, if_neg fun wrong => wrong.2 (aligned.1 wrong.1), if_neg fun wrong => wrong.2 (aligned.2 wrong.1)]

/-- The copies through tiles pack their matrix: every element comes to its place, every place is written once and every
element is read once, and nothing else is written or read. They do so exactly where their products are values of the
type. -/
theorem call_packs_iff (a : Atom) (src : Int → β) (za : Fin 4 → Nat → Nat → Nat → β) (shapeM shapeN : Nat)
    (aligned : a.Aligned shapeM shapeN) (fitM : a.traits.m * shapeM < 2 ^ 31) (fitN : a.traits.n * shapeN < 2 ^ 31) :
    (∃ s, a.call src shapeM shapeN ⟨za, [], []⟩ = .ok (some s) ∧ Packed.Packs a.height a.kernel.group
      (a.count (a.traits.m * shapeM) (a.traits.n * shapeN)) (a.size (a.traits.m * shapeM) (a.traits.n * shapeN))
        src s.reads s.writes) ↔
    a.Fits (a.count (a.traits.m * shapeM) (a.traits.n * shapeN))
      (a.size (a.traits.m * shapeM) (a.traits.n * shapeN)) := by
  obtain ⟨blocks, vectors⟩ := aligned.dvd
  have fitC : a.count (a.traits.m * shapeM) (a.traits.n * shapeN) < 2 ^ 31 := by
    rw [Atom.count]
    split <;> assumption
  have fitS : a.size (a.traits.m * shapeM) (a.traits.n * shapeN) < 2 ^ 31 := by
    rw [Atom.size]
    split <;> assumption
  rw [Atom.call_eq aligned, Atom.callCopy_eq, Atom.Fits]
  simp only [Except.ok.injEq]
  cases halves : a.halves with
  | true =>
    have height : a.height = 32 := by
      have lines := (a.halved halves).lines
      rw [Atom.height, lines]
      rfl
    rw [height] at blocks ⊢
    exact (a.halved halves).copyHalves_iff blocks vectors fitC fitS
  | false =>
    have plain := a.plain halves
    have pos : 0 < a.height ∧ 0 < a.kernel.lanes * a.kernel.group := by
      cases a <;> exact ⟨by decide, by decide⟩
    exact plain.copyTrans_iff pos.1 pos.2 blocks vectors fitC fitS

/-- A matrix of 32 rows and 8 columns is packed. -/
theorem call_packs_iff_small :
    ∃ s, Atom.f64Rm2cm32x1.call (fun a => a) 1 8 ⟨fun _ _ _ _ => 0, [], []⟩ = .ok (some s) ∧
      Packed.Packs Atom.f64Rm2cm32x1.height Atom.f64Rm2cm32x1.kernel.group (Atom.f64Rm2cm32x1.count (32 * 1) (1 * 8))
        (Atom.f64Rm2cm32x1.size (32 * 1) (1 * 8)) (fun a => a) s.reads s.writes :=
  (call_packs_iff Atom.f64Rm2cm32x1 (fun a => a) (fun _ _ _ _ => 0) 1 8 ⟨by decide, by decide⟩
    (by decide) (by decide)).2 (.inr (.inr (by decide)))

/-- The first byte of the last block of 65536 rows of 32832 bytes has no `int` for its place. -/
theorem call_packs_not : ¬ ∀ (a : Atom) (shapeM shapeN : Nat), a.Aligned shapeM shapeN →
    a.traits.m * shapeM < 2 ^ 31 → a.traits.n * shapeN < 2 ^ 31 →
    ∃ s, a.call (fun _ => (0 : Nat)) shapeM shapeN ⟨fun _ _ _ _ => 0, [], []⟩ = .ok (some s) ∧
      Packed.Packs a.height a.kernel.group (a.count (a.traits.m * shapeM) (a.traits.n * shapeN))
        (a.size (a.traits.m * shapeM) (a.traits.n * shapeN)) (fun _ => 0) s.reads s.writes := by
  intro all
  have aligned : Atom.int8Rm2zz16x4.Aligned 4096 8208 := ⟨by decide, by decide⟩
  obtain ⟨s, run, packs⟩ := all .int8Rm2zz16x4 4096 8208 aligned (by decide) (by decide)
  rw [Atom.call_eq aligned, Atom.callCopy_eq] at run
  have plain := Atom.int8Rm2zz16x4.plain rfl
  have fits := (plain.copyTrans_iff (by decide) (by decide) aligned.dvd.1 aligned.dvd.2 (by decide) (by decide)).1
    ⟨s, Except.ok.inj run, packs⟩
  obtain none | none | ⟨rows, -⟩ := fits
  · exact absurd none (by decide)
  · exact absurd none (by decide)
  · exact absurd rows (by decide)

end Kupl.Mma
