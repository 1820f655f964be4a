import Mathlib.Data.Nat.ModEq

/-!
# The bounded vector behind the queues of the schedulers

`src/tools/struct/kupl_vector.h` and `kupl_vector.cpp`. `head` and `tail` are counters of 64 bits that
only go up and wrap around; an element sits at its counter modulo the capacity, which is a power of two.

C++ → Lean naming: `kupl_vector_t` → `KuplVector`; `kupl_vector_create` → `kuplVectorCreate`; the macros →
`fits`, `pushIdx`, `frontIdx`, `isEmpty`, `isFull`; `KUPL_ATOMIC_ADD_RLS(&tail, 1)` → `addTail`,
`kupl_vector_pop_front_macro` → `popFront`.

`Logs v log n` connects a vector to the list of all elements that were ever pushed and the number `n` of
those that were popped: the slots of the others hold them, each in its place.
-/

namespace Kupl.Ring

variable {α : Type*}

/-- A vector (C++ `kupl_vector_t`). -/
structure KuplVector (α : Type*) where
  head : BitVec 64
  tail : BitVec 64
  capacity : BitVec 64
  elemSize : BitVec 64
  data : Nat → α

/-- `sizeof(kupl_vector_t)`. -/
def SIZEOF_VECTOR : BitVec 64 := 48

def growCapacity (capacity : BitVec 64) : (fuel : Nat) → (actual : BitVec 64) → Option (BitVec 64)
  | 0, actual => if actual < capacity then none else some actual
  | fuel + 1, actual =>
    if actual < capacity then growCapacity capacity fuel (actual <<< 1) else some actual

/-- The capacity that is allocated; `none` where the loop does not end, as the next doubling after
`2 ^ 63` gives 0 for good. -/
def actualCapacity (capacity : BitVec 64) : Option (BitVec 64) := growCapacity capacity 63 1

/-- `kupl_vector_create`, with the outcome of `kupl_calloc`. -/
def kuplVectorCreate [Inhabited α] (capacity elemSize : BitVec 64) (calloc : Bool) : Option (KuplVector α) :=
  if elemSize = 0 then none
  else
    match actualCapacity capacity with
    | none => none
    | some actual =>
      if (BitVec.allOnes 64 - SIZEOF_VECTOR) / actual < elemSize then none
      else if calloc then some ⟨0, 0, actual, elemSize, fun _ => default⟩
      else none

namespace KuplVector
variable (v : KuplVector α)

/-- The check of `kupl_vector_push_back_macro` for the counters that it has loaded. -/
def fits (tail head : BitVec 64) : Bool := tail - head + 1 < v.capacity

/-- `kupl_vector_full_macro`. -/
def isFull : Bool := v.capacity ≤ v.tail - v.head + 1

/-- `kupl_vector_empty_macro` for the counters that it has loaded. -/
def isEmpty (head tail : BitVec 64) : Bool := head = tail

/-- The index that `kupl_vector_push_back_macro` writes to. -/
def pushIdx (tail : BitVec 64) : Nat := (tail % v.capacity).toNat

/-- The index that `kupl_vector_front_macro` reads from. -/
def frontIdx (head : BitVec 64) : Nat := (head % v.capacity).toNat

/-- `_arr[i] = elem`. -/
def store (i : Nat) (elem : α) : KuplVector α := { v with data := Function.update v.data i elem }

/-- `KUPL_ATOMIC_ADD_RLS(&tail, 1)`. -/
def addTail : KuplVector α := { v with tail := v.tail + 1 }

/-- `kupl_vector_pop_front_macro`. -/
def popFront : KuplVector α := { v with head := v.head + 1 }

@[simp] lemma popFront_capacity : v.popFront.capacity = v.capacity := rfl

end KuplVector

lemma growCapacity_pow {capacity a : BitVec 64} {fuel i : Nat} {actual : BitVec 64} (sum : i + fuel = 63)
    (pow : actual.toNat = 2 ^ i) (e : growCapacity capacity fuel actual = some a) :
    ∃ k, k < 64 ∧ a.toNat = 2 ^ k ∧ capacity ≤ a := by
  induction fuel generalizing i actual with
  | zero =>
    unfold growCapacity at e
    split at e
    · cases e
    · cases e
      exact ⟨i, by omega, pow, BitVec.not_lt.1 ‹_›⟩
  | succ fuel ih =>
    unfold growCapacity at e
    split at e
    · have lt : 2 ^ (i + 1) < 2 ^ 64 := Nat.pow_lt_pow_right (by decide) (by omega)
      refine ih (i := i + 1) (by omega) ?_ e
      rw [BitVec.toNat_shiftLeft, pow, Nat.shiftLeft_eq, Nat.pow_one, ← Nat.pow_succ, Nat.mod_eq_of_lt lt]
    · cases e
      exact ⟨i, by omega, pow, BitVec.not_lt.1 ‹_›⟩

variable {calloc : Bool}

lemma kuplVectorCreate_capacity [Inhabited α] {capacity elemSize : BitVec 64}
    {v : KuplVector α} (e : kuplVectorCreate capacity elemSize calloc = some v) :
    (∃ k, k < 64 ∧ v.capacity.toNat = 2 ^ k) ∧ capacity ≤ v.capacity ∧ v.head = 0 ∧ v.tail = 0 := by
  unfold kuplVectorCreate at e
  split at e
  · cases e
  · split at e
    · cases e
    · rename_i ea
      split at e
      · cases e
      · split at e
        · obtain ⟨k, lt, pow, le⟩ := growCapacity_pow (i := 0) rfl rfl ea
          cases e
          exact ⟨⟨k, lt, pow⟩, le, rfl, rfl⟩
        · cases e

lemma kuplVectorCreate_zero [Inhabited α] {elemSize : BitVec 64} {v : KuplVector α}
    (e : kuplVectorCreate 0 elemSize calloc = some v) : v.capacity = 1 := by
  have one : actualCapacity 0 = some 1 := rfl
  simp only [kuplVectorCreate, one] at e
  split at e
  · cases e
  · split at e
    · cases e
    · split at e
      · cases e
        rfl
      · cases e

/-- A vector against the list of all elements that were pushed, `n` of which were popped. -/
structure Logs (v : KuplVector α) (log : List α) (n : Nat) : Prop where
  capacity : ∃ k, k < 64 ∧ v.capacity.toNat = 2 ^ k
  head : v.head = BitVec.ofNat 64 n
  tail : v.tail = BitVec.ofNat 64 log.length
  le : n ≤ log.length
  room : log.length - n + 1 ≤ v.capacity.toNat
  slot : ∀ i, n ≤ i → (lt : i < log.length) → v.data (i % v.capacity.toNat) = log[i]

lemma kuplVectorCreate_logs [Inhabited α] {capacity elemSize : BitVec 64}
    {v : KuplVector α} (e : kuplVectorCreate capacity elemSize calloc = some v) : Logs v [] 0 := by
  obtain ⟨⟨k, lt, pow⟩, -, eh, et⟩ := kuplVectorCreate_capacity e
  refine ⟨⟨k, lt, pow⟩, eh, et, Nat.le_refl _, ?_, fun i _ lt => nomatch lt⟩
  rw [pow]
  exact Nat.two_pow_pos k

namespace Logs
variable {v : KuplVector α} {log : List α} {n : Nat}

section
variable (L : Logs v log n)
include L

lemma index_eq (i : Nat) : v.pushIdx (BitVec.ofNat 64 i) = i % v.capacity.toNat := by
  obtain ⟨k, lt, pow⟩ := L.capacity
  rw [KuplVector.pushIdx, BitVec.toNat_umod, BitVec.toNat_ofNat, pow]
  exact Nat.mod_mod_of_dvd _ (Nat.pow_dvd_pow 2 (by omega))

lemma frontIdx_eq (i : Nat) : v.frontIdx (BitVec.ofNat 64 i) = i % v.capacity.toNat := L.index_eq i

omit L in
lemma distance {m l : Nat} (le : m ≤ l) (near : l - m + 1 < 2 ^ 64) :
    (BitVec.ofNat 64 l - BitVec.ofNat 64 m + 1).toNat = l - m + 1 := by
  have one : (1 : BitVec 64).toNat = 1 := rfl
  rw [BitVec.toNat_add, BitVec.toNat_sub, BitVec.toNat_ofNat, BitVec.toNat_ofNat, one]
  omega

lemma fits_iff {m : Nat} (le : m ≤ n) (near : log.length - m + 1 ≤ v.capacity.toNat) :
    v.fits v.tail (BitVec.ofNat 64 m) = true ↔ log.length - m + 1 < v.capacity.toNat := by
  have near' := Nat.lt_of_le_of_lt near v.capacity.isLt
  rw [KuplVector.fits, decide_eq_true_eq, BitVec.lt_def, L.tail, distance (Nat.le_trans le L.le) near']

lemma isFull_iff : v.isFull = true ↔ log.length - n + 1 = v.capacity.toNat := by
  have near := Nat.lt_of_le_of_lt L.room v.capacity.isLt
  rw [KuplVector.isFull, decide_eq_true_eq, BitVec.le_def, L.tail, L.head, distance L.le near]
  exact ⟨Nat.le_antisymm L.room, Nat.le_of_eq ∘ Eq.symm⟩

lemma isEmpty_iff {m : Nat} (le : n ≤ m) (le' : m ≤ log.length) :
    KuplVector.isEmpty v.head (BitVec.ofNat 64 m) = true ↔ n = m := by
  have near := Nat.lt_of_le_of_lt L.room v.capacity.isLt
  rw [KuplVector.isEmpty, decide_eq_true_eq, L.head, BitVec.toNat_inj.symm, BitVec.toNat_ofNat, BitVec.toNat_ofNat]
  omega

omit L in
lemma slot_ne {i j c : Nat} (lt : i < j) (near : j < i + c) : i % c ≠ j % c := by
  intro e
  have dvd := (Nat.modEq_iff_dvd' (Nat.le_of_lt lt)).1 e
  have := Nat.le_of_dvd (by omega) dvd
  omega

lemma store (room : log.length - n + 1 < v.capacity.toNat) (a : α) : Logs (v.store (v.pushIdx v.tail) a) log n where
  capacity := L.capacity
  head := L.head
  tail := L.tail
  le := L.le
  room := L.room
  slot i le lt := by
    have ne : i % v.capacity.toNat ≠ log.length % v.capacity.toNat := slot_ne lt (by omega)
    rw [L.tail, L.index_eq]
    exact (Function.update_of_ne ne _ _).trans (L.slot i le lt)

lemma addTail (room : log.length - n + 1 < v.capacity.toNat) {a : α}
    (stored : v.data (log.length % v.capacity.toNat) = a) : Logs v.addTail (log ++ [a]) n where
  capacity := L.capacity
  head := L.head
  tail := by
    rw [KuplVector.addTail, L.tail, List.length_append, List.length_singleton, BitVec.ofNat_add]
    rfl
  le := by
    have := L.le
    rw [List.length_append]
    omega
  room := by
    rw [List.length_append, List.length_singleton]
    exact Nat.le_trans (by omega) room
  slot i le lt := by
    rw [List.length_append, List.length_singleton] at lt
    by_cases last : i = log.length
    · subst last
      rw [List.getElem_concat_length rfl]
      exact stored
    · rw [List.getElem_append_left (by omega)]
      exact L.slot i le (by omega)

lemma popFront (lt : n < log.length) : Logs v.popFront log (n + 1) where
  capacity := L.capacity
  head := by
    rw [KuplVector.popFront, L.head, BitVec.ofNat_add]
    rfl
  tail := L.tail
  le := lt
  room := by
    have := L.room
    rw [KuplVector.popFront_capacity]
    omega
  slot i le lt := L.slot i (by omega) lt

lemma front (lt : n < log.length) : v.data (v.frontIdx v.head) = log[n] := by
  rw [L.head, L.frontIdx_eq]
  exact L.slot n (Nat.le_refl _) lt

end

end Logs
end Kupl.Ring
