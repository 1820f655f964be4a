import Kupl.Ring.Alone

/-!
# The queues of the schedulers, a call at a time

`queue_add_tb`, `queue_get_tb` (`src/mt/scheduler/plugin/mq/kupl_sched_mq.cpp`, with copies in the other
plugins), `priority_queue_add_tb` and `priority_queue_get_tb`
(`src/mt/scheduler/plugin/kupl_sched_plugin_api.h`), each call as one step: its body runs under a lock.

C++ → Lean naming: `queue_add_tb` → `queueAddTb`; `queue_get_tb` → `queueGetTb`; `priority_queue_t` →
`PriorityQueue`; `priority_queue_add_tb` → `priorityQueueAddTb`; `priority_queue_get_tb` →
`priorityQueueGetTb`.

`contents` reads the tasks of a vector off from its slots.
-/

namespace Kupl.Sched
open Kupl.Ring List

variable {α : Type*}

/-- The elements of a vector, from its head to its tail. -/
def contents (v : KuplVector α) : List α :=
  (List.range (v.tail - v.head).toNat).map fun i => v.data (v.pushIdx (v.head + BitVec.ofNat 64 i))

/-- `queue_add_tb`; `none` for `KUPL_ERROR`. -/
def queueAddTb (v : KuplVector α) (tb : α) : Option (KuplVector α) :=
  if v.fits v.tail v.head then some (v.store (v.pushIdx v.tail) tb).addTail else none

/-- `queue_get_tb`; `none` for a null pointer. -/
def queueGetTb (v : KuplVector α) : Option (α × KuplVector α) :=
  if KuplVector.isEmpty v.head v.tail then none else some (v.data (v.frontIdx v.head), v.popFront)

/-- A priority queue (C++ `priority_queue_t`), its locks apart. -/
structure PriorityQueue (α : Type*) where
  size : Int
  spsc : KuplVector α
  heap : List α
  tbCnt : Int

namespace PriorityQueue

/-- `priority_queue_add_tb`. -/
def priorityQueueAddTb (q : PriorityQueue α) (tb : α) : Option (PriorityQueue α) :=
  (queueAddTb q.spsc tb).map fun v => { q with spsc := v }

/-- The loop of `priority_queue_get_tb` that moves tasks from the vector to the heap, for a number of
tasks in the vector. -/
def fill : Nat → PriorityQueue α → PriorityQueue α
  | 0, q => q
  | n + 1, q =>
    match queueGetTb q.spsc with
    | none => q
    | some (tb, v) =>
      if toInt32 q.heap.length ≥ q.size then q else fill n { q with spsc := v, heap := tb :: q.heap }

def all (q : PriorityQueue α) : List α := contents q.spsc ++ q.heap

variable [DecidableEq α]

/-- The end of `priority_queue_get_tb`, after the loop, given which task is the top of the heap; `none`
where it cannot be. -/
def takeTop (prio : α → Int) (q : PriorityQueue α) : Option α → Option (PriorityQueue α × Option α)
  | none => if q.heap.isEmpty then some ({ q with tbCnt := toInt32 0 }, none) else none
  | some tb =>
    if IsTop prio q.heap tb then
      some ({ q with heap := q.heap.erase tb, tbCnt := toInt32 (q.heap.erase tb).length }, some tb)
    else none

/-- `priority_queue_get_tb`, given which task is the top of the heap. -/
def priorityQueueGetTb (prio : α → Int) (q : PriorityQueue α) (top : Option α) :
    Option (PriorityQueue α × Option α) :=
  if q.tbCnt ≤ 0 ∧ KuplVector.isEmpty q.spsc.head q.spsc.tail then
    if top.isNone then some (q, none) else none
  else takeTop prio (fill (q.spsc.tail - q.spsc.head).toNat q) top

end PriorityQueue

/-- A vector that was created, after any pushes and pops. -/
def Held (v : KuplVector α) : Prop := ∃ log n, Logs v log n

lemma contents_eq {v : KuplVector α} {log : List α} {n : Nat} (L : Logs v log n) : contents v = log.drop n := by
  have near := Nat.lt_of_le_of_lt L.room v.capacity.isLt
  have len : (v.tail - v.head).toNat = log.length - n := by
    have le := L.le
    rw [BitVec.toNat_sub, L.tail, L.head, BitVec.toNat_ofNat, BitVec.toNat_ofNat]
    omega
  have index (i : Nat) : v.pushIdx (v.head + BitVec.ofNat 64 i) = (n + i) % v.capacity.toNat := by
    rw [L.head, ← BitVec.ofNat_add]
    exact L.index_eq (n + i)
  apply ext_getElem
  · simp only [contents, length_map, length_range, length_drop, len]
  · intro i lt lt'
    rw [length_drop] at lt'
    simp only [contents, getElem_map, getElem_range, getElem_drop, index]
    exact L.slot (n + i) (Nat.le_add_right n i) (by omega)

section Calls
variable {v v' : KuplVector α} {tb : α}

lemma queueAddTb_ok (H : Held v) (e : queueAddTb v tb = some v') : Held v' ∧ contents v' = contents v ++ [tb] := by
  obtain ⟨log, n, L⟩ := H
  unfold queueAddTb at e
  split at e
  · rename_i fits
    cases e
    rw [L.head, L.fits_iff (Nat.le_refl n) L.room] at fits
    have S := L.store fits tb
    have stored : (v.store (v.pushIdx v.tail) tb).data (log.length % v.capacity.toNat) = tb := by
      rw [L.tail, L.index_eq]
      exact Function.update_self ..
    have A := S.addTail fits stored
    refine ⟨⟨_, n, A⟩, ?_⟩
    rw [contents_eq A, contents_eq L, drop_append_of_le_length L.le]
  · cases e

lemma queueGetTb_ok (H : Held v) (e : queueGetTb v = some (tb, v')) : Held v' ∧ contents v = tb :: contents v' := by
  obtain ⟨log, n, L⟩ := H
  unfold queueGetTb at e
  split at e
  · cases e
  · rename_i more
    cases e
    rw [L.tail, L.isEmpty_iff L.le (Nat.le_refl _)] at more
    have lt : n < log.length := Nat.lt_of_le_of_ne L.le more
    have P := L.popFront lt
    refine ⟨⟨log, n + 1, P⟩, ?_⟩
    rw [contents_eq P, contents_eq L, L.front lt, drop_eq_getElem_cons lt]

lemma queueGetTb_none (H : Held v) : queueGetTb v = none ↔ contents v = [] := by
  obtain ⟨log, n, L⟩ := H
  rw [contents_eq L, drop_eq_nil_iff]
  have empty := L.isEmpty_iff L.le (Nat.le_refl log.length)
  rw [← L.tail] at empty
  unfold queueGetTb
  split
  · rename_i h
    exact ⟨fun _ => Nat.le_of_eq (empty.1 h).symm, fun _ => rfl⟩
  · rename_i h
    refine ⟨nofun, fun le => absurd (empty.2 (Nat.le_antisymm L.le le)) h⟩

end Calls

namespace PriorityQueue
variable {q q' : PriorityQueue α} {tb : α} {n : Nat}

/-- A priority queue that was created, after any calls. -/
structure Sound (q : PriorityQueue α) : Prop where
  held : Held q.spsc
  size : 0 ≤ q.size ∧ q.size < 2 ^ 31
  zero : q.size = 0 → q.spsc.capacity.toNat = 1
  full : (q.heap.length : Int) ≤ q.size
  count : q.tbCnt = q.heap.length

lemma priorityQueueAddTb_ok (S : q.Sound) (e : q.priorityQueueAddTb tb = some q') :
    q'.Sound ∧ q'.all.Perm (tb :: q.all) := by
  obtain ⟨v, ev, rfl⟩ := Option.map_eq_some_iff.1 e
  obtain ⟨H, more⟩ := queueAddTb_ok S.held ev
  have same : v.capacity = q.spsc.capacity := by
    unfold queueAddTb at ev
    split at ev
    · cases ev
      rfl
    · cases ev
  refine ⟨⟨H, S.size, fun zero => ?_, S.full, S.count⟩, ?_⟩
  · show v.capacity.toNat = 1
    rw [same, S.zero zero]
  · show (contents v ++ q.heap).Perm _
    rw [more, append_assoc]
    exact perm_middle

lemma fill_keeps (H : Held q.spsc) (full : (q.heap.length : Int) ≤ q.size) (small : q.size < 2 ^ 31) :
    Held (fill n q).spsc ∧ (fill n q).size = q.size ∧ (fill n q).spsc.capacity = q.spsc.capacity ∧
      ((fill n q).heap.length : Int) ≤ q.size ∧ (fill n q).all.Perm q.all := by
  induction n generalizing q with
  | zero => exact ⟨H, rfl, rfl, full, .refl _⟩
  | succ n ih =>
    unfold fill
    split
    · exact ⟨H, rfl, rfl, full, .refl _⟩
    · rename_i tb v e
      split
      · exact ⟨H, rfl, rfl, full, .refl _⟩
      · rename_i room
        rw [Ring.PriorityQueue.toInt32_eq (Int.lt_of_le_of_lt full small)] at room
        obtain ⟨H', front⟩ := queueGetTb_ok H e
        have cap : v.capacity = q.spsc.capacity := by
          unfold queueGetTb at e
          split at e
          · cases e
          · cases e
            rfl
        have full' : ((tb :: q.heap).length : Int) ≤ q.size := by
          rw [length_cons]
          omega
        obtain ⟨held, size, capacity, le, perm⟩ := ih (q := { q with spsc := v, heap := tb :: q.heap })
          H' full' small
        refine ⟨held, size, capacity.trans cap, le, perm.trans ?_⟩
        show (contents v ++ tb :: q.heap).Perm (contents q.spsc ++ q.heap)
        rw [front]
        exact perm_middle

lemma fill_le : q.heap.length ≤ (fill n q).heap.length := by
  induction n generalizing q with
  | zero => exact Nat.le_refl _
  | succ n ih =>
    unfold fill
    split
    · exact Nat.le_refl _
    · rename_i tb v e
      split
      · exact Nat.le_refl _
      · have more := ih (q := { q with spsc := v, heap := tb :: q.heap })
        exact Nat.le_trans (Nat.le_succ _) more

lemma fill_heap (H : Held q.spsc) (pos : 0 < q.size) (enough : n = 0 → contents q.spsc = [])
    (none : (fill n q).heap = []) : q.all = [] := by
  cases n with
  | zero => exact append_eq_nil_iff.2 ⟨enough rfl, none⟩
  | succ n =>
    have empty : q.heap = [] := by
      apply eq_nil_of_length_eq_zero
      have le : q.heap.length ≤ (fill (n + 1) q).heap.length := fill_le
      rw [none] at le
      exact Nat.le_zero.1 le
    unfold fill at none
    split at none
    · rename_i e
      exact append_eq_nil_iff.2 ⟨(queueGetTb_none H).1 e, none⟩
    · rename_i tb v e
      split at none
      · rename_i room
        rw [empty, length_nil, Ring.PriorityQueue.toInt32_eq (by decide)] at room
        exact absurd room (by omega)
      · have le := fill_le (q := { q with spsc := v, heap := tb :: q.heap }) (n := n)
        rw [none] at le
        exact absurd le (by simp)

lemma rounds_zero {v : KuplVector α} (zero : (v.tail - v.head).toNat = 0) : contents v = [] := by
  unfold contents
  rw [zero]
  rfl

lemma all_nil (S : q.Sound) (none : q.tbCnt ≤ 0) (empty : KuplVector.isEmpty q.spsc.head q.spsc.tail) :
    q.all = [] := by
  have spsc : contents q.spsc = [] := by
    apply (queueGetTb_none S.held).1
    rw [queueGetTb, if_pos empty]
  have heap : q.heap = [] := by
    apply eq_nil_of_length_eq_zero
    have := S.count
    omega
  exact append_eq_nil_iff.2 ⟨spsc, heap⟩

lemma fill_nil (S : q.Sound) (none : (fill (q.spsc.tail - q.spsc.head).toNat q).heap = []) : q.all = [] := by
  by_cases pos : 0 < q.size
  · exact fill_heap S.held pos rounds_zero none
  · have zero : q.size = 0 := by
      have := S.size.1
      omega
    obtain ⟨log, n, L⟩ := S.held
    have spsc : contents q.spsc = [] := by
      rw [contents_eq L, drop_eq_nil_iff]
      have := L.room
      rw [S.zero zero] at this
      omega
    have heap : q.heap = [] := by
      apply eq_nil_of_length_eq_zero
      have := S.full
      omega
    exact append_eq_nil_iff.2 ⟨spsc, heap⟩

variable [DecidableEq α] {prio : α → Int} {top r : Option α}

lemma priorityQueueGetTb_ok (S : q.Sound) (e : q.priorityQueueGetTb prio top = some (q', r)) : q'.Sound ∧ match r with
      | none => q.all = [] ∧ q'.all = []
      | some tb => q.all.Perm (tb :: q'.all) := by
  unfold priorityQueueGetTb at e
  split at e
  · rename_i early
    have nil := all_nil S early.1 early.2
    split at e
    · cases e
      exact ⟨S, nil, nil⟩
    · cases e
  · obtain ⟨held, size, capacity, le, perm⟩ := fill_keeps (n := (q.spsc.tail - q.spsc.head).toNat) S.held
      S.full S.size.2
    have zero : (fill (q.spsc.tail - q.spsc.head).toNat q).size = 0 →
        (fill (q.spsc.tail - q.spsc.head).toNat q).spsc.capacity.toNat = 1 := by
      rw [size, capacity]
      exact S.zero
    have nil := fill_nil S
    have bounds := S.size
    generalize fill (q.spsc.tail - q.spsc.head).toNat q = f at e held size zero le perm nil
    rw [← size] at le bounds
    cases top with
    | none =>
      rw [takeTop] at e
      split at e
      · rename_i empty
        have empty := isEmpty_iff.1 empty
        have none := nil empty
        cases e
        refine ⟨⟨held, bounds, zero, le, ?_⟩, none, ?_⟩
        · show toInt32 0 = f.heap.length
          rw [empty]
          rfl
        · rw [none] at perm
          exact perm.eq_nil
      · cases e
    | some tb =>
      rw [takeTop] at e
      split at e
      · rename_i isTop
        cases e
        have mem := isTop.1
        have shorter := length_erase_of_mem mem
        have fewer : ((f.heap.erase tb).length : Int) ≤ f.size := by omega
        have count : toInt32 (f.heap.erase tb).length = (f.heap.erase tb).length := by
          apply Ring.PriorityQueue.toInt32_eq
          omega
        refine ⟨⟨held, bounds, zero, fewer, ?_⟩, ?_⟩
        · dsimp only
          exact count
        apply perm.symm.trans
        show (contents f.spsc ++ f.heap).Perm (tb :: (contents f.spsc ++ f.heap.erase tb))
        exact ((perm_cons_erase mem).append_left _).trans perm_middle
      · cases e

lemma exists_get (prio : α → Int) (S : q.Sound) (ne : q.all ≠ []) :
    ∃ tb q', q.priorityQueueGetTb prio (some tb) = some (q', some tb) := by
  have heap : (fill (q.spsc.tail - q.spsc.head).toNat q).heap ≠ [] := fun e => ne (fill_nil S e)
  have late : ¬(q.tbCnt ≤ 0 ∧ KuplVector.isEmpty q.spsc.head q.spsc.tail) :=
    fun early => ne (all_nil S early.1 early.2)
  obtain ⟨tb, isTop⟩ := Ring.PriorityQueue.exists_top prio heap
  refine ⟨tb, ?_⟩
  rw [priorityQueueGetTb, if_neg late, takeTop, if_pos isTop]
  exact ⟨_, rfl⟩

lemma get_nil (prio : α → Int) (S : q.Sound) (nil : q.all = []) :
    ∃ q', q.priorityQueueGetTb prio none = some (q', none) := by
  unfold priorityQueueGetTb
  split
  · exact ⟨q, rfl⟩
  · obtain ⟨-, -, -, -, perm⟩ := fill_keeps (n := (q.spsc.tail - q.spsc.head).toNat) S.held S.full S.size.2
    rw [nil] at perm
    have empty : (fill (q.spsc.tail - q.spsc.head).toNat q).heap.isEmpty = true :=
      isEmpty_iff.2 (append_eq_nil_iff.1 perm.eq_nil).2
    rw [takeTop, if_pos empty]
    exact ⟨_, rfl⟩

end PriorityQueue

end Kupl.Sched
