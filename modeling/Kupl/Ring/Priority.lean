import Kupl.Machine.Run
import Kupl.Ring.Adders
import Mathlib.Data.List.Perm.Lattice

/-!
# The priority queue of the schedulers

`priority_queue_create`, `priority_queue_add_tb` and `priority_queue_get_tb` of
`src/mt/scheduler/plugin/kupl_sched_plugin_api.h`: a ring that producers push to under `add_lock`, and a
heap that a consumer moves the ring into under `get_lock`, up to `size`, before it takes the top. The
loads and stores of all calls come in any order, the early exit of a get without a lock among them.

C++ → Lean naming: `priority_queue_t` → `PriorityQueue`; `kupl_mq_priority_cmp` → `priorityCmp`; `q` →
`heap`; `spsc` → `spsc`. `std::priority_queue` is a list of which the top is some element that the
comparator puts before no other; which one, a step says. `kupl_vector_empty_macro` loads `head` and `tail`
in an order that a step says as well.

`drained`, `tops` and `returned` are history: how many tasks have left the ring, each task that was taken
from the heap with what was in the heap, and the tasks that were returned.
-/

namespace Kupl.Ring
open Option List

variable {ι κ α : Type*}

/-- `kupl_mq_priority_cmp`. -/
def priorityCmp (prio : α → Int) (a b : α) : Prop := prio a < prio b

instance (prio : α → Int) (a b : α) : Decidable (priorityCmp prio a b) :=
  inferInstanceAs (Decidable (_ < _))

/-- A conversion of a `size_t` to `int`. -/
def toInt32 (n : Nat) : Int := Int.bmod n (2 ^ 32)

/-- Where a consumer is in `priority_queue_get_tb`: outside; before, in and after the check without a
lock; in the loop, with what it has loaded; and after it. -/
inductive TakePc (α : Type*) where
  | out
  | check
  | checkHead (head : BitVec 64)
  | checkTail (tail : BitVec 64)
  | enter
  | loop
  | loopHead (head : BitVec 64)
  | loopTail (tail : BitVec 64) (pushed : Nat)
  | room
  | front
  | read (idx : Nat)
  | push (tb : α)
  | pop
  | top
  | store (tb : Option α)
  | done (tb : Option α)
  deriving DecidableEq

/-- A priority queue with its users (C++ `priority_queue_t`). -/
structure PriorityQueue (ι κ α : Type*) where
  size : Int
  spsc : KuplVector α
  add : Adders ι α
  lock : Option κ
  pc : κ → TakePc α
  heap : List α
  tbCnt : Int
  drained : Nat
  tops : List (α × List α)
  returned : List α

/-- A call, or the next load, store, lock or unlock inside one; a consumer's step says which load comes
first and which task is the top, where this is open. -/
inductive PriorityLabel (ι κ α : Type*) where
  | add (p : ι) (tb : α)
  | adder (p : ι)
  | get (c : κ)
  | getter (c : κ) (tailFirst : Bool) (tb : Option α)

/-- `t` may be the top of a heap. -/
def IsTop (prio : α → Int) (heap : List α) (t : α) : Prop :=
  t ∈ heap ∧ ∀ x ∈ heap, ¬priorityCmp prio t x

instance [DecidableEq α] (prio : α → Int) (heap : List α) (t : α) : Decidable (IsTop prio heap t) :=
  inferInstanceAs (Decidable (_ ∧ _))

namespace PriorityQueue

/-- `priority_queue_create`: the queue of a size of type `int`. -/
def Created [Inhabited α] (s : PriorityQueue ι κ α) : Prop :=
  -2 ^ 31 ≤ s.size ∧ s.size < 2 ^ 31 ∧
  (∃ calloc, kuplVectorCreate (BitVec.ofInt 64 s.size) 8 calloc = some s.spsc) ∧
  s.add = .start ∧ s.lock = none ∧ s.pc = (fun _ => .out) ∧ s.heap = [] ∧ s.tbCnt = 0 ∧
  s.drained = 0 ∧ s.tops = [] ∧ s.returned = []

section Step
variable [DecidableEq κ]

/-- A consumer goes on to the next place. -/
def goto (s : PriorityQueue ι κ α) (c : κ) (pc : TakePc α) : PriorityQueue ι κ α :=
  { s with pc := Function.update s.pc c pc }

@[simp] lemma goto_self (s : PriorityQueue ι κ α) (c : κ) (pc : TakePc α) : (s.goto c pc).pc c = pc :=
  Function.update_self ..

lemma goto_of_ne (s : PriorityQueue ι κ α) {c d : κ} (ne : d ≠ c) (pc : TakePc α) :
    (s.goto c pc).pc d = s.pc d :=
  Function.update_of_ne ne _ _

/-- Consumer `c` calls `priority_queue_get_tb` and loads `tb_cnt`. -/
def get (s : PriorityQueue ι κ α) (c : κ) : Option (PriorityQueue ι κ α) :=
  match s.pc c with
  | .out => some (s.goto c (if s.tbCnt ≤ 0 then .check else .enter))
  | _ => none

variable [DecidableEq α]

/-- The next load, store, lock or unlock of consumer `c`. -/
def getter (prio : α → Int) (s : PriorityQueue ι κ α) (c : κ) (tailFirst : Bool) (tb : Option α) :
    Option (PriorityQueue ι κ α) :=
  match s.pc c with
  | .out => none
  | .check => some (s.goto c (if tailFirst then .checkTail s.spsc.tail else .checkHead s.spsc.head))
  | .checkHead h => some (s.goto c (if KuplVector.isEmpty h s.spsc.tail then .out else .enter))
  | .checkTail t => some (s.goto c (if KuplVector.isEmpty s.spsc.head t then .out else .enter))
  | .enter =>
    match s.lock with
    | none => some { s.goto c .loop with lock := some c }
    | some _ => none
  | .loop =>
    some (s.goto c (if tailFirst then .loopTail s.spsc.tail s.add.log.length else .loopHead s.spsc.head))
  | .loopHead h => some (s.goto c (if KuplVector.isEmpty h s.spsc.tail then .top else .room))
  | .loopTail t _ => some (s.goto c (if KuplVector.isEmpty s.spsc.head t then .top else .room))
  | .room => some (s.goto c (if toInt32 s.heap.length ≥ s.size then .top else .front))
  | .front => some (s.goto c (.read (s.spsc.frontIdx s.spsc.head)))
  | .read idx => some (s.goto c (.push (s.spsc.data idx)))
  | .push t => some { s.goto c .pop with heap := t :: s.heap }
  | .pop => some { s.goto c .loop with spsc := s.spsc.popFront, drained := s.drained + 1 }
  | .top =>
    match s.heap, tb with
    | [], _ => some (s.goto c (.store none))
    | heap, some t =>
      if IsTop prio heap t then
        some { s.goto c (.store (some t)) with heap := heap.erase t, tops := s.tops ++ [(t, heap)] }
      else none
    | _, none => none
  | .store r => some { s.goto c (.done r) with tbCnt := toInt32 s.heap.length }
  | .done r => some { s.goto c .out with lock := none, returned := s.returned ++ r.toList }

variable [DecidableEq ι]

def step (prio : α → Int) (s : PriorityQueue ι κ α) : PriorityLabel ι κ α → Option (PriorityQueue ι κ α)
  | .add p tb => (s.add.call p tb).map fun A => { s with add := A }
  | .adder p => (s.add.step s.spsc p).map fun (A, v) => { s with add := A, spsc := v }
  | .get c => s.get c
  | .getter c tailFirst tb => s.getter prio c tailFirst tb

/-- The priority queue of any size that can be created, in the hands of any producers and consumers. -/
def machine (ι κ : Type*) [DecidableEq ι] [DecidableEq κ] [Inhabited α] (prio : α → Int) :
    Machine (PriorityQueue ι κ α) (PriorityLabel ι κ α) where
  init := Created
  step := step prio

end Step
end PriorityQueue

namespace TakePc

/-- The places before `get_lock` is taken. -/
def Outer : TakePc α → Prop
  | .out | .check | .checkHead _ | .checkTail _ | .enter => True
  | _ => False

/-- The task that was taken from the heap and is about to be returned. -/
def inHand : TakePc α → List α
  | .store r | .done r => r.toList
  | _ => []

/-- One while a task is in the heap and in the ring still. -/
def ahead : TakePc α → Nat
  | .pop => 1
  | _ => 0

/-- What the holder of `get_lock` knows. -/
def Knows (s : PriorityQueue ι κ α) : TakePc α → Prop
  | .loopHead h => h = s.spsc.head
  | .loopTail t m => t = BitVec.ofNat 64 m ∧ s.drained ≤ m ∧ m ≤ s.add.log.length
  | .room | .pop => s.drained < s.add.log.length
  | .front => s.drained < s.add.log.length ∧ (s.heap.length : Int) < s.size
  | .read idx => s.drained < s.add.log.length ∧ (s.heap.length : Int) < s.size ∧
      idx = s.drained % s.spsc.capacity.toNat
  | .push tb => (∃ lt : s.drained < s.add.log.length, tb = s.add.log[s.drained]) ∧ (s.heap.length : Int) < s.size
  | .loop | .top | .store _ => True
  | .done _ => s.tbCnt = s.heap.length
  | _ => False

end TakePc

namespace PriorityQueue

/-- The task in the hands of the holder of `get_lock`. -/
def inHand (s : PriorityQueue ι κ α) : List α := (s.lock.map fun c => (s.pc c).inHand).getD []

/-- How many tasks have been moved from the ring to the heap. -/
def moved (s : PriorityQueue ι κ α) : Nat :=
  s.drained + (s.lock.map fun c => (s.pc c).ahead).getD 0

/-- The tasks that were accepted and not moved to the heap yet. -/
def inRing (s : PriorityQueue ι κ α) : List α := s.add.log.drop s.moved

/-- The invariant of a priority queue. -/
structure Inv (prio : α → Int) (s : PriorityQueue ι κ α) : Prop where
  add : s.add.Inv s.spsc s.drained
  size : 0 ≤ s.size ∧ s.size < 2 ^ 31
  zero : s.size = 0 → s.spsc.capacity.toNat = 1
  outside : ∀ c, s.lock ≠ some c → (s.pc c).Outer
  inside : ∀ c, s.lock = some c → (s.pc c).Knows s
  balance : (s.returned ++ (s.inHand ++ s.heap)).Perm (s.add.log.take s.moved)
  full : (s.heap.length : Int) ≤ s.size
  count : s.lock = none → s.tbCnt = s.heap.length
  tops : ∀ p ∈ s.tops, IsTop prio p.2 p.1
  returns : s.tops.map Prod.fst = s.returned ++ s.inHand

variable {prio : α → Int} {s s' : PriorityQueue ι κ α}

lemma toInt32_eq {n : Nat} (lt : (n : Int) < 2 ^ 31) : toInt32 n = n := by
  unfold toInt32
  rw [Int.bmod_eq_of_le] <;> omega

lemma inv_of_created [Inhabited α] (h : s.Created) : s.Inv prio := by
  obtain ⟨lower, upper, ⟨calloc, e⟩, add, lock, pc, heap, cnt, drained, tops, returned⟩ := h
  obtain ⟨⟨k, lt, pow⟩, enough, -, -⟩ := kuplVectorCreate_capacity e
  have nonneg : 0 ≤ s.size := by
    by_contra neg
    have top : 2 ^ k ≤ 2 ^ 63 := Nat.pow_le_pow_right (by decide) (by omega)
    rw [BitVec.le_def, BitVec.toNat_ofInt, pow] at enough
    omega
  have L := kuplVectorCreate_logs e
  refine ⟨⟨by rw [add, drained]; exact L, by rw [add]; exact fun _ _ => rfl, by rw [add]; nofun⟩,
    ⟨nonneg, upper⟩, fun zero => ?_, fun c _ => ?_, fun c held => ?_, ?_, ?_, fun _ => ?_, ?_, ?_⟩
  · rw [zero] at e
    rw [kuplVectorCreate_zero e]
    rfl
  · rw [pc]
    trivial
  · rw [lock] at held
    cases held
  · simp [returned, inHand, moved, lock, heap, add, drained, Adders.start]
  · rw [heap]
    exact nonneg
  · rw [cnt, heap]
    rfl
  · rw [tops]
    nofun
  · rw [tops, returned]
    simp [inHand, lock]

/-- Where a consumer is inside, it holds the lock. -/
lemma Inv.here (I : s.Inv prio) {c : κ} {pc : TakePc α} (at_ : s.pc c = pc) (inner : ¬pc.Outer) :
    s.lock = some c ∧ pc.Knows s := by
  subst at_
  have held : s.lock = some c := by
    by_contra no
    exact inner (I.outside c no)
  exact ⟨held, I.inside c held⟩

/-- What the holder carries. -/
lemma Inv.carries (I : s.Inv prio) {c : κ} {pc : TakePc α} (held : s.lock = some c) (at_ : s.pc c = pc) :
    (s.returned ++ (pc.inHand ++ s.heap)).Perm (s.add.log.take (s.drained + pc.ahead)) ∧
      s.tops.map Prod.fst = s.returned ++ pc.inHand := by
  have hand : s.inHand = pc.inHand := by simp only [inHand, held, map_some, getD_some, at_]
  have moved : s.moved = s.drained + pc.ahead := by
    simp only [PriorityQueue.moved, held, map_some, getD_some, at_]
  rw [← hand, ← moved]
  exact ⟨I.balance, I.returns⟩

lemma Inv.not_outer (I : s.Inv prio) {c : κ} (held : s.lock = some c) : ¬(s.pc c).Outer := by
  intro out
  have k := I.inside c held
  cases e : s.pc c <;> rw [e] at out k <;> first | exact k | exact out

lemma Inv.moved_le (I : s.Inv prio) : s.moved ≤ s.add.log.length := by
  have le := I.add.logs.le
  unfold moved
  cases held : s.lock with
  | none => exact le
  | some c =>
    have k := I.inside c held
    show s.drained + (s.pc c).ahead ≤ s.add.log.length
    cases e : s.pc c <;> rw [e] at k <;> first | exact le | exact k

lemma Inv.ofMoves (I : s.Inv prio) {A' : Adders ι α} {v' : KuplVector α} (I' : A'.Inv v' s.drained)
    (M : s.add.Moves A' s.spsc v' s.drained) : Inv prio { s with add := A', spsc := v' } where
  add := I'
  size := I.size
  zero e := by
    show v'.capacity.toNat = 1
    rw [M.capacity]
    exact I.zero e
  outside := I.outside
  inside c held := by
    have k := I.inside c held
    have le : s.add.log.length ≤ A'.log.length := by
      obtain e | ⟨tb, e⟩ := M.log
      · rw [e]
      · rw [e, length_append]
        omega
    show (s.pc c).Knows { s with add := A', spsc := v' }
    cases e : s.pc c <;> rw [e] at k
    case loopHead h => exact Eq.trans k M.head.symm
    case loopTail t m => exact ⟨k.1, k.2.1, Nat.le_trans k.2.2 le⟩
    case room => exact Nat.lt_of_lt_of_le k le
    case pop => exact Nat.lt_of_lt_of_le k le
    case front => exact ⟨Nat.lt_of_lt_of_le k.1 le, k.2⟩
    case read idx =>
      refine ⟨Nat.lt_of_lt_of_le k.1 le, k.2.1, ?_⟩
      show idx = s.drained % v'.capacity.toNat
      rw [M.capacity]
      exact k.2.2
    case push tb =>
      obtain ⟨⟨lt, eq⟩, room⟩ := k
      refine ⟨⟨Nat.lt_of_lt_of_le lt le, ?_⟩, room⟩
      obtain e' | ⟨x, e'⟩ := M.log
      · simp only [e', eq]
      · simp only [e', eq, getElem_append_left lt]
    all_goals exact k
  balance := by
    show (s.returned ++ (s.inHand ++ s.heap)).Perm (A'.log.take s.moved)
    obtain e | ⟨tb, e⟩ := M.log
    · rw [e]
      exact I.balance
    · rw [e, take_append_of_le_length I.moved_le]
      exact I.balance
  full := I.full
  count := I.count
  tops := I.tops
  returns := I.returns

section Getter
variable [DecidableEq κ]

lemma Inv.gotoOuter (I : s.Inv prio) {c : κ} (out : (s.pc c).Outer) {pc : TakePc α} (out' : pc.Outer) :
    (s.goto c pc).Inv prio := by
  have others : ∀ d, s.lock = some d → (s.goto c pc).pc d = s.pc d := by
    intro d held
    apply s.goto_of_ne
    intro eq
    exact I.not_outer held (eq ▸ out)
  have hand : (s.goto c pc).inHand = s.inHand := by
    unfold inHand
    show ((s.lock.map _).getD _ : List α) = _
    cases held : s.lock with
    | none => rfl
    | some d => simp only [map_some, getD_some, others d held]
  have moved : (s.goto c pc).moved = s.moved := by
    unfold PriorityQueue.moved
    show s.drained + (s.lock.map _).getD _ = _
    cases held : s.lock with
    | none => rfl
    | some d => simp only [map_some, getD_some, others d held]
  refine ⟨I.add, I.size, I.zero, fun d ne => ?_, fun d held => ?_, ?_, I.full, I.count, I.tops, ?_⟩
  · by_cases eq : d = c
    · subst eq
      rw [goto_self]
      exact out'
    · rw [s.goto_of_ne eq]
      exact I.outside d ne
  · rw [others d held]
    exact I.inside d held
  · rw [hand, moved]
    exact I.balance
  · rw [hand]
    exact I.returns

lemma Inv.goto (I : s.Inv prio) {c : κ} (held : s.lock = some c) {old pc : TakePc α} (at_ : s.pc c = old)
    (hand : pc.inHand = old.inHand) (ahead : pc.ahead = old.ahead) (k : pc.Knows s) : (s.goto c pc).Inv prio := by
  subst at_
  have hand' : (s.goto c pc).inHand = s.inHand := by
    unfold inHand
    show ((s.lock.map _).getD _ : List α) = _
    simp only [held, map_some, getD_some, goto_self, hand]
  have moved : (s.goto c pc).moved = s.moved := by
    unfold PriorityQueue.moved
    show s.drained + (s.lock.map _).getD _ = _
    simp only [held, map_some, getD_some, goto_self, ahead]
  refine ⟨I.add, I.size, I.zero, fun d ne => ?_, fun d held' => ?_, ?_, I.full, I.count, I.tops, ?_⟩
  · have ne' : d ≠ c := fun eq => ne (eq ▸ held)
    rw [s.goto_of_ne ne']
    exact I.outside d ne
  · cases held.symm.trans held'
    rw [goto_self]
    exact k
  · rw [hand', moved]
    exact I.balance
  · rw [hand']
    exact I.returns

lemma Inv.ofHolder (I : s.Inv prio) {c : κ} (held : s.lock = some c) (pc : TakePc α)
    (others : s'.pc = Function.update s.pc c pc) (held' : s'.lock = some c)
    (base : s'.add.Inv s'.spsc s'.drained ∧ (0 ≤ s'.size ∧ s'.size < 2 ^ 31) ∧
      (s'.size = 0 → s'.spsc.capacity.toNat = 1))
    (k : pc.Knows s')
    (balance : (s'.returned ++ (pc.inHand ++ s'.heap)).Perm (s'.add.log.take (s'.drained + pc.ahead)))
    (full : (s'.heap.length : Int) ≤ s'.size) (tops : ∀ p ∈ s'.tops, IsTop prio p.2 p.1)
    (returns : s'.tops.map Prod.fst = s'.returned ++ pc.inHand) : s'.Inv prio := by
  have mine : s'.pc c = pc := by rw [others, Function.update_self]
  have hand : s'.inHand = pc.inHand := by simp only [inHand, held', map_some, getD_some, mine]
  have moved : s'.moved = s'.drained + pc.ahead := by
    simp only [PriorityQueue.moved, held', map_some, getD_some, mine]
  refine ⟨base.1, base.2.1, base.2.2, fun d ne => ?_, fun d e => ?_, ?_, full, fun e => ?_, tops, ?_⟩
  · have ne' : d ≠ c := fun eq => ne (eq ▸ held')
    rw [others, Function.update_of_ne ne']
    exact I.outside d fun e => ne' (Option.some.inj (e.symm.trans held))
  · cases held'.symm.trans e
    rw [mine]
    exact k
  · rw [hand, moved]
    exact balance
  · cases held'.symm.trans e
  · rw [hand]
    exact returns

variable [DecidableEq α]

lemma Inv.getter (I : s.Inv prio) {c : κ} {tailFirst : Bool} {tb : Option α}
    (e : s.getter prio c tailFirst tb = some s') : s'.Inv prio := by
  have le := I.add.logs.le
  have empty := I.add.logs.isEmpty_iff le (Nat.le_refl _)
  rw [← I.add.logs.tail] at empty
  unfold PriorityQueue.getter at e
  cases pc : s.pc c with
  | out =>
    simp only [pc] at e
    cases e
  | check | checkHead h | checkTail t =>
    simp only [pc] at e
    cases e
    apply I.gotoOuter (by rw [pc]; trivial)
    split <;> trivial
  | enter =>
    simp only [pc] at e
    split at e
    · rename_i free
      cases e
      have hand : s.inHand = [] := by simp [inHand, free]
      have moved : s.moved = s.drained := by simp [PriorityQueue.moved, free]
      refine ⟨I.add, I.size, I.zero, fun d ne => ?_, fun d held => ?_, ?_, I.full, nofun, I.tops, ?_⟩
      · have ne' : d ≠ c := fun eq => ne (eq ▸ rfl)
        show ((s.goto c .loop).pc d).Outer
        rw [s.goto_of_ne ne']
        exact I.outside d (by rw [free]; nofun)
      · cases held
        show ((s.goto c .loop).pc c).Knows _
        rw [goto_self]
        trivial
      · have b := I.balance
        rw [hand, moved] at b
        simpa [inHand, PriorityQueue.moved, PriorityQueue.goto, TakePc.inHand, TakePc.ahead] using b
      · have r := I.returns
        rw [hand] at r
        simpa [inHand, PriorityQueue.goto, TakePc.inHand] using r
    · cases e
  | loop =>
    obtain ⟨held, -⟩ := I.here pc id
    simp only [pc] at e
    cases e
    cases tailFirst with
    | false => exact I.goto held pc rfl rfl rfl
    | true =>
      exact I.goto held pc rfl rfl ⟨I.add.logs.tail, le, Nat.le_refl _⟩
  | loopHead h =>
    obtain ⟨held, k⟩ := I.here pc id
    obtain rfl : h = s.spsc.head := k
    simp only [pc] at e
    cases e
    by_cases none : KuplVector.isEmpty s.spsc.head s.spsc.tail = true
    · rw [if_pos none]
      exact I.goto held pc rfl rfl trivial
    · rw [if_neg none]
      have ne : s.drained ≠ s.add.log.length := fun eq => none (empty.2 eq)
      exact I.goto held pc rfl rfl (Nat.lt_of_le_of_ne le ne)
  | loopTail t m =>
    obtain ⟨held, rfl, le', le''⟩ := I.here pc id
    simp only [pc] at e
    cases e
    by_cases none : KuplVector.isEmpty s.spsc.head (BitVec.ofNat 64 m) = true
    · rw [if_pos none]
      exact I.goto held pc rfl rfl trivial
    · rw [if_neg none]
      have ne : s.drained ≠ m := fun eq => none ((I.add.logs.isEmpty_iff le' le'').2 eq)
      exact I.goto held pc rfl rfl
        (Nat.lt_of_lt_of_le (Nat.lt_of_le_of_ne le' ne) le'')
  | room =>
    obtain ⟨held, k⟩ := I.here pc id
    simp only [pc] at e
    cases e
    have small := toInt32_eq (Int.lt_of_le_of_lt I.full I.size.2)
    by_cases full : toInt32 s.heap.length ≥ s.size
    · rw [if_pos full]
      exact I.goto held pc rfl rfl trivial
    · rw [if_neg full]
      rw [small] at full
      exact I.goto held pc rfl rfl ⟨k, Int.not_le.1 full⟩
  | front =>
    obtain ⟨held, k⟩ := I.here pc id
    simp only [pc] at e
    cases e
    refine I.goto held pc rfl rfl ⟨k.1, k.2, ?_⟩
    rw [I.add.logs.head, I.add.logs.frontIdx_eq]
  | read idx =>
    obtain ⟨held, lt, room, rfl⟩ := I.here pc id
    simp only [pc] at e
    cases e
    exact I.goto held pc rfl rfl
      ⟨⟨lt, I.add.logs.slot _ (Nat.le_refl _) lt⟩, room⟩
  | push t =>
    obtain ⟨held, ⟨lt, rfl⟩, room⟩ := I.here pc id
    simp only [pc] at e
    cases e
    obtain ⟨b, r⟩ := I.carries held pc
    refine I.ofHolder held .pop rfl held ⟨I.add, I.size, I.zero⟩ lt ?_ ?_ I.tops r
    · show (s.returned ++ s.add.log[s.drained] :: s.heap).Perm (s.add.log.take (s.drained + 1))
      rw [← take_append_getElem lt]
      exact perm_middle.trans ((b.cons _).trans (perm_append_singleton _ _).symm)
    · show ((s.add.log[s.drained] :: s.heap).length : Int) ≤ s.size
      rw [length_cons]
      omega
  | pop =>
    obtain ⟨held, k⟩ := I.here pc id
    simp only [pc] at e
    cases e
    obtain ⟨b, r⟩ := I.carries held pc
    exact I.ofHolder held .loop rfl held ⟨I.add.popFront k, I.size, I.zero⟩ trivial b I.full I.tops r
  | top =>
    obtain ⟨held, -⟩ := I.here pc id
    obtain ⟨b, r⟩ := I.carries held pc
    simp only [pc] at e
    split at e
    · cases e
      exact I.goto held pc rfl rfl trivial
    · rename_i t ne
      split at e
      · rename_i top
        cases e
        refine I.ofHolder held (.store (some t)) rfl held ⟨I.add, I.size, I.zero⟩ trivial ?_ ?_ ?_ ?_
        · show (s.returned ++ t :: s.heap.erase t).Perm (s.add.log.take s.drained)
          exact ((perm_cons_erase top.1).symm.append_left _).trans b
        · have := length_erase_le (a := t) (l := s.heap)
          have := I.full
          show ((s.heap.erase t).length : Int) ≤ s.size
          omega
        · intro p mem
          obtain mem | mem := mem_append.1 mem
          · exact I.tops p mem
          · rw [mem_singleton.1 mem]
            exact top
        · show (s.tops ++ [(t, s.heap)]).map Prod.fst = s.returned ++ [t]
          rw [map_append, r, append_assoc]
          rfl
      · cases e
    · cases e
  | store r =>
    obtain ⟨held, -⟩ := I.here pc id
    obtain ⟨b, ret⟩ := I.carries held pc
    simp only [pc] at e
    cases e
    refine I.ofHolder held (.done r) rfl held ⟨I.add, I.size, I.zero⟩ ?_ b I.full I.tops ret
    have small := Int.lt_of_le_of_lt I.full I.size.2
    simp only [TakePc.Knows, PriorityQueue.goto]
    exact toInt32_eq small
  | done r =>
    obtain ⟨held, k⟩ := I.here pc id
    obtain ⟨b, ret⟩ := I.carries held pc
    simp only [pc] at e
    cases e
    refine ⟨I.add, I.size, I.zero, fun d _ => ?_, nofun, ?_, I.full, fun _ => k, I.tops, ?_⟩
    · by_cases eq : d = c
      · subst eq
        show ((s.goto d .out).pc d).Outer
        rw [goto_self]
        trivial
      · show ((s.goto c .out).pc d).Outer
        rw [s.goto_of_ne eq]
        exact I.outside d fun e => eq (Option.some.inj (e.symm.trans held))
    · show (s.returned ++ r.toList ++ s.heap).Perm (s.add.log.take s.drained)
      rw [append_assoc]
      exact b
    · show s.tops.map Prod.fst = s.returned ++ r.toList ++ []
      rw [append_nil]
      exact ret

end Getter

section Run
variable [DecidableEq ι] [DecidableEq κ] [DecidableEq α]

lemma Inv.step (I : s.Inv prio) {l : PriorityLabel ι κ α} (st : s.step prio l = some s') : s'.Inv prio := by
  cases l with
  | add p tb =>
    obtain ⟨A, e, rfl⟩ := map_eq_some_iff.1 st
    obtain ⟨I', log, -⟩ := I.add.call e
    exact I.ofMoves I' (.same log)
  | adder p =>
    obtain ⟨⟨A, v⟩, e, rfl⟩ := map_eq_some_iff.1 st
    obtain ⟨I', M, -⟩ := I.add.step e
    exact I.ofMoves I' M
  | get c =>
    have e : s.get c = some s' := st
    unfold PriorityQueue.get at e
    split at e
    · rename_i out
      cases e
      apply I.gotoOuter (by rw [out]; trivial)
      split <;> trivial
    · cases e
  | getter c tailFirst tb => exact I.getter st

lemma inv_of_reachable [Inhabited α] (h : (machine ι κ prio).Reachable s) : s.Inv prio :=
  h.inv (fun _ => inv_of_created) fun _ _ _ I _ e => I.step e

end Run

/-- What a priority queue keeps: every task that was accepted was returned, or is in the hands of the
consumer that is about to return it, in the heap or in the ring, and in one of these only, once; each task
that was taken from the heap was a top of what was in it; and the heap is within its size. -/
structure Keeps (prio : α → Int) (s : PriorityQueue ι κ α) : Prop where
  once : s.add.log.Perm (s.returned ++ (s.inHand ++ (s.heap ++ s.inRing)))
  taken : s.tops.map Prod.fst = s.returned ++ s.inHand
  maximal : ∀ p ∈ s.tops, p.1 ∈ p.2 ∧ ∀ x ∈ p.2, prio x ≤ prio p.1
  full : (s.heap.length : Int) ≤ s.size

lemma Inv.keeps (I : s.Inv prio) : s.Keeps prio where
  once := by
    have b := I.balance.symm.append_right s.inRing
    rw [inRing, take_append_drop, ← inRing] at b
    simpa only [append_assoc] using b
  taken := I.returns
  maximal p mem := ⟨(I.tops p mem).1, fun x hx => Int.not_lt.1 ((I.tops p mem).2 x hx)⟩
  full := I.full

end PriorityQueue
end Kupl.Ring
