import Kupl.Ring.Priority

/-!
# A get without other calls

A consumer of a priority queue that runs while no other call is in progress: where the ring or the heap
holds a task, it returns one after a number of steps that has a bound. `TakePc.rank` goes down with each
step; `TakePc.Stocked` says for each place why the consumer will not return without a task.
-/

namespace Kupl.Ring
open List

variable {ι κ α : Type*}

namespace TakePc

/-- Why a consumer that runs alone will return a task. -/
def Stocked (s : PriorityQueue ι κ α) : TakePc α → Prop
  | .out => False
  | .check => s.lock = none ∧ s.drained < s.add.log.length
  | .checkHead h => s.lock = none ∧ h = s.spsc.head ∧ s.drained < s.add.log.length
  | .checkTail t => s.lock = none ∧ t = s.spsc.tail ∧ s.drained < s.add.log.length
  | .enter => s.lock = none ∧ (s.drained < s.add.log.length ∨ s.heap ≠ [])
  | .loop | .loopHead _ => s.drained < s.add.log.length ∨ s.heap ≠ []
  | .loopTail _ m => m = s.add.log.length ∧ (s.drained < s.add.log.length ∨ s.heap ≠ [])
  | .room | .front | .read _ | .push _ => True
  | .pop | .top => s.heap ≠ []
  | .store r | .done r => r.isSome

/-- A bound on the steps that are left, with `left` tasks in the ring. -/
def rank (left : Nat) : TakePc α → Nat
  | .out => 0
  | .check => 8 * left + 13
  | .checkHead _ | .checkTail _ => 8 * left + 12
  | .enter => 8 * left + 11
  | .loop => 8 * left + 10
  | .loopHead _ | .loopTail _ _ => 8 * left + 9
  | .room => 8 * left + 8
  | .front => 8 * left + 7
  | .read _ => 8 * left + 6
  | .push _ => 8 * left + 5
  | .pop => 8 * left + 4
  | .top => 3
  | .store _ => 2
  | .done _ => 1

end TakePc

namespace PriorityQueue
variable {prio : α → Int} {s s' : PriorityQueue ι κ α} {c : κ}

lemma exists_top (prio : α → Int) {heap : List α} (ne : heap ≠ []) : ∃ t, IsTop prio heap t := by
  induction heap with
  | nil => exact absurd rfl ne
  | cons a heap ih =>
    by_cases one : heap = []
    · rw [one]
      exact ⟨a, mem_singleton_self a, fun x mem => by
        rw [mem_singleton.1 mem]
        exact Int.lt_irrefl _⟩
    · obtain ⟨t, mem, max⟩ := ih one
      by_cases more : priorityCmp prio t a
      · refine ⟨a, mem_cons_self, fun x mem => ?_⟩
        obtain rfl | mem := mem_cons.1 mem
        · exact Int.lt_irrefl _
        · exact fun lt => max x mem (Int.lt_trans more lt)
      · refine ⟨t, mem_cons_of_mem a mem, fun x mem => ?_⟩
        obtain rfl | mem := mem_cons.1 mem
        · exact more
        · exact max x mem

/-- No call is in progress. -/
def Idle (s : PriorityQueue ι κ α) : Prop := (∀ p, s.add.pc p = .out) ∧ ∀ c, s.pc c = .out

def HasTask (s : PriorityQueue ι κ α) : Prop := s.inRing ≠ [] ∨ s.heap ≠ []

section Alone
variable [DecidableEq κ] [DecidableEq α]

/-- Consumer `c` runs alone, its open choices given one after the other. -/
def alone (prio : α → Int) (c : κ) : PriorityQueue ι κ α → List (Bool × Option α) →
    Option (PriorityQueue ι κ α)
  | s, [] => some s
  | s, (tailFirst, tb) :: w =>
    match s.getter prio c tailFirst tb with
    | none => none
    | some s' => alone prio c s' w

/-- A get by consumer `c` from here, without steps of others, returns a task: it can always go on until
it has returned one, and there is a bound on its steps. -/
def GetReturns (prio : α → Int) (s : PriorityQueue ι κ α) (c : κ) : Prop :=
  ∃ s₀ N, s.get c = some s₀ ∧ ∀ w s', alone prio c s₀ w = some s' →
    w.length ≤ N ∧ ((s'.pc c = .out ∧ ∃ tb, s'.returned = s.returned ++ [tb]) ∨
      (s'.pc c ≠ .out ∧ ∃ tailFirst tb, (s'.getter prio c tailFirst tb).isSome))

lemma exists_step (st : (s.pc c).Stocked s) : ∃ tailFirst tb, (s.getter prio c tailFirst tb).isSome := by
  cases pc : s.pc c with
  | out =>
    rw [pc] at st
    exact st.elim
  | enter =>
    rw [pc] at st
    exact ⟨false, none, by simp only [getter, pc, st.1]; rfl⟩
  | top =>
    rw [pc] at st
    obtain ⟨t, top⟩ := exists_top prio st
    refine ⟨false, some t, ?_⟩
    cases eh : s.heap with
    | nil => exact absurd eh st
    | cons a heap =>
      rw [eh] at top
      simp only [getter, pc, eh, if_pos top]
      rfl
  | _ => exact ⟨false, none, by simp only [getter, pc]; rfl⟩

/-- What a step of a consumer alone leaves: it has returned a task, or it will and is nearer to it. -/
def Nearer (s s' : PriorityQueue ι κ α) (c : κ) : Prop :=
  (s'.pc c).rank (s'.add.log.length - s'.drained) < (s.pc c).rank (s.add.log.length - s.drained) ∧
  ((s'.pc c = .out ∧ ∃ tb, s'.returned = s.returned ++ [tb]) ∨
    ((s'.pc c).Stocked s' ∧ s'.returned = s.returned))

omit [DecidableEq κ] [DecidableEq α] in
lemma nearer_of {old pc : TakePc α} (before : s.pc c = old) (after : s'.pc c = pc)
    (lt : pc.rank (s'.add.log.length - s'.drained) < old.rank (s.add.log.length - s.drained))
    (st : pc.Stocked s') (same : s'.returned = s.returned) : s.Nearer s' c := by
  subst before after
  exact ⟨lt, .inr ⟨st, same⟩⟩

omit [DecidableEq α] in
lemma nearer_goto {old pc : TakePc α} (before : s.pc c = old)
    (lt : pc.rank (s.add.log.length - s.drained) < old.rank (s.add.log.length - s.drained))
    (st : pc.Stocked s) : s.Nearer (s.goto c pc) c := nearer_of before (s.goto_self c pc) lt st rfl

lemma Inv.nearer (I : s.Inv prio) (st : (s.pc c).Stocked s) {tailFirst : Bool} {tb : Option α}
    (e : s.getter prio c tailFirst tb = some s') : s.Nearer s' c := by
  have le := I.add.logs.le
  have empty := I.add.logs.isEmpty_iff le (Nat.le_refl _)
  rw [← I.add.logs.tail] at empty
  unfold PriorityQueue.getter at e
  cases pc : s.pc c with
  | out =>
    rw [pc] at st
    exact st.elim
  | check =>
    rw [pc] at st
    simp only [pc] at e
    cases e
    cases tailFirst with
    | false | true => exact nearer_goto pc (Nat.lt_succ_self _) ⟨st.1, rfl, st.2⟩
  | checkHead h | checkTail t =>
    rw [pc] at st
    obtain ⟨free, rfl, lt⟩ := st
    simp only [pc] at e
    cases e
    rw [if_neg fun none => Nat.ne_of_lt lt (empty.1 none)]
    exact nearer_goto pc (Nat.lt_succ_self _) ⟨free, .inl lt⟩
  | enter =>
    rw [pc] at st
    simp only [pc, st.1] at e
    cases e
    exact nearer_of pc (s.goto_self c .loop) (Nat.lt_succ_self _) st.2 rfl
  | loop =>
    rw [pc] at st
    simp only [pc] at e
    cases e
    cases tailFirst with
    | false => exact nearer_goto pc (Nat.lt_succ_self _) st
    | true => exact nearer_goto pc (Nat.lt_succ_self _) ⟨rfl, st⟩
  | loopHead h =>
    obtain rfl : h = s.spsc.head := (I.here pc id).2
    rw [pc] at st
    simp only [pc] at e
    cases e
    by_cases none : KuplVector.isEmpty s.spsc.head s.spsc.tail = true
    · rw [if_pos none]
      have all := empty.1 none
      refine nearer_goto pc (by simp only [TakePc.rank]; omega) (st.resolve_left ?_)
      omega
    · rw [if_neg none]
      exact nearer_goto pc (Nat.lt_succ_self _) trivial
  | loopTail t m =>
    obtain ⟨-, rfl, -⟩ := I.here pc id
    rw [pc] at st
    obtain ⟨rfl, some⟩ := st
    simp only [pc] at e
    cases e
    rw [← I.add.logs.tail]
    by_cases none : KuplVector.isEmpty s.spsc.head s.spsc.tail = true
    · rw [if_pos none]
      have all := empty.1 none
      refine nearer_goto pc (by simp only [TakePc.rank]; omega) (some.resolve_left ?_)
      omega
    · rw [if_neg none]
      exact nearer_goto pc (Nat.lt_succ_self _) trivial
  | room =>
    have k : s.drained < s.add.log.length := (I.here pc id).2
    simp only [pc] at e
    cases e
    rw [toInt32_eq (Int.lt_of_le_of_lt I.full I.size.2)]
    by_cases full : (s.heap.length : Int) ≥ s.size
    · rw [if_pos full]
      refine nearer_goto pc (by simp only [TakePc.rank]; omega) fun empty => ?_
      -- a ring that can hold a task goes with a heap that can
      have zero : s.size = 0 := by
        have := I.size.1
        rw [empty, length_nil] at full
        omega
      have room := I.add.logs.room
      rw [I.zero zero] at room
      omega
    · rw [if_neg full]
      exact nearer_goto pc (Nat.lt_succ_self _) trivial
  | front | read idx =>
    simp only [pc] at e
    cases e
    exact nearer_goto pc (Nat.lt_succ_self _) trivial
  | push t =>
    simp only [pc] at e
    cases e
    exact nearer_of pc (s.goto_self c .pop) (Nat.lt_succ_self _) (cons_ne_nil t s.heap) rfl
  | pop =>
    have k : s.drained < s.add.log.length := (I.here pc id).2
    rw [pc] at st
    simp only [pc] at e
    cases e
    refine nearer_of pc (s.goto_self c .loop) ?_ (.inr st) rfl
    show TakePc.loop.rank (s.add.log.length - (s.drained + 1)) < _
    simp only [TakePc.rank]
    omega
  | top =>
    rw [pc] at st
    simp only [pc] at e
    split at e
    · rename_i empty
      exact absurd empty st
    · rename_i t ne
      split at e
      · cases e
        exact nearer_of pc (s.goto_self c (.store (some t))) (Nat.lt_succ_self _) rfl rfl
      · cases e
    · cases e
  | store r =>
    rw [pc] at st
    simp only [pc] at e
    cases e
    exact nearer_of pc (s.goto_self c (.done r)) (Nat.lt_succ_self _) st rfl
  | done r =>
    rw [pc] at st
    simp only [pc] at e
    cases e
    refine ⟨?_, .inl ⟨s.goto_self c .out, ?_⟩⟩
    · show ((s.goto c .out).pc c).rank (s.add.log.length - s.drained) < _
      rw [goto_self, pc]
      exact Nat.lt_succ_self _
    · obtain ⟨t, rfl⟩ := Option.isSome_iff_exists.1 st
      exact ⟨t, rfl⟩

lemma Inv.alone_returns (I : s.Inv prio) (st : (s.pc c).Stocked s) {w : List (Bool × Option α)}
    (e : alone prio c s w = some s') : w.length ≤ (s.pc c).rank (s.add.log.length - s.drained) ∧
      ((s'.pc c = .out ∧ ∃ tb, s'.returned = s.returned ++ [tb]) ∨
        (s'.pc c ≠ .out ∧ ∃ tailFirst tb, (s'.getter prio c tailFirst tb).isSome)) := by
  induction w generalizing s with
  | nil =>
    cases e
    refine ⟨Nat.zero_le _, .inr ⟨fun out => ?_, exists_step st⟩⟩
    rw [out] at st
    exact st
  | cons l w ih =>
    obtain ⟨tailFirst, tb⟩ := l
    unfold alone at e
    split at e
    · cases e
    · rename_i s₁ e₁
      obtain ⟨lt, ⟨out, tb', ret⟩ | ⟨st₁, ret⟩⟩ := I.nearer st e₁
      · -- the consumer is outside and takes no further step
        cases w with
        | nil =>
          cases e
          exact ⟨Nat.lt_of_le_of_lt (Nat.zero_le _) lt, .inl ⟨out, tb', ret⟩⟩
        | cons l w =>
          have stuck : s₁.getter prio c l.1 l.2 = none := by
            unfold PriorityQueue.getter
            rw [out]
          simp only [alone, stuck] at e
          cases e
      · obtain ⟨len, res⟩ := ih (I.getter e₁) st₁ e
        rw [ret] at res
        exact ⟨Nat.lt_of_le_of_lt len lt, res⟩

lemma Inv.getReturns (I : s.Inv prio) (idle : s.Idle) (task : s.HasTask) (c : κ) : s.GetReturns prio c := by
  have out := idle.2 c
  have free : s.lock = none := by
    cases held : s.lock with
    | none => rfl
    | some d =>
      have := I.not_outer held
      rw [idle.2 d] at this
      exact absurd trivial this
  have moved : s.moved = s.drained := by simp [PriorityQueue.moved, free]
  have stock : s.drained < s.add.log.length ∨ s.heap ≠ [] := by
    apply task.imp_left
    intro ne
    rw [inRing, moved] at ne
    by_contra no
    exact ne (drop_eq_nil_of_le (by omega))
  have count := I.count free
  by_cases none : s.tbCnt ≤ 0
  · have empty : s.heap = [] := eq_nil_of_length_eq_zero (by omega)
    have lt := stock.resolve_right fun ne => ne empty
    have st : ((s.goto c .check).pc c).Stocked (s.goto c .check) := by
      rw [goto_self]
      exact ⟨free, lt⟩
    have I' : (s.goto c .check).Inv prio := I.gotoOuter (by rw [out]; trivial) trivial
    exact ⟨s.goto c .check, ((s.goto c .check).pc c).rank (s.add.log.length - s.drained),
      by simp only [get, out, if_pos none], fun w s' e => I'.alone_returns st e⟩
  · have st : ((s.goto c .enter).pc c).Stocked (s.goto c .enter) := by
      rw [goto_self]
      exact ⟨free, stock⟩
    have I' : (s.goto c .enter).Inv prio := I.gotoOuter (by rw [out]; trivial) trivial
    exact ⟨s.goto c .enter, ((s.goto c .enter).pc c).rank (s.add.log.length - s.drained),
      by simp only [get, out, if_neg none], fun w s' e => I'.alone_returns st e⟩

end Alone

/-- In every run of adds and gets, step by step in any order: every task that was accepted is in exactly
one place or was returned, once; each one taken was a top of the heap at that get; the heap is within its
size; and a get that runs while no other call is in progress returns a task, where the ring or the heap
holds one. -/
theorem priority_queue_serves [DecidableEq ι] [DecidableEq κ] [DecidableEq α] [Inhabited α]
    (h : (machine ι κ prio).Reachable s) : s.Keeps prio ∧
    (s.Idle → s.HasTask → ∀ c, s.GetReturns prio c) := by
  have I := inv_of_reachable h
  exact ⟨I.keeps, fun idle task c => I.getReturns idle task c⟩

/-- Of two tasks in the heap the more urgent one was returned, and a third one was pushed since. -/
theorem priority_queue_serves_three : ∃ s : PriorityQueue Bool Bool Nat,
    (machine Bool Bool Int.ofNat).Reachable s ∧ s.add.log = [2, 5, 3] ∧ s.returned = [5] ∧
      s.heap = [2] ∧ s.Keeps Int.ofNat ∧ s.GetReturns Int.ofNat true := by
  obtain ⟨s, h, hs⟩ := Machine.reach_of_run (M := machine Bool Bool Int.ofNat) (g := fun _ _ => True)
    (s := ⟨4, ⟨0, 0, 4, 8, fun _ => 0⟩, .start, none, fun _ => .out, [], 0, 0, [], []⟩)
    (w := .add true 2 :: List.replicate 5 (.adder true) ++ .add false 5 :: List.replicate 5 (.adder false) ++
      .get true :: List.replicate 19 (.getter true false none) ++
      [.getter true false (some 5), .getter true false none, .getter true false none, .add true 3] ++
      List.replicate 5 (.adder true))
    (P := fun s => decide (s.add.log = [2, 5, 3] ∧ s.returned = [5] ∧ s.heap = [2] ∧
      (∀ p, s.add.pc p = .out) ∧ ∀ c, s.pc c = .out))
    ⟨by decide, by decide, ⟨true, rfl⟩, rfl, rfl, rfl, rfl, rfl, rfl, rfl, rfl⟩ (by decide)
  obtain ⟨log, returned, heap, idle⟩ := of_decide_eq_true hs
  obtain ⟨keeps, returns⟩ := priority_queue_serves h
  exact ⟨s, h, log, returned, heap, keeps, returns idle (.inr (by rw [heap]; nofun)) true⟩

end PriorityQueue
end Kupl.Ring
