import Kupl.Egroup.Info
import Kupl.Machine.Run
import Kupl.Word.Checked
import Mathlib.Order.Interval.Finset.Nat

/-!
# The groups of the queues (`mt/kupl_queue.cpp`)

| source | here |
|---|---|
| `g_kernel_concurrency`, `g_kernel_concurrency_local`, `g_egroup_table` | `State.concurrency`, `locals`, `table` |
| `kupl_set_kernel_concurrency`, `kupl_set_kernel_concurrency_local` | `checkedConcurrency` and the labels |
| `kupl_executor_init` (`KUPL_KERNEL_CONCURRENCY`) | `State.start` |
| `kupl_get_kernel_concurrency_inner` | `State.kernelConcurrency` |
| `encode_egroup_key` | `encodeEgroupKey` |
| `kupl_queue_acquire_egroup` | `acquireStart`, `State.acquireEgroup` |

Threads set the concurrency and ask for the groups of queues in any order; a queue is its index. A group is known by
its place among those made. An index below which there is no `int` has no start.
-/

namespace Kupl.Group.Acquire
open List
open Function (update update_of_ne update_self)

/-- (C++ `encode_egroup_key`). -/
def encodeEgroupKey (eid nth : Int) : Nat :=
  (eid % 4294967296).toNat * 4294967296 + (nth % 4294967296).toNat

/-- What a setter writes, with `n` executors. -/
def checkedConcurrency (n : Nat) (num : Int) : Int := if num < 1 ∨ num > n then n else num

/-- A call of C++ `kupl_queue_acquire_egroup` and what it returned. -/
structure Call where
  index : Int
  nth : Int
  result : Option Nat

structure State where
  concurrency : Int
  locals : Nat → Int
  table : Nat → Option Nat
  groups : List Egroup
  calls : List Call

/-- The state that `kupl_executor_init` leaves where `KUPL_KERNEL_CONCURRENCY` is `config`, which may be more than the
executors. -/
def State.start (config : Int) : State :=
  ⟨if config ≠ 0 then config else -1, fun _ => -1, fun _ => none, [], []⟩

/-- (C++ `kupl_get_kernel_concurrency_inner`). -/
def State.kernelConcurrency (n : Nat) (s : State) (thread : Nat) : Int :=
  if s.locals thread ≠ -1 then s.locals thread
  else if s.concurrency ≠ -1 then s.concurrency
  else n

/-- The variable `groups`. -/
def groupCount (n : Nat) (nth : Int) : Int := (n : Int).tdiv nth

/-- The variable `eid`. -/
def acquireStart (n : Nat) (nth index : Int) : Option Int :=
  if nth ≤ 0 ∨ groupCount n nth ≤ 0 then none
  else (Word.sub 32 index 1).map fun i => i.tmod (groupCount n nth) * nth

/-- (C++ `kupl_queue_acquire_egroup`). -/
def State.acquireEgroup (n : Nat) (s : State) (nth index : Int) : State :=
  let returns (s : State) (result : Option Nat) : State := { s with calls := s.calls ++ [⟨index, nth, result⟩] }
  match acquireStart n nth index with
  | none => returns s none
  | some eid =>
    match s.table (encodeEgroupKey eid nth) with
    | some h => returns s (some h)
    | none =>
      match egroupCreate n ((List.range nth.toNat).map fun i : Nat => (i : Int) + eid) with
      | none => returns s none
      | some g => returns { s with
          groups := s.groups ++ [g]
          table := update s.table (encodeEgroupKey eid nth) (some s.groups.length) } (some s.groups.length)

inductive Act where
  | set (num : Int)
  | setLocal (thread : Nat) (num : Int)
  | acquire (thread : Nat) (index : Int)

/-- Every index but `KUPL_ASYNC_SYNC`. -/
def step (n : Nat) (s : State) : Act → Option State
  | .set num => some { s with concurrency := checkedConcurrency n num }
  | .setLocal thread num => some { s with locals := update s.locals thread (checkedConcurrency n num) }
  | .acquire thread index =>
    if Word.Fits 32 index ∧ index ≠ -1 then some (s.acquireEgroup n (s.kernelConcurrency n thread) index) else none

def machine (n : Nat) : Machine State Act where
  init s := ∃ config, 0 ≤ config ∧ config ≤ 1024 ∧ s = .start config
  step := step n

/-- A group of consecutive executors. -/
def Spans (s : State) (h : Nat) (eid nth : Nat) : Prop :=
  ∃ g, s.groups[h]? = some g ∧ g.cur.size = nth ∧ g.cur.eidSet = Finset.Ico eid (eid + nth)

/-- Every call returned a group of its concurrency within the executors; calls that got the same group asked for the
same one, and so did those for the same index but for a multiple of the number of groups. -/
structure Right (n : Nat) (s : State) : Prop where
  group : ∀ c ∈ s.calls, ∃ h eid nth, c.result = some h ∧ c.nth = (nth : Nat) ∧ eid + nth ≤ n ∧
    Spans s h eid nth
  apart : ∀ c ∈ s.calls, ∀ c' ∈ s.calls, c.result = c'.result →
    c.nth = c'.nth ∧ acquireStart n c.nth c.index = acquireStart n c'.nth c'.index
  shared : ∀ c ∈ s.calls, ∀ c' ∈ s.calls, c.nth = c'.nth →
    c.index % groupCount n c.nth = c'.index % groupCount n c.nth → c.result = c'.result

/-- The concurrency is that of some executors, and the index is positive or leads to the first group. -/
def Allowed (n : Nat) (s : State) : Act → Prop
  | .acquire thread index => s.kernelConcurrency n thread ≤ n ∧
    (1 ≤ index ∨ index ≠ -2 ^ 31 ∧ groupCount n (s.kernelConcurrency n thread) ∣ index - 1)
  | _ => True

instance (n : Nat) (s : State) : ∀ act, Decidable (Allowed n s act)
  | .acquire _ _ => inferInstanceAs (Decidable (_ ∧ (_ ∨ _)))
  | .set _ | .setLocal _ _ => .isTrue trivial

/-- A call that returned the group of its start, which stands in the table. -/
structure Answer (n : Nat) (s : State) (c : Call) (h eid nth : Nat) : Prop where
  result : c.result = some h
  isNth : c.nth = nth
  start : acquireStart n c.nth c.index = some (eid : Int)
  isEid : eid = (c.index - 1) % groupCount n nth * nth
  pos : 1 ≤ nth
  room : eid + nth ≤ n
  table : s.table (encodeEgroupKey eid nth) = some h
  spans : Spans s h eid nth

/-- What stands in the table, and what was returned. -/
structure Inv (n : Nat) (s : State) : Prop where
  concurrency : s.concurrency = -1 ∨ 1 ≤ s.concurrency
  locals : ∀ t, s.locals t = -1 ∨ 1 ≤ s.locals t
  table : ∀ key h, s.table key = some h → ∃ eid nth : Nat, key = encodeEgroupKey eid nth ∧ eid + nth ≤ n ∧
    Spans s h eid nth
  calls : ∀ c ∈ s.calls, ∃ h eid nth, Answer n s c h eid nth

section Start
variable {n nth i k a : Nat} {index : Int} {info : EgroupInfo} {s s' : State} {h : Nat} {act : Act}

/-- A key belongs to one start and one concurrency. -/
lemma encodeEgroupKey_inj {eid eid' nth nth' : Nat} (le : eid + nth ≤ 1024) (le' : eid' + nth' ≤ 1024)
    (same : encodeEgroupKey eid nth = encodeEgroupKey eid' nth') : eid = eid' ∧ nth = nth' := by
  have word {n : Nat} (le : n ≤ 1024) : ((n : Int) % 4294967296).toNat = n := by
    rw [Int.emod_eq_of_lt (by omega) (by omega), Int.toNat_natCast]
  rw [encodeEgroupKey, encodeEgroupKey, word (by omega), word (by omega), word (by omega), word (by omega)] at same
  omega

/-- Consecutive executors that are new are added one by one. -/
lemma createLoop_range (fresh : ∀ e, a ≤ e → info.eid2lid e = none) (le : a + k ≤ n) :
    ∃ g, createLoop n i info ((List.range' a k).map fun e : Nat => (e : Int)) = some g ∧ g.size = info.size + k ∧
      g.eidSet = info.eidSet ∪ Finset.Ico a (a + k) := by
  induction k generalizing a i info with
  | zero => exact ⟨info, rfl, rfl, by simp⟩
  | succ k ih =>
    rw [List.range'_succ, map_cons, createLoop, if_neg (by omega), Int.toNat_natCast, if_pos (fresh a le_rfl)]
    obtain ⟨g, made, size, set⟩ := @ih (i + 1) (a + 1)
      { size := info.size + 1
        minEid := if a < info.minEid then a else info.minEid
        maxEid := if a > info.maxEid then a else info.maxEid
        eidSet := insert a info.eidSet
        eid2lid := update info.eid2lid a (some i) } (fun e he => by
          dsimp only
          rw [update_of_ne (by omega)]
          exact fresh e (by omega)) (by omega)
    refine ⟨g, made, by rw [size]; dsimp only; omega, ?_⟩
    rw [set]
    ext e
    simp only [Finset.mem_union, Finset.mem_insert, Finset.mem_Ico]
    constructor
    · rintro ((rfl | mem) | mem)
      · exact .inr (by omega)
      · exact .inl mem
      · exact .inr (by omega)
    · rintro (mem | mem)
      · exact .inl (.inr mem)
      · by_cases e = a
        · exact .inl (.inl (by omega))
        · exact .inr (by omega)

/-- Consecutive executors give the group of just these. -/
lemma egroupCreate_range (le : a + k ≤ n) (max : n ≤ executorIdMax) :
    ∃ g, egroupCreate n ((List.range k).map fun i : Nat => (i : Int) + a) = some g ∧ g.cur.size = k ∧
      g.cur.eidSet = Finset.Ico a (a + k) := by
  obtain ⟨g, made, size, set⟩ := @createLoop_range n 0 k a .empty (fun _ _ => rfl) le
  have list : (List.range k).map (fun i : Nat => (i : Int) + a) = (List.range' a k).map fun e : Nat => (e : Int) := by
    rw [List.range'_eq_map_range, map_map]
    exact map_congr_left fun i _ => by
      rw [Function.comp_apply]
      exact Int.add_comm _ _
  refine ⟨⟨g, g⟩, ?_, by rw [size]; exact Nat.zero_add k, by rw [set]; exact Finset.empty_union _⟩
  rw [list, egroupCreate, length_map, length_range', if_neg (by omega), made]
  rfl

/-- Below executor `0` no group begins. -/
lemma egroupCreate_neg {eid : Int} (pos : 1 ≤ k) (neg : eid < 0) :
    egroupCreate n ((List.range k).map fun i : Nat => (i : Int) + eid) = none := by
  obtain ⟨k, rfl⟩ := Nat.exists_eq_add_of_le' pos
  unfold egroupCreate
  split
  · rfl
  · rw [range_succ_eq_map, map_cons, createLoop, if_pos (by right; push_cast; omega)]
    rfl

/-- For natural numbers the C++ quotient is theirs. -/
lemma groupCount_eq : groupCount n nth = (n / nth : Nat) := Int.ofNat_tdiv _ _

/-- A call that is allowed starts within the executors. -/
lemma acquireStart_eq (pos : 1 ≤ nth) (le : nth ≤ n) (fits : Word.Fits 32 index)
    (allowed : 1 ≤ index ∨ index ≠ -2 ^ 31 ∧ groupCount n nth ∣ index - 1) :
    ∃ eid : Nat, acquireStart n nth index = some (eid : Int) ∧ eid = (index - 1) % groupCount n nth * nth ∧
      eid + nth ≤ n := by
  have groups : 1 ≤ n / nth := (Nat.one_le_div_iff pos).2 le
  have count := @groupCount_eq n nth
  have nonneg := Int.emod_nonneg (index - 1) (b := groupCount n nth) (by omega)
  have lt := Int.emod_lt_of_pos (index - 1) (b := groupCount n nth) (by omega)
  have same : (index - 1).tmod (groupCount n nth) = (index - 1) % groupCount n nth := by
    obtain positive | ⟨-, div⟩ := allowed
    · exact Int.tmod_eq_emod_of_nonneg (by omega)
    · rw [Int.tmod_eq_zero_of_dvd div, Int.emod_eq_zero_of_dvd div]
  obtain ⟨r, hr⟩ := Int.eq_ofNat_of_zero_le nonneg
  have sub : Word.sub 32 index 1 = some (index - 1) := Word.sub_eq (by
    unfold Word.Fits at fits ⊢
    norm_num at fits allowed ⊢
    omega)
  refine ⟨r * nth, ?_, by rw [hr]; push_cast; rfl, ?_⟩
  · rw [acquireStart, if_neg (by omega), sub, Option.map_some, same, hr]
    rfl
  · have mul : (r + 1) * nth ≤ n / nth * nth := Nat.mul_le_mul_right nth (by omega)
    have all := Nat.div_mul_le_self n nth
    rw [Nat.succ_mul] at mul
    omega

/-- Where a call is not allowed there is no start, or a negative one. -/
lemma acquireStart_neg (pos : 1 ≤ nth)
    (other : ¬ (nth ≤ n ∧ (1 ≤ index ∨ index ≠ -2 ^ 31 ∧ groupCount n nth ∣ index - 1))) :
    ∀ eid, acquireStart n nth index = some eid → eid < 0 ∧ -n < eid := by
  intro eid is
  have le : nth ≤ n := by
    by_contra more
    have none : groupCount n nth = 0 := by
      rw [groupCount_eq, Nat.div_eq_of_lt (Nat.lt_of_not_le more)]
      rfl
    rw [acquireStart, if_pos (.inr none.le)] at is
    cases is
  have low : index < 1 := by
    by_contra here
    exact other ⟨le, .inl (Int.not_lt.1 here)⟩
  have groups : 1 ≤ n / nth := (Nat.one_le_div_iff pos).2 le
  have count := @groupCount_eq n nth
  rw [acquireStart, if_neg (by omega)] at is
  obtain ⟨i, sub, rfl⟩ := Option.map_eq_some_iff.1 is
  obtain ⟨fits, rfl⟩ := Word.checked_eq_some.1 sub
  have least : index ≠ -2 ^ 31 := by
    rintro rfl
    exact absurd fits (by decide)
  have rest : (index - 1).tmod (groupCount n nth) ≠ 0 := fun zero =>
    other ⟨le, .inr ⟨least, Int.dvd_of_tmod_eq_zero zero⟩⟩
  have back := Int.tmod_nonneg (groupCount n nth) (a := -(index - 1)) (by omega)
  rw [Int.neg_tmod] at back
  have small := Int.tmod_lt_of_pos (-(index - 1)) (b := groupCount n nth) (by omega)
  rw [Int.neg_tmod] at small
  have above : -(n / nth : Nat) * (nth : Int) < (index - 1).tmod (groupCount n nth) * nth :=
    Int.mul_lt_mul_of_pos_right (by omega) (by omega)
  have all : ((n / nth : Nat) : Int) * nth ≤ n := by exact_mod_cast Nat.div_mul_le_self n nth
  exact ⟨Int.mul_neg_of_neg_of_pos (by omega) (by omega), by rw [Int.neg_mul] at above; omega⟩

/-- A setter writes a positive number. -/
lemma checkedConcurrency_pos (pos : 1 ≤ n) {num : Int} : 1 ≤ checkedConcurrency n num := by
  unfold checkedConcurrency
  split <;> omega

/-- The concurrency of every thread is positive. -/
lemma Inv.kernelConcurrency (I : Inv n s) (pos : 1 ≤ n) (t : Nat) :
    ∃ nth : Nat, s.kernelConcurrency n t = nth ∧ 1 ≤ nth := by
  have range : 1 ≤ s.kernelConcurrency n t := by
    unfold State.kernelConcurrency
    have := I.locals t
    have := I.concurrency
    split
    · omega
    · split <;> omega
  exact ⟨(s.kernelConcurrency n t).toNat, by omega, by omega⟩

/-- A group stays where it is when another one is made. -/
lemma Spans.append {eid : Nat} {g : Egroup} (S : Spans s h eid nth) (groups : s'.groups = s.groups ++ [g]) :
    Spans s' h eid nth := by
  obtain ⟨g', at_h, size, set⟩ := S
  refine ⟨g', ?_, size, set⟩
  rw [groups, List.getElem?_append_left (List.getElem?_eq_some_iff.1 at_h).1, at_h]

/-- A group has one start and one size. -/
lemma Spans.unique {eid eid' nth' : Nat} (S : Spans s h eid nth) (S' : Spans s h eid' nth') (pos : 1 ≤ nth) :
    eid = eid' ∧ nth = nth' := by
  obtain ⟨g, at_h, size, set⟩ := S
  obtain ⟨g', at_h', size', set'⟩ := S'
  obtain rfl := Option.some.inj (at_h.symm.trans at_h')
  have first : eid ∈ Finset.Ico eid' (eid' + nth') := by
    rw [← set', set, Finset.mem_Ico]
    omega
  have first' : eid' ∈ Finset.Ico eid (eid + nth) := by
    rw [← set, set', Finset.mem_Ico]
    omega
  rw [Finset.mem_Ico] at first first'
  omega

/-- An answer stands when groups and keys are added. -/
lemma Answer.mono {c : Call} {eid : Nat} (A : Answer n s c h eid nth)
    (table : ∀ key h, s.table key = some h → s'.table key = some h)
    (spans : ∀ h eid nth, Spans s h eid nth → Spans s' h eid nth) : Answer n s' c h eid nth :=
  { A with table := table _ _ A.table, spans := spans _ _ _ A.spans }

/-- A call that is allowed finds the group of its start, or makes it. -/
lemma Inv.acquire (I : Inv n s) (pos : 1 ≤ nth) (le : nth ≤ n) (max : n ≤ executorIdMax)
    (fits : Word.Fits 32 index)
    (allowed : 1 ≤ index ∨ index ≠ -2 ^ 31 ∧ groupCount n nth ∣ index - 1) :
      Inv n (s.acquireEgroup n nth index) := by
  obtain ⟨eid, start, isEid, room⟩ := acquireStart_eq pos le fits allowed
  unfold State.acquireEgroup
  rw [start]
  dsimp only
  cases found : s.table (encodeEgroupKey eid nth) with
  | some h =>
    obtain ⟨eid', nth', key, room', S⟩ := I.table _ h found
    obtain ⟨rfl, rfl⟩ := encodeEgroupKey_inj (room.trans max) (room'.trans max) key
    refine ⟨I.concurrency, I.locals, I.table, fun c mem => ?_⟩
    obtain mem | mem := mem_append.1 mem
    · obtain ⟨h, eid, nth, A⟩ := I.calls c mem
      exact ⟨h, eid, nth, A.mono (fun _ _ is => is) fun _ _ _ S => S⟩
    · obtain rfl := mem_singleton.1 mem
      exact ⟨h, eid, nth, rfl, rfl, start, isEid, pos, room, found, S⟩
  | none =>
    obtain ⟨g, made, size, set⟩ := egroupCreate_range room max
    rw [Int.toNat_natCast, made]
    have kept (key h) (is : s.table key = some h) :
        update s.table (encodeEgroupKey eid nth) (some s.groups.length) key = some h := by
      rw [update_of_ne, is]
      rintro rfl
      rw [found] at is
      cases is
    refine ⟨I.concurrency, I.locals, fun key h is => ?_, fun c mem => ?_⟩
    · dsimp only at is
      by_cases here : key = encodeEgroupKey eid nth
      · rw [here, update_self] at is
        cases is
        exact ⟨eid, nth, here, room, g, List.getElem?_concat_length, size, set⟩
      · rw [update_of_ne here] at is
        obtain ⟨eid, nth, isKey, room, S⟩ := I.table key h is
        exact ⟨eid, nth, isKey, room, S.append rfl⟩
    · obtain mem | mem := mem_append.1 mem
      · obtain ⟨h, eid, nth, A⟩ := I.calls c mem
        exact ⟨h, eid, nth, A.mono kept fun _ _ _ S => S.append rfl⟩
      · obtain rfl := mem_singleton.1 mem
        exact ⟨_, eid, nth, rfl, rfl, start, isEid, pos, room, update_self _ _ _,
          g, List.getElem?_concat_length, size, set⟩

/-- Every action that is allowed keeps the invariant. -/
lemma Inv.step (I : Inv n s) (pos : 1 ≤ n) (max : n ≤ executorIdMax) (allowed : Allowed n s act)
    (st : Acquire.step n s act = some s') : Inv n s' := by
  have calls (concurrency locals) : ∀ c ∈ s.calls, ∃ h eid nth,
      Answer n { s with concurrency := concurrency, locals := locals } c h eid nth := by
    intro c mem
    obtain ⟨h, eid, nth, A⟩ := I.calls c mem
    exact ⟨h, eid, nth, A.mono (fun _ _ is => is) fun _ _ _ S => S⟩
  cases act with
  | set num =>
    cases st
    exact ⟨.inr (checkedConcurrency_pos pos), I.locals, I.table, calls _ _⟩
  | setLocal thread num =>
    cases st
    refine ⟨I.concurrency, fun t => ?_, I.table, calls _ _⟩
    dsimp only
    by_cases here : t = thread
    · rw [here, update_self]
      exact .inr (checkedConcurrency_pos pos)
    · rw [update_of_ne here]
      exact I.locals t
  | acquire thread index =>
    unfold Acquire.step at st
    dsimp only at st
    split at st
    · rename_i valid
      cases st
      obtain ⟨nth, is, some⟩ := I.kernelConcurrency pos thread
      dsimp only [Allowed] at allowed
      rw [is, Nat.cast_le] at allowed
      rw [is]
      exact I.acquire some allowed.1 max valid.1 allowed.2
    · cases st

/-- The invariant holds in every run of actions that are allowed. -/
lemma Inv.reach (pos : 1 ≤ n) (max : n ≤ executorIdMax) (reach : (machine n).Reach (Allowed n) s) : Inv n s := by
  refine reach.inv (fun s is => ?_) fun s act s' I allowed st => I.step pos max allowed st
  obtain ⟨config, low, -, rfl⟩ := is
  refine ⟨?_, fun _ => .inl rfl, fun _ _ is => (by cases is), fun _ mem => (by cases mem)⟩
  dsimp only [State.start]
  split <;> omega

/-- Under the invariant all calls got what they should. -/
lemma Inv.right (I : Inv n s) : Right n s := by
  refine ⟨fun c mem => ?_, fun c mem c' mem' same => ?_, fun c mem c' mem' same rest => ?_⟩
  · obtain ⟨h, eid, nth, A⟩ := I.calls c mem
    exact ⟨h, eid, nth, A.result, A.isNth, A.room, A.spans⟩
  all_goals
    obtain ⟨h, eid, nth, A⟩ := I.calls c mem
    obtain ⟨h', eid', nth', A'⟩ := I.calls c' mem'
  · obtain rfl := Option.some.inj (A.result.symm.trans (same.trans A'.result))
    obtain ⟨rfl, rfl⟩ := A.spans.unique A'.spans A.pos
    exact ⟨A.isNth.trans A'.isNth.symm, A.start.trans A'.start.symm⟩
  · obtain rfl : nth = nth' := by
      have := A.isNth
      have := A'.isNth
      omega
    rw [A.isNth] at rest
    have back : (c.index - 1) % groupCount n nth = (c'.index - 1) % groupCount n nth := by
      rw [Int.sub_emod, rest, ← Int.sub_emod]
    obtain rfl : eid = eid' := by
      have here := A.isEid
      rw [back, ← A'.isEid] at here
      omega
    rw [A.result, A'.result, ← A.table, A'.table]

end Start

/-- As long as no concurrency is above the executors and every index is positive or leads to the first group, every call
returns the group it should; any other call is refused. -/
theorem acquire_right_iff {n : Nat} {s : State} (pos : 1 ≤ n) (max : n ≤ executorIdMax)
    (reach : (machine n).Reach (Allowed n) s) : Right n s ∧
      ∀ act s', (machine n).step s act = some s' → (Right n s' ↔ Allowed n s act) := by
  have I := Inv.reach pos max reach
  refine ⟨I.right, fun act s' st => ⟨fun R => ?_, fun allowed => (I.step pos max allowed st).right⟩⟩
  cases act with
  | set | setLocal => trivial
  | acquire thread index =>
    by_contra other
    obtain ⟨nth, is, some⟩ := I.kernelConcurrency pos thread
    dsimp only [Allowed] at other
    rw [is, Nat.cast_le] at other
    have neg := acquireStart_neg some other
    have unanswered : ⟨index, nth, none⟩ ∈ s'.calls := by
      change step n s (.acquire thread index) = _ at st
      unfold step at st
      dsimp only at st
      split at st
      swap
      · cases st
      rw [is] at st
      cases st
      unfold State.acquireEgroup
      split
      · exact mem_append_right _ mem_cons_self
      · rename_i eid start
        obtain ⟨low, small⟩ := neg eid start
        have fresh : s.table (encodeEgroupKey eid nth) = none := by
          by_contra found
          obtain ⟨h, found⟩ := Option.ne_none_iff_exists'.1 found
          obtain ⟨eid', nth', key, room, -⟩ := I.table _ h found
          unfold executorIdMax at max
          unfold encodeEgroupKey at key
          omega
        rw [fresh, Int.toNat_natCast, egroupCreate_neg some low]
        exact mem_append_right _ mem_cons_self
    obtain ⟨h, -, -, result, -⟩ := R.group _ unanswered
    cases result

/-- Two queues on four executors: they have groups of two executors of their own, and one shares the second group. -/
theorem acquire_right_iff_two : ∃ s, (machine 4).Reach (Allowed 4) s ∧ s.groups.length = 2 ∧ Right 4 s ∧
    ∀ act s', (machine 4).step s act = some s' → (Right 4 s' ↔ Allowed 4 s act) := by
  refine Machine.shown_and [.acquire 0 1, .acquire 0 2, .acquire 1 4] ⟨2, by decide, by decide, rfl⟩
    (by decide +kernel) fun s h _ => ?_
  exact acquire_right_iff (by decide) (by decide) h

/-- The queue of index `0` on two executors with a concurrency of one. -/
theorem acquire_not_right :
    ¬ ∀ (n : Nat) (s : State), 1 ≤ n → n ≤ executorIdMax → (machine n).Reachable s → Right n s := by
  intro right
  obtain ⟨s, reach, c, mem, none⟩ := Machine.exists_reach (M := machine 2) (g := fun _ _ => True)
    (P := fun s => ∃ c ∈ s.calls, c.result = none) [.acquire 0 0] ⟨1, by decide, by decide, rfl⟩
    (by decide +kernel)
  obtain ⟨h, -, -, result, -⟩ := (right 2 s (by decide) (by decide) reach).group c mem
  cases result.symm.trans none

end Kupl.Group.Acquire
