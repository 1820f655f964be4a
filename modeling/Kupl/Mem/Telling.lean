import Kupl.Mem.Alike
import Kupl.Mem.Fits

/-!
# What a program can tell apart (`kupl_mem.cpp`)

Two systems that are alike map the same addresses, with or without memory in both; the address has the same place in
memory, the mapping is counted as often, and without memory it is of the same size. A run of one or two requests shows
each of these but the count, which takes as many requests that give a count back as it is high.
-/

namespace Kupl.Mem

variable {s : State} {mem ddr : Nat} {m : KuplMem}

namespace State

lemma query_setMem (size : m.size = (s.mem mem).size) : (s.setMem mem m).query ddr = s.query ddr := by
  have sizes (x) : ((s.setMem mem m).mem x).size = (s.mem x).size := mem_setMem (f := (·.size)) size
  have addrs : (s.setMem mem m).addrMap = s.addrMap := rfl
  have ranges : (s.setMem mem m).rangeMap = s.rangeMap := rfl
  unfold State.query
  rw [addrs, ranges]
  simp only [sizes]

lemma detach_ok {size : Nat} : (s.detach ⟨0, ddr, 0, size, .pull⟩).2.2 = (s.query ddr).isSome := by
  rw [State.detach]
  cases s.query ddr <;> rfl

end State

namespace System
variable {s t s' t' : System} {a : Label} {ddr n x y o p : Nat}

namespace Alike

lemma answers (A : s.Alike t) : s.core.isPresent = t.core.isPresent ∧ s.core.memQuery = t.core.memQuery := A []

lemma returned (A : s.Alike t) (a : Label) : s.quiet.returned a = t.quiet.returned a := (A [a]).1

lemma step (A : s.Alike t) (got : s.quiet.step a = some s') (got' : t.quiet.step a = some t') :
    s'.core.issued = t'.core.issued ∧ s'.Alike t' := by
  have all (w : List Label) : s'.core.issued = t'.core.issued ∧ AlikeFor w s' t' := by
    have both := (A (a :: w)).2
    rw [got, got'] at both
    cases both with
    | some both => exact both
  exact ⟨(all []).1, fun w => (all w).2⟩

end Alike

section
variable (A : s.Alike t) (pos : ddr ≠ 0) (idle : s.host = .idle) (idle' : t.host = .idle)
  (found : s.core.query ddr = some (x, o)) (found' : t.core.query ddr = some (y, p))
include A pos

lemma found_of_alike : (s.core.query ddr).isSome = (t.core.query ddr).isSome := by
  have same := A.returned (.copyout ddr 1 .pull (some 0) true)
  unfold System.returned at same
  dsimp only at same
  rw [if_neg pos, if_neg pos, State.detach_ok, State.detach_ok] at same
  have same : answered (s.core.query ddr).isSome (some 0) true = answered (t.core.query ddr).isSome (some 0) true :=
    same
  cases isS : (s.core.query ddr).isSome with
  | false =>
    cases isT : (t.core.query ddr).isSome with
    | false => rfl
    | true =>
      rw [isS, isT] at same
      cases same
  | true =>
    cases isT : (t.core.query ddr).isSome with
    | false =>
      rw [isS, isT] at same
      cases same
    | true => rfl

omit A in
lemma pull_step (idle : s.host = .idle) (found : s.core.query ddr = some (x, o)) :
    s.quiet.step (.copyout ddr 1 .pull none true) =
      some { s.quiet with host := .task (.copyout ⟨x, ddr, o, 1, .pull⟩) } := by
  have found : s.quiet.core.query ddr = some (x, o) := found
  have idle : s.quiet.host = .idle := idle
  rw [System.step, System.copyout, idle]
  rw [if_neg pos, State.detach]
  rw [found]
  rfl

include idle idle' found found'

lemma hbw_of_alike : (s.core.mem x).baseHbw = none ↔ (t.core.mem y).baseHbw = none := by
  obtain ⟨-, A⟩ := A.step (pull_step pos idle found) (pull_step pos idle' found')
  have same := A.returned (.task (.good 0))
  have result {u : System} {z q : Nat} : (Task.copyout ⟨z, ddr, q, 1, .pull⟩).result u.quiet.quiet.core (.good 0) =
      decide ((u.core.mem z).baseHbw ≠ none) := by
    show (State.copyoutTask _ _ _).2 = _
    rw [State.copyoutTask]
    split
    · rename_i none
      exact (decide_eq_false (not_not.2 none)).symm
    · rename_i has
      exact (decide_eq_true has).symm
  have same : some ((Task.copyout ⟨x, ddr, o, 1, .pull⟩).result s.quiet.quiet.core (.good 0)) =
    some ((Task.copyout ⟨y, ddr, p, 1, .pull⟩).result t.quiet.quiet.core (.good 0)) := same
  rw [result, result, Option.some_inj, decide_eq_decide] at same
  exact not_iff_not.1 same

omit idle idle' in
lemma addr_of_alike : s.core.hbwAddr x + o = t.core.hbwAddr y + p := by
  have same := congrFun A.answers.2 ddr
  unfold State.memQuery at same
  rw [if_neg pos, if_neg pos, found, found'] at same
  exact same

end

def given (s : System) (x : Nat) : System :=
  { s.quiet with
    core := s.quiet.core.setMem x { s.core.mem x with attCnt := int32 ((s.core.mem x).attCnt - 1) }
    host := .idle }

lemma given_mem : (s.given x).core.mem x = { s.core.mem x with attCnt := int32 ((s.core.mem x).attCnt - 1) } :=
  State.mem_self

lemma given_query : (s.given x).core.query ddr = s.core.query ddr :=
  State.query_setMem (s := s.quiet.core) rfl

section
variable (pos : ddr ≠ 0) (idle : s.host = .idle) (found : s.core.query ddr = some (x, o))
include pos idle found

lemma delete_step : s.quiet.step (.copyout ddr 1 .delete (some 0) false) = some (s.given x) := by
  have found : s.quiet.core.query ddr = some (x, o) := found
  have idle : s.quiet.host = .idle := idle
  rw [System.step, System.copyout, idle]
  rw [if_neg pos, State.detach]
  rw [found]
  rfl

lemma push_step (used : (s.core.mem x).attCnt ≠ 0) : s.quiet.step (.copyin ddr 1 .push none true true) =
    some { s.quiet with host := .task (.copyin ⟨x, ddr, o, 1, .push⟩) } := by
  have found : s.quiet.core.query ddr = some (x, o) := found
  have idle : s.quiet.host = .idle := idle
  have used : (s.quiet.core.mem x).attCnt ≠ 0 := used
  have good : ¬ (ddr = 0 ∨ 1 = 0) := by omega
  rw [System.step, System.copyin, idle]
  rw [if_neg good, State.attach]
  rw [found]
  dsimp only
  rw [if_neg used]
  rfl

omit idle in
lemma returned_push : s.quiet.returned (.copyin ddr 1 .push (some 0) true true) =
    if (s.core.mem x).attCnt = 0 then none else some true := by
  have found : s.quiet.core.query ddr = some (x, o) := found
  have good : ¬ (ddr = 0 ∨ 1 = 0) := by omega
  unfold System.returned State.attach
  dsimp only
  rw [if_neg good, found]
  dsimp only
  by_cases zero : (s.core.mem x).attCnt = 0
  · have zero' : (s.quiet.core.mem x).attCnt = 0 := zero
    rw [if_pos zero, if_pos zero']
    rfl
  · have used : (s.quiet.core.mem x).attCnt ≠ 0 := zero
    rw [if_neg zero, if_neg used]
    rfl

end

lemma count_of_alike (A : s.Alike t) (pos : ddr ≠ 0) (idle : s.host = .idle) (idle' : t.host = .idle)
    (found : s.core.query ddr = some (x, o)) (found' : t.core.query ddr = some (y, p))
    (isN : (t.core.mem y).attCnt = int32 n) : int32 (s.core.mem x).attCnt = int32 n := by
  induction n generalizing s t with
  | zero =>
    have same := A.returned (.copyin ddr 1 .push (some 0) true true)
    have zero : int32 ((0 : Nat) : Int) = 0 := rfl
    rw [returned_push pos found, returned_push pos found', isN, zero, if_pos rfl] at same
    split at same
    · rename_i zero
      rw [zero]
      rfl
    · cases same
  | succ n ih =>
    obtain ⟨-, A⟩ := A.step (delete_step pos idle found) (delete_step pos idle' found')
    have back : int32 ((t.core.mem y).attCnt - 1) = int32 n := by
      apply int32_congr
      have := int32_mod ((n + 1 : Nat) : Int)
      rw [isN]
      omega
    have less := ih A rfl rfl (given_query.trans found) (given_query.trans found')
      ((congrArg KuplMem.attCnt given_mem).trans back)
    rw [given_mem, int32_int32] at less
    apply int32_congr
    have same := int32_mod ((s.core.mem x).attCnt - 1)
    rw [less, int32_mod] at same
    omega

lemma pushed {u : State} (none : (u.mem x).baseHbw = none) (isNew : u.issued = []) :
    (u.copyinTask ⟨x, ddr, o, 1, .push⟩ (.good 4096)).1.issued.map (·.room) = [(u.mem x).size] := by
  have got : u.alloc x (.good 4096) = some { u.setMem x { u.mem x with
      baseHbw := some ⟨u.hbwMade, 4096⟩
      pin := decide (u.threshold ≤ (u.mem x).size) && true
      refCnt := 0 } with
    hbwMade := u.hbwMade + 1 } := by
    rw [State.alloc, if_neg (not_not.2 none)]
    rfl
  rw [State.copyinTask, got]
  show [(Function.update u.mem x _ x).size] ++ u.issued.map _ = _
  rw [Function.update_self, isNew]
  rfl

lemma size_of_alike (A : s.Alike t) (pos : ddr ≠ 0) (idle : s.host = .idle) (idle' : t.host = .idle)
    (found : s.core.query ddr = some (x, o)) (found' : t.core.query ddr = some (y, p))
    (bare : (s.core.mem x).baseHbw = none) (bare' : (t.core.mem y).baseHbw = none)
    (live : s.core.deleted x = false) (live' : t.core.deleted y = false)
    (att : (s.core.mem x).attCnt = (t.core.mem y).attCnt) : (s.core.mem x).size = (t.core.mem y).size := by
  have used {s t : System} (A : s.Alike t) (idle : s.host = .idle) (idle' : t.host = .idle)
      (found : s.core.query ddr = some (x, o)) (found' : t.core.query ddr = some (y, p))
      (bare : (s.core.mem x).baseHbw = none) (bare' : (t.core.mem y).baseHbw = none)
      (live : s.core.deleted x = false) (live' : t.core.deleted y = false)
      (used : (s.core.mem x).attCnt ≠ 0) (used' : (t.core.mem y).attCnt ≠ 0) :
      (s.core.mem x).size = (t.core.mem y).size := by
    obtain ⟨-, A⟩ := A.step (push_step pos idle found used) (push_step pos idle' found' used')
    have task {u : System} {z q : Nat} (live : u.core.deleted z = false) :
        System.step (System.quiet { u.quiet with host := .task (.copyin ⟨z, ddr, q, 1, .push⟩) })
            (.task (.good 4096)) =
          some { u with
            core := (u.quiet.quiet.core.copyinTask ⟨z, ddr, q, 1, .push⟩ (.good 4096)).1, host := .idle } := by
      show (if u.core.deleted z = true then none else _) = _
      rw [live]
      rfl
    have same := congrArg (List.map (·.room)) (A.step (task live) (task live')).1
    rw [pushed (u := s.quiet.quiet.core) bare rfl, pushed (u := t.quiet.quiet.core) bare' rfl] at same
    exact (List.cons.inj same).1
  by_cases zero : (s.core.mem x).attCnt = 0
  · -- A count is given back first.
    obtain ⟨-, A⟩ := A.step (delete_step pos idle found) (delete_step pos idle' found')
    have back : int32 (0 - 1) ≠ 0 := by decide
    have same := used A rfl rfl (given_query.trans found) (given_query.trans found')
      (by rw [given_mem]; exact bare) (by rw [given_mem]; exact bare') live live'
      (by rw [given_mem, zero]; exact back) (by rw [given_mem, ← att, zero]; exact back)
    rw [given_mem, given_mem] at same
    exact same
  · exact used A idle idle' found found' bare bare' live live' zero (by rw [← att]; exact zero)

end System

end Kupl.Mem
