import Kupl.Script.Spread
import Mathlib.Algebra.Order.BigOperators.Group.Finset
import Mathlib.Data.Finset.Max

/-!
# Fences in scripts

A fence, by what it promises: nobody gets over it before all have come to it (`commFence`), or before the other one has
(`peerFence`). Each rank counts how often it has come, and waits until the others have come as often. So who is over a
fence has the others as far as its own count (`fence_behind`, `peer_behind`), and who has counted that far is past all
that comes before (`Behind.past`). That the fences of the library keep this promise is shown in
`Kupl.Fence`, flag by flag.
-/

namespace Kupl.Script
open List

variable {C L α : Type}

/-- A fence of `n` ranks. -/
def commFence (flag : Nat → C) (n myid : Nat) : List (Instr C L) :=
  .inc (flag myid) :: (List.range n).map fun i => .waitLe (flag myid) (flag i)

def peerFence (flag : Nat → Nat → C) (myid remote : Nat) : List (Instr C L) :=
  [.inc (flag myid remote), .waitLe (flag myid remote) (flag remote myid)]

section List
variable {flag : Nat → C} {n p : Nat} {c : C} {x : Instr C L}

lemma mem_commFence (mem : x ∈ commFence flag n p) : x = .inc (flag p) ∨ ∃ i < n, x = .waitLe (flag p)
    (flag i) := by
  obtain rfl | mem := mem_cons.1 mem
  · exact .inl rfl
  · obtain ⟨i, inRange, rfl⟩ := mem_map.1 mem
    exact .inr ⟨i, mem_range.1 inRange, rfl⟩

variable [DecidableEq C] [DecidableEq L]

lemma count_inc {c' : C} : ([.inc c'] : List (Instr C L)).count (.inc c) = if c = c' then 1 else 0 := by
  rw [count_singleton]
  by_cases same : c = c'
  · rw [same, if_pos rfl, if_pos (beq_self_eq_true _)]
  · rw [if_neg same, if_neg fun h => same (Instr.inc.inj (eq_of_beq h)).symm]

lemma count_commFence : (commFence flag n p : List (Instr C L)).count (.inc c) = if c = flag p then 1 else 0 := by
  have waits : ((List.range n).map fun i => (.waitLe (flag p) (flag i) : Instr C L)).count (.inc c) = 0 := by
    apply count_eq_zero.2
    intro mem
    obtain ⟨i, -, is⟩ := mem_map.1 mem
    cases is
  rw [commFence, ← singleton_append, count_append, waits, count_inc, Nat.add_zero]

end List

section Rest
variable {s s' : State C L α} {k p : Nat}

/-- What a rank has still to do in call `k`. -/
def rest (s : State C L α) (k p : Nat) : Nat :=
  match s.pc p with
  | some (_, t) => if s.left p = k then t.length + 1 else 0
  | none => 0

lemma rest_in {d t : List (Instr C L)} (at_p : s.pc p = some (d, t)) :
    rest s k p = if s.left p = k then t.length + 1 else 0 := by
  rw [rest, at_p]

lemma rest_out (out : s.pc p = none) : rest s k p = 0 := by
  rw [rest, out]

lemma rest_eq (pc : s'.pc p = s.pc p) (left : s'.left p = s.left p) : rest s' k p = rest s k p := by
  rw [rest, rest, pc, left]

end Rest

section Behind
variable [DecidableEq C] [DecidableEq L] {prog : Nat → List (Instr C L)} {s : State C L α} {q k j : Nat} {c : C}
  {d t : List (Instr C L)} {x y : Instr C L}

/-- A rank has counted in call `k` more often than `j` times. -/
def Behind (prog : Nat → List (Instr C L)) (s : State C L α) (k : Nat) (c : C) (q j : Nat) : Prop :=
  k * (prog q).count (.inc c) + j < s.executed prog q (.inc c)

lemma Behind.past (B : Behind prog s k c q j) (spl : ∀ d t, s.pc q = some (d, t) → d ++ t = prog q)
    (is : prog q = d ++ y :: t) (le : d.count (.inc c) ≤ j) : s.Past q k d := by
  apply past_of_count spl is (x := .inc c)
  rw [Behind] at B
  omega

lemma Behind.inside (B : Behind prog s (s.left q) c q j) (at_q : s.pc q = some (d, t)) : j < d.count (.inc c) := by
  rw [Behind, State.executed, State.done_in at_q] at B
  omega

end Behind

variable [DecidableEq C] [DecidableEq L] [Add α] {prog : Nat → List (Instr C L)} {owner : L → Nat}
  {n p q i k : Nat}
  {s s' : State C L α} {g : State C L α → Label L α → Prop} {by_ : C → Nat} {u v : List (Instr C L)}
  {flag : Nat → C} {c : Nat}

section Run
variable (h : (machine n prog owner).Reach g s) (own : ∀ p c, .inc c ∈ prog p → by_ c = p)
include h own

lemma fence_behind (mine : ∀ i, by_ (flag i) = i)
    (all : ∀ i < n, (prog i).count (.inc (flag i)) = (prog q).count (.inc (flag q)))
    (is : prog q = u ++ (commFence flag n q ++ v)) (O : s.Over q k (u ++ commFence flag n q)) (lt : i < n) :
    Behind prog s k (flag i) i (u.count (.inc (flag q))) := by
  obtain ⟨a, b, parts⟩ := append_of_mem (mem_range.2 lt)
  have isF : (commFence flag n q : List (Instr C L)) = (.inc (flag q) :: a.map fun i => .waitLe (flag q) (flag i)) ++
      .waitLe (flag q) (flag i) :: b.map fun i => .waitLe (flag q) (flag i) := by
    rw [commFence, parts, map_append]
    rfl
  rw [isF, ← append_assoc] at O
  have whole : prog q = (u ++ .inc (flag q) :: a.map fun i => .waitLe (flag q) (flag i)) ++
      .waitLe (flag q) (flag i) :: ((b.map fun i => .waitLe (flag q) (flag i)) ++ v) := by
    rw [is, isF]
    simp only [append_assoc, cons_append]
  have le := passed_le own h (mine q) whole O.past
  rw [mine, count_append, count_cons_self] at le
  rw [Behind, all i lt]
  omega

end Run

/-! ## Scripts with two fences -/

/-- Two parts, each followed by a fence. -/
structure Phases (prog : Nat → List (Instr C L)) (flag : Nat → C) (n : Nat)
    (first second : Nat → List (Instr C L)) :
    Prop where
  parts : ∀ p < n, prog p = first p ++ (commFence flag n p ++ (second p ++ commFence flag n p))
  first : ∀ p < n, (first p).count (.inc (flag p)) = 0
  second : ∀ p < n, (second p).count (.inc (flag p)) = 0

namespace Phases
variable {first second : Nat → List (Instr C L)} {d t : List (Instr C L)} {x : Instr C L}
  (A : Phases prog flag n first second)
include A

lemma count (lt : p < n) : (prog p).count (.inc (flag p)) = 2 := by
  rw [A.parts p lt, count_append, count_append, count_append, A.first p lt, A.second p lt,
    count_commFence, if_pos rfl]

lemma parts_end (lt : p < n) :
    prog p = (first p ++ (commFence flag n p ++ second p)) ++ (commFence flag n p ++ []) := by
  rw [A.parts p lt]
  simp only [append_assoc, append_nil]

lemma count_end (lt : p < n) : (first p ++ (commFence flag n p ++ second p)).count (Instr.inc (flag p)) = 1 := by
  rw [count_append, count_append, A.first p lt, A.second p lt, count_commFence, if_pos rfl]

variable (h : (machine n prog owner).Reach g s) (own : ∀ p c, .inc c ∈ prog p → by_ c = p)
  (mine : ∀ i, by_ (flag i) = i)
include h own mine

lemma came (lt_q : q < n) (O : s.Over q k (first q ++ commFence flag n q)) (lt : p < n) : s.Past p k (first p) := by
  have B := fence_behind h own mine (fun i lt_i => (A.count lt_i).trans (A.count lt_q).symm) (A.parts q lt_q) O lt
  rw [A.first q lt_q] at B
  exact B.past (split h p) (A.parts p lt) (Nat.le_of_eq (A.first p lt))

lemma came_end (lt_q : q < n) (O : s.Over q k (prog q)) (lt : p < n) :
    s.Past p k (first p ++ (commFence flag n p ++ second p)) := by
  rw [A.parts_end lt_q, append_nil] at O
  have B := fence_behind h own mine (fun i lt_i => (A.count lt_i).trans (A.count lt_q).symm) (A.parts_end lt_q) O lt
  rw [A.count_end lt_q] at B
  exact B.past (split h p) (A.parts_end lt) (Nat.le_of_eq (A.count_end lt))

lemma stays (at_q : s.pc q = some (d, t)) (few : d.count (.inc (flag q)) ≤ 1) (lt_q : q < n) (lt : p < n) :
    s.left p ≤ s.left q := by
  by_contra left
  have O : s.Over p (s.left q) (first p ++ (commFence flag n p ++ second p) ++ commFence flag n p) :=
    over_left (Nat.lt_of_not_le left)
  have B := fence_behind h own mine (fun i lt_i => (A.count lt_i).trans (A.count lt).symm) (A.parts_end lt) O lt_q
  rw [A.count_end lt] at B
  have := B.inside at_q
  omega

lemma inside (at_q : s.pc q = some (first q ++ (commFence flag n q ++ d), x :: t)) (few : d.count (.inc (flag q)) = 0)
    (lt_q : q < n) (lt : p < n) : s.Inside p (s.left q) ∧ s.Past p (s.left q) (first p) := by
  have O : s.Over q (s.left q) (first q ++ commFence flag n q) := by
    rw [← append_assoc] at at_q
    exact over_in at_q
  have P := A.came h own mine lt_q O lt
  have le : s.left p ≤ s.left q := by
    refine A.stays h own mine at_q ?_ lt_q lt
    rw [count_append, count_append, A.first q lt_q, few, count_commFence, if_pos rfl]
  refine ⟨?_, P⟩
  have H : s.Has p (s.left q) (.inc (flag p)) := has_of_past (split h p) (A.parts p lt) P (by
    rw [mem_append]
    exact .inr mem_cons_self)
  exact inside_of_has H le

lemma all_done (at_p : s.pc p = some (d, [])) (lt_p : p < n) (lt : q < n) (mem : x ∈ first q ∨ x ∈ second q) :
    s.Has q (s.left p) x := by
  have all := split h p d [] at_p
  rw [append_nil] at all
  rw [all, ← append_nil (prog p)] at at_p
  refine has_of_past (split h q) (A.parts_end lt) (A.came_end h own mine lt_p (over_in at_p) lt) ?_
  rw [mem_append, mem_append, mem_append]
  exact .inl (mem.imp_right .inr)

end Phases

/-! ## Scripts that only wait at fences -/

/-- Each wait is one of a fence of all, to which all come equally often. -/
structure Fenced (prog : Nat → List (Instr C L)) (flag : Nat → C) (n c : Nat) : Prop where
  waitLt : ∀ p a b, .waitLt a b ∉ prog p
  waitReg : ∀ p a, .waitReg a ∉ prog p
  waitLe : ∀ p a b, .waitLe a b ∈ prog p → a = flag p ∧ ∃ i < n, b = flag i
  count : ∀ p < n, (prog p).count (.inc (flag p)) = c

lemma rest_step {a : Label L α} (st : Step prog owner s a s') (is : a = .run p ∨ a = .ret p)
    (inside : s.Inside p k) :
    rest s' k p < rest s k p ∧ ∀ q, q ≠ p → rest s' k q = rest s k q := by
  cases st with
  | enter | set => obtain is | is := is <;> cases is
  | @run r d x t m at_r ex =>
    obtain rfl : r = p := by
      obtain is | is := is
      · exact Label.run.inj is
      · cases is
    obtain ⟨pc, left, -, -⟩ := exec_frame ex
    refine ⟨?_, fun q ne => rest_eq (Function.update_of_ne ne ..) (congrFun left q)⟩
    rw [rest_in at_r, rest_in (Function.update_self ..), if_pos inside.1, if_pos ((congrFun left r).trans inside.1)]
    exact Nat.lt_succ_self _
  | @ret r d at_r =>
    obtain rfl : r = p := by
      obtain is | is := is
      · cases is
      · exact Label.ret.inj is
    refine ⟨?_, fun q ne => rest_eq (Function.update_of_ne ne ..) (Function.update_of_ne ne ..)⟩
    rw [rest_in at_r, rest_out (Function.update_self ..), if_pos inside.1]
    exact Nat.one_pos

lemma machine_some {a : Label L α} (lt : a.rank < n) (can : (step prog owner s a).isSome) :
    ∃ s', (machine n prog owner).step s a = some s' := by
  obtain ⟨s', st⟩ := Option.isSome_iff_exists.1 can
  exact ⟨s', (if_pos lt).trans st⟩

lemma Fenced.goes (F : Fenced prog flag n c) (own : ∀ p c, .inc c ∈ prog p → by_ c = p)
    (mine : ∀ i, by_ (flag i) = i)
    (h : (machine n prog owner).Reach g s) (came : ∀ p < n, Came s p k) (lt : q < n) (inside : s.Inside q k) :
    ∃ p a s', p < n ∧ s.Inside p k ∧ (a = .run p ∨ a = .ret p) ∧
      (machine n prog owner).step s a = some s' := by
  classical
  -- the one that has come to fewest fences
  obtain ⟨p, isIn, least⟩ := Finset.exists_min_image ((Finset.range n).filter fun p => s.Inside p k)
    (fun p => s.count (flag p)) ⟨q, Finset.mem_filter.2 ⟨Finset.mem_range.2 lt, inside⟩⟩
  obtain ⟨lt_p, in_p⟩ := Finset.mem_filter.1 isIn
  have lt_p := Finset.mem_range.1 lt_p
  have fewest i (lt_i : i < n) : s.count (flag p) ≤ s.count (flag i) := by
    obtain left | in_i := came i lt_i
    · rw [count_eq own h, count_eq own h, mine, mine, State.executed, State.executed, F.count p lt_p, F.count i lt_i,
        in_p.1]
      have le := count_done_le (x := .inc (flag p)) (split h p)
      rw [F.count p lt_p] at le
      have mul := Nat.mul_le_mul_right c left
      rw [Nat.succ_mul] at mul
      omega
    · exact least i (Finset.mem_filter.2 ⟨Finset.mem_range.2 lt_i, in_i⟩)
  cases at_p : s.pc p with
  | none => exact absurd at_p in_p.2
  | some r =>
    obtain ⟨d, _ | ⟨x, t⟩⟩ := r
    · obtain ⟨s', st⟩ := machine_some (a := .ret p) lt_p (s := s) (by simp only [step, at_p, Option.isSome])
      exact ⟨p, .ret p, s', lt_p, in_p, .inr rfl, st⟩
    · have mem : x ∈ prog p := by
        rw [← split h p d (x :: t) at_p]
        exact mem_append_right d mem_cons_self
      have goes : ∃ m, exec p s x = some m := by
        cases x with
        | inc | load | copy | add => exact ⟨_, rfl⟩
        | waitLt a b => exact absurd mem (F.waitLt p a b)
        | waitReg a => exact absurd mem (F.waitReg p a)
        | waitLe a b =>
          obtain ⟨rfl, i, lt_i, rfl⟩ := F.waitLe p a b mem
          exact ⟨s, if_pos (fewest i lt_i)⟩
      obtain ⟨m, ex⟩ := goes
      obtain ⟨s', st⟩ := machine_some (a := .run p) lt_p (s := s)
        (by simp only [step, at_p, ex, Option.map, Option.isSome])
      exact ⟨p, .run p, s', lt_p, in_p, .inl rfl, st⟩

/-- Where all have come to a call, all can return from it. -/
theorem Fenced.returns (F : Fenced prog flag n c) (own : ∀ p c, .inc c ∈ prog p → by_ c = p)
    (mine : ∀ i, by_ (flag i) = i) (h : (machine n prog owner).Reachable s) (came : ∀ p < n, Came s p k) :
    ∃ as s', (machine n prog owner).run (fun _ _ => True) s as = some s' ∧ ∀ p < n, k < s'.left p := by
  refine Machine.run_to (P := fun s => (machine n prog owner).Reachable s ∧ ∀ p < n, Came s p k)
    (fun s => ∑ p ∈ Finset.range n, rest s k p) (fun s hs not => ?_) ⟨h, came⟩
  obtain ⟨h, came⟩ := hs
  have inside : ∃ q < n, s.Inside q k := by
    by_contra none
    refine not fun q lt => ?_
    obtain left | inside := came q lt
    · exact left
    · exact absurd ⟨q, lt, inside⟩ none
  obtain ⟨q, lt, inside⟩ := inside
  obtain ⟨p, a, s', lt_p, in_p, is, st⟩ := F.goes own mine h came lt inside
  refine ⟨a, s', trivial, st, ⟨h.step trivial st, fun i lt_i => (came i lt_i).step (machine_step st).2⟩, ?_⟩
  obtain ⟨less, same⟩ := rest_step (machine_step st).2 is in_p
  refine Finset.sum_lt_sum (fun i _ => ?_) ⟨p, Finset.mem_range.2 lt_p, less⟩
  by_cases isP : i = p
  · rw [isP]
    exact Nat.le_of_lt less
  · exact Nat.le_of_eq (same i isP)

end Kupl.Script
