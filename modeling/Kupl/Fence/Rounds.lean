import Kupl.Fence.Steps
import Mathlib.Algebra.Order.BigOperators.Group.Finset

/-!
# Rounds of the fence by recursive doubling

Of the ranks that have not left a fence, one that no other is behind can go on (`Inv.someone_goes`), so that all can
leave it. With the invariant this is what the fence promises: `doubling_fences`.
-/

namespace Kupl.Fence.Doubling
open Sync

variable {n p q i k : Nat} {s s' : State}

namespace Inv

lemma reset_safe (I : Inv n s) (lt : p < n) (stage : s.stage q = .reset) (lt_i : i < Nat.log 2 n)
    (isPeer : partner (2 ^ i) p = q) : s.left q ≤ s.left p := by
  have back : partner (2 ^ i) q = p := by
    rw [← isPeer]
    exact partner_partner (Nat.two_pow_pos i)
  have before : at_ (s.left q) (8 + 3 * i) < s.pos n q := by
    rw [State.pos, stage, at_lt]
    exact .inr ⟨rfl, by dsimp only [Stage.place]; omega⟩
  have there := I.partner_there before rfl lt_i (by rwa [back])
  rw [back, State.pos, at_le] at there
  omega

end Inv

/-- The places that a rank has in front of it until it has left a fence. -/
def rest (n k : Nat) (j : Nat ×ₗ Nat) : Nat :=
  if (ofLex j).1 ≤ k then 13 + 3 * Nat.log 2 n - (ofLex j).2 else 0

lemma rest_lt {c : Nat} {j : Nat ×ₗ Nat} (le : c ≤ 12 + 3 * Nat.log 2 n) (lt : at_ k c < j) :
    rest n k j < rest n k (at_ k c) := by
  obtain ⟨k', c', rfl⟩ : ∃ k' c', j = at_ k' c' := ⟨_, _, rfl⟩
  rw [at_lt] at lt
  show (if k' ≤ k then 13 + 3 * Nat.log 2 n - c' else 0) < if k ≤ k then 13 + 3 * Nat.log 2 n - c else 0
  rw [if_pos le_rfl]
  split <;> omega

namespace Inv

lemma someone_goes (I : Inv n s) (all : ∀ p < n, k < s.entered p) (some_in : ¬ ∀ p < n, k < s.left p) :
    ∃ p < n, s.left p = k ∧ ∃ s', run n s p = some s' ∧ Goes n p s s' := by
  push Not at some_in
  obtain ⟨r, lt_r, le⟩ := some_in
  obtain ⟨p, mem, last⟩ := (Finset.range n).exists_min_image (s.pos n) ⟨r, Finset.mem_range.2 lt_r⟩
  have lt := Finset.mem_range.1 mem
  have before := last r (Finset.mem_range.2 lt_r)
  have entered := all p lt
  have one := entered_le (s := s) (p := p)
  rw [State.pos, State.pos, at_le] at before
  have round : s.left p = k := by omega
  have inside : s.stage p ≠ .out := by
    intro out
    rw [State.entered, out, Stage.inside] at entered
    omega
  obtain ⟨-, q, lt_q, behind⟩ | ⟨s', st, G⟩ := I.run_goes lt inside
  · exact absurd (last q (Finset.mem_range.2 lt_q)) (not_le.2 behind)
  · exact ⟨p, lt, round, s', st, G⟩

lemma all_leave (I : Inv n s) (all : ∀ p < n, k < s.entered p) :
    ∃ as s', (machine n).run (fun _ _ => True) s as = some s' ∧ ∀ p < n, k < s'.left p := by
  refine Machine.run_to (P := fun s => Inv n s ∧ ∀ p < n, k < s.entered p)
    (fun s => ∑ p ∈ Finset.range n, rest n k (s.pos n p)) (fun s h some_in => ?_) ⟨I, all⟩
  obtain ⟨I, all⟩ := h
  obtain ⟨p, lt, round, s', st, G⟩ := I.someone_goes all some_in
  have pos_eq (r) (ne : r ≠ p) : s'.pos n r = s.pos n r := by
    show at_ (s'.view n r).left ((s'.view n r).stage.place (Nat.log 2 n) (s'.view n r).pc) = _
    rw [G.others r ne]
    rfl
  have own : rest n k (s'.pos n p) < rest n k (s.pos n p) := by
    have up := G.up
    have le := (I.facts lt).le
    have pos : s.pos n p = at_ k ((s.stage p).place (Nat.log 2 n) (s.pair.pc p)) := by
      rw [State.pos, round]
    rw [pos] at up ⊢
    exact rest_lt le up
  refine ⟨.run p, s', trivial, ?_, ⟨G.inv, fun r lt_r => ?_⟩, ?_⟩
  · exact (if_pos lt).trans st
  · by_cases same : r = p
    · rw [same]
      apply G.inv.entered_of lt
      apply le_trans _ G.up.le
      have inside := (I.facts lt).inside
      have entered := all p lt
      rw [State.entered] at entered
      rw [State.pos, at_le]
      omega
    · show k < (s'.view n r).left + (s'.view n r).stage.inside
      rw [G.others r same]
      exact all r lt_r
  · apply Finset.sum_lt_sum
    · intro r _
      by_cases same : r = p
      · rw [same]
        exact own.le
      · rw [pos_eq r same]
    · exact ⟨p, Finset.mem_range.2 lt, own⟩

end Inv

/-- In every run, no rank leaves a fence before all have entered it; a rank that clears a flag has all that wait for it
at any step in the same fence or behind it, and none of them waits for the flag that it clears; and where all have
entered a fence, all can leave it. -/
theorem doubling_fences (n : Nat) (s : State) (run : (machine n).Reachable s) :
    (∀ p < n, ∀ q < n, s.left p ≤ s.entered q) ∧
    (∀ q < n, s.stage q = .reset → ∀ p < n,
      (∀ i < (rdCreate n).loopTimes, peerIdx p (2 ^ i) = q → s.left q ≤ s.left p) ∧
      (∀ i leap v, s.stage p = .wait i leap v → peerIdx p leap = q →
        s.flagIdx p ≠ (reuseStep + s.flagIdx q) % flagWinSize)) ∧
    (∀ k, (∀ p < n, k < s.entered p) →
      ∃ as s', (machine n).run (fun _ _ => True) s as = some s' ∧ ∀ p < n, k < s'.left p) := by
  have I := Inv.reachable run
  refine ⟨fun p lt q lt_q => I.left_le lt lt_q, fun q lt_q stage p lt => ⟨fun i lt_i is => ?_, ?_⟩,
    fun k all => I.all_leave all⟩
  · rw [rdCreate_eq] at lt_i
    exact I.reset_safe lt stage lt_i is
  · intro i leap v wait is
    obtain ⟨lt_i, isLeap, -, -⟩ := (I.own lt wait).stage
    have idx : s.flagIdx p = s.left p % 3 := (I.own lt wait).idx
    have idx' : s.flagIdx q = s.left q % 3 := (I.own lt_q stage).idx
    rw [isLeap] at is
    have behind := I.reset_safe lt stage lt_i is
    have ahead := (I.left_le lt lt_q).trans Inv.entered_le
    rw [idx, idx', reuseStep, flagWinSize]
    omega

/-- The first of three ranks is through a fence that the others are still in. -/
theorem doubling_fences_three : ∃ s, (machine 3).Reachable s ∧ s.left 0 = 1 ∧ s.left 2 = 0 ∧
    s.left 0 ≤ s.entered 2 ∧
    ∃ as s', (machine 3).run (fun _ _ => True) s as = some s' ∧ ∀ p < 3, 0 < s'.left p := by
  refine Machine.shown (P := fun s => s.left 0 = 1 ∧ s.left 2 = 0 ∧ ∀ p < (3 : Nat), 0 < s.entered p) (s := start)
    [.enter 0, .enter 1, .enter 2, .run 0, .run 0, .run 0, .run 1, .run 1, .run 1, .run 2, .run 2, .run 2, .run 2,
      .run 2, .run 1, .run 1, .run 1, .run 1, .run 1, .run 0, .run 0, .run 0, .run 0] rfl (by decide +kernel)
    fun s run is => ?_
  obtain ⟨first, last, all⟩ := is
  have meet := doubling_fences 3 s run
  exact ⟨first, last, meet.1 0 (by decide) 2 (by decide), meet.2.2 0 all⟩

end Kupl.Fence.Doubling
