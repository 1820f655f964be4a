import Kupl.Fence.Doubling

/-!
# Nobody leaves the fence by recursive doubling early

`Inv` holds in every state of a run: the fences of two meet `Peer.Inv`, nobody has gone on from a step before its
partner was there, and every rank is as its stage says (`View.Ok`). From it, who has left a fence has all in it
(`Inv.left_le`), so that no rank is more than one fence ahead of another, and a rank that waits for its partner finds a
flag high enough exactly if this one has raised it in the same fence (`Inv.seen_iff`).
-/

namespace Kupl.Fence.Doubling
open Sync

variable {n p q i k : Nat} {s : State}

/-- The place of a rank in a fence of `loops` steps. -/
def Stage.place (loops : Nat) (pc : Peer.Pc) : Stage → Nat
  | .out => 0
  | .pre => 1
  | .preWait => 1 + pc.place
  | .get i _ => 6 + 3 * i
  | .set i _ _ => 7 + 3 * i
  | .wait i _ _ => 8 + 3 * i
  | .reset => 7 + 3 * loops
  | .post => 8 + 3 * loops
  | .postWait => 8 + 3 * loops + pc.place

/-- One for a rank that has gone on to the next flag. -/
def Stage.turned : Stage → Nat
  | .post | .postWait => 1
  | _ => 0

/-- The fences of two that are over. -/
def Stage.met : Stage → Nat
  | .out | .pre | .preWait => 0
  | _ => 1

/-- How often the flag has been raised. -/
def Stage.count (loops : Nat) : Stage → Nat
  | .out | .pre | .preWait => 0
  | .get i _ | .set i _ _ => i
  | .wait i _ _ => i + 1
  | .reset | .post | .postWait => loops

/-- One for a rank in a fence. -/
def Stage.inside : Stage → Nat
  | .out => 0
  | _ => 1

/-- All that belongs to a rank. -/
structure View where
  flags : Nat → Int
  flagIdx : Nat
  stage : Stage
  left : Nat
  pc : Peer.Pc
  met : Nat → Nat

namespace State

def view (n : Nat) (s : State) (p : Nat) : View :=
  ⟨fun i => s.getFlag n p (i % 3), s.flagIdx p, s.stage p, s.left p, s.pair.pc p, s.pair.left p⟩

def entered (s : State) (p : Nat) : Nat := s.left p + (s.stage p).inside

def pos (n : Nat) (s : State) (p : Nat) : Nat ×ₗ Nat :=
  at_ (s.left p) ((s.stage p).place (Nat.log 2 n) (s.pair.pc p))

end State

/-- What a rank at a stage works with: its step, the height of its flag, and the rank that it is in a fence of two
with. -/
def Stage.Ok (n p : Nat) (pc : Peer.Pc) : Stage → Prop
  | .out | .pre | .reset | .post => pc = .out
  | .preWait | .postWait => ∃ q, remote n p = some q ∧ pc.remote = some q
  | .get i leap => i ≤ Nat.log 2 n ∧ leap = 2 ^ i ∧ pc = .out
  | .set i leap thisFlagVal | .wait i leap thisFlagVal =>
    i < Nat.log 2 n ∧ leap = 2 ^ i ∧ thisFlagVal = ((i + 1 : Nat) : Int) ∧ pc = .out

/-- A rank has its flag of this fence as high as it has come, the next one is clear, and the last one is as high as
it was until it is cleared. -/
structure View.Ok (n p : Nat) (v : View) : Prop where
  idx : v.flagIdx = (v.left + v.stage.turned) % 3
  stage : v.stage.Ok n p v.pc
  met : ∀ q, remote n p = some q → v.met q = 2 * v.left + v.stage.met
  flag : v.flags v.left = (v.stage.count (Nat.log 2 n) : Nat)
  next : v.flags (v.left + 1) = 0
  last : v.flags (v.left + 2) = if v.left = 0 ∨ v.stage.turned = 1 then 0 else ((Nat.log 2 n : Nat) : Int)

/-- At the end of a step a rank waits for its partner to have raised its flag as often. -/
def waits (n : Nat) : Waits Nat (Nat ×ₗ Nat) := fun p j q t =>
  ∃ k, ∃ i < Nat.log 2 n, q = partner (2 ^ i) p ∧ q < n ∧ j = at_ k (8 + 3 * i) ∧ t = j

/-- The invariant: nobody has gone on early. -/
structure Inv (n : Nat) (s : State) : Prop where
  pair : Peer.Inv n s.pair
  view : ∀ p < n, (s.view n p).Ok n p
  passed : Passed (waits n) (s.pos n)

/-- The place of a rank says what it has done. -/
structure Stage.Facts (loops c : Nat) (stage : Stage) : Prop where
  inside : (stage.inside = 1 ∧ 1 ≤ c) ∨ (stage.inside = 0 ∧ c = 0)
  met : (stage.met = 1 ∧ 6 ≤ c) ∨ (stage.met = 0 ∧ c < 6)
  turned : (stage.turned = 1 ∧ 8 + 3 * loops ≤ c) ∨ (stage.turned = 0 ∧ c < 8 + 3 * loops)
  count : ∀ i < loops, i + 1 ≤ stage.count loops ↔ 8 + 3 * i ≤ c
  le : c ≤ 12 + 3 * loops

lemma place_pair {pc : Peer.Pc} (is : pc.remote = some q) : 1 ≤ pc.place ∧ pc.place ≤ 4 := by
  cases pc with
  | out => cases is
  | read | write | probe | wait => simp only [Peer.Pc.place, Nat.reduceLeDiff, le_refl, and_self]

lemma Stage.Ok.facts {stage : Stage} {pc : Peer.Pc} (ok : stage.Ok n p pc) :
    stage.Facts (Nat.log 2 n) (stage.place (Nat.log 2 n) pc) := by
  cases stage with
  | preWait | postWait =>
    obtain ⟨q, -, is⟩ := ok
    have bounds := place_pair is
    constructor <;> dsimp only [place, inside, met, turned, count] <;> omega
  | get | set | wait =>
    have lt := ok.1
    constructor <;> dsimp only [place, inside, met, turned, count] <;> omega
  | out | pre | reset | post => constructor <;> dsimp only [place, inside, met, turned, count] <;> omega

lemma Stage.Ok.at_pair {stage : Stage} {pc : Peer.Pc} (ok : stage.Ok n p pc) (is : remote n p = some q) :
    (pc.at q = 0 ∧ (stage.place (Nat.log 2 n) pc ≤ 1 ∨ 6 ≤ stage.place (Nat.log 2 n) pc) ∧
      stage.place (Nat.log 2 n) pc ≤ 8 + 3 * Nat.log 2 n) ∨
    (1 ≤ pc.at q ∧ ((stage.place (Nat.log 2 n) pc = 1 + pc.at q ∧ stage.met = 0) ∨
      (stage.place (Nat.log 2 n) pc = 8 + 3 * Nat.log 2 n + pc.at q ∧ stage.met = 1))) := by
  have out (isOut : pc = .out) : pc.at q = 0 := by
    rw [isOut]
    rfl
  cases stage with
  | out | pre | reset | post => exact .inl ⟨out ok, by dsimp only [place]; omega⟩
  | get =>
    have lt := ok.1
    exact .inl ⟨out ok.2.2, by dsimp only [place]; omega⟩
  | set | wait =>
    have lt := ok.1
    exact .inl ⟨out ok.2.2.2, by dsimp only [place]; omega⟩
  | preWait =>
    obtain ⟨q', is', pair⟩ := ok
    cases is.symm.trans is'
    rw [Peer.Pc.at_self pair]
    exact .inr ⟨(place_pair pair).1, .inl ⟨rfl, rfl⟩⟩
  | postWait =>
    obtain ⟨q', is', pair⟩ := ok
    cases is.symm.trans is'
    rw [Peer.Pc.at_self pair]
    exact .inr ⟨(place_pair pair).1, .inr ⟨rfl, rfl⟩⟩

namespace Inv

lemma facts (I : Inv n s) (lt : p < n) :
    (s.stage p).Facts (Nat.log 2 n) ((s.stage p).place (Nat.log 2 n) (s.pair.pc p)) := (I.view p lt).stage.facts

/-! ## Nobody leaves before all have entered -/

section
variable (I : Inv n s)
include I

lemma partner_there {j : Nat ×ₗ Nat} (before : j < s.pos n p) (is : j = at_ k (8 + 3 * i))
    (lt_i : i < Nat.log 2 n) (lt : partner (2 ^ i) p < n) : j ≤ s.pos n (partner (2 ^ i) p) :=
  I.passed p j before _ j ⟨k, i, lt_i, rfl, lt, is, rfl⟩

section
variable (lt : p < n)
include lt

lemma all_there (lt_p : p < 2 ^ Nat.log 2 n) (lt_q : q < 2 ^ Nat.log 2 n)
    (done : at_ k (6 + 3 * Nat.log 2 n) ≤ s.pos n p) : at_ k 6 ≤ s.pos n q := by
  have le := near_le lt
  refine all_reached (R := fun i r => at_ k (6 + 3 * i) ≤ s.pos n r) (fun i lt_i r lt_r reached => ?_) lt_p done lt_q
  have before : at_ k (8 + 3 * i) < s.pos n r := by
    apply lt_of_lt_of_le _ reached
    rw [at_lt]
    omega
  have le_at : at_ k (6 + 3 * i) ≤ at_ k (8 + 3 * i) := by
    rw [at_le]
    omega
  constructor
  · exact le_at.trans before.le
  · apply le_at.trans
    exact I.partner_there before rfl lt_i ((partner_lt lt_i lt_r).trans_le le)

lemma entered_of (there : at_ k 1 ≤ s.pos n p) : k < s.entered p := by
  have facts := I.facts lt
  rw [State.pos, at_le] at there
  have inside := facts.inside
  rw [State.entered]
  omega

omit lt in
omit I in
lemma entered_le : s.entered p ≤ s.left p + 1 := by
  rw [State.entered]
  cases s.stage p <;> simp only [Stage.inside] <;> omega

lemma met_written (is : remote n p = some q) : (2 * k < s.pair.written p q → at_ k 1 ≤ s.pos n p) ∧
    (2 * k + 1 < s.pair.written p q → at_ k (8 + 3 * Nat.log 2 n) ≤ s.pos n p) ∧
    (at_ k 6 ≤ s.pos n p → 2 * k < s.pair.left p q) ∧
    (at_ (k + 1) 0 ≤ s.pos n p → 2 * k + 1 < s.pair.left p q) ∧
    (at_ k 5 ≤ s.pos n p → 2 * k < s.pair.written p q) ∧
    (at_ k (12 + 3 * Nat.log 2 n) ≤ s.pos n p → 2 * k + 1 < s.pair.written p q) := by
  have view := I.view p lt
  have met : s.pair.left p q = 2 * s.left p + (s.stage p).met := view.met q is
  have ok : (s.stage p).Ok n p (s.pair.pc p) := view.stage
  have pair := ok.at_pair is
  have small : (s.pair.pc p).at q ≤ 4 := Peer.Pc.at_small
  have facts := ok.facts.met
  rw [State.pos, at_le, at_le, at_le, at_le, at_le, at_le, Peer.State.written, met]
  split <;> omega

lemma remote_there (is : remote n p = some q) (there : at_ k 6 ≤ s.pos n p) : at_ k 1 ≤ s.pos n q := by
  apply (I.met_written (remote_lt lt is) (remote_symm lt is)).1
  exact ((I.met_written lt is).2.2.1 there).trans_le (I.pair.left_le p q)

lemma all_entered (lt_p : p < 2 ^ Nat.log 2 n)
    (done : at_ k (6 + 3 * Nat.log 2 n) ≤ s.pos n p) (lt_q : q < n) : at_ k 1 ≤ s.pos n q := by
  obtain below | beyond := lt_or_ge q (2 ^ Nat.log 2 n)
  · refine le_trans ?_ (I.all_there lt lt_p below done)
    rw [at_le]
    omega
  · obtain ⟨r, below, lt_r, is⟩ := remote_beyond lt_q beyond
    have there := I.all_there lt lt_p below done
    exact I.remote_there lt_r (remote_symm lt_q is) there

lemma left_there (left : k < s.left p) (lt_q : q < n) : at_ k 1 ≤ s.pos n q := by
  have passed : at_ (k + 1) 0 ≤ s.pos n p := by
    rw [State.pos, at_le]
    omega
  obtain below | beyond := lt_or_ge p (2 ^ Nat.log 2 n)
  · refine I.all_entered lt below (le_trans ?_ passed) lt_q
    rw [at_le]
    omega
  · obtain ⟨r, below, lt_r, is⟩ := remote_beyond lt beyond
    have written := ((I.met_written lt is).2.2.2.1 passed).trans_le (I.pair.left_le p r)
    have there := (I.met_written lt_r (remote_symm lt is)).2.1 written
    refine I.all_entered lt_r below (le_trans ?_ there) lt_q
    rw [at_le]
    omega

lemma left_le (lt_q : q < n) : s.left p ≤ s.entered q := by
  by_contra before
  obtain ⟨k, isK⟩ : ∃ k, s.left p = k + 1 := ⟨s.left p - 1, by omega⟩
  have := I.entered_of lt_q (I.left_there (k := k) lt (by omega) lt_q)
  omega

lemma flag : s.getFlag n p (s.left p % 3) = ((s.stage p).count (Nat.log 2 n) : Nat) :=
  (I.view p lt).flag

lemma seen_iff {leap : Nat} {v : Int} (stage : s.stage p = .wait i leap v)
    (lt_q : partner (2 ^ i) p < n) : v ≤ s.getFlag n (partner (2 ^ i) p) (s.flagIdx p) ↔
      at_ (s.left p) (8 + 3 * i) ≤ s.pos n (partner (2 ^ i) p) := by
  obtain ⟨q, isQ⟩ : ∃ q, q = partner (2 ^ i) p := ⟨_, rfl⟩
  rw [← isQ] at lt_q ⊢
  have back : partner (2 ^ i) q = p := by
    rw [isQ]
    exact partner_partner (Nat.two_pow_pos i)
  have ok : (s.stage p).Ok n p (s.pair.pc p) := (I.view p lt).stage
  have idx : s.flagIdx p = (s.left p + (s.stage p).turned) % 3 := (I.view p lt).idx
  rw [stage] at ok idx
  obtain ⟨lt_i, -, isV, -⟩ := ok
  have idx : s.flagIdx p = s.left p % 3 := idx
  have facts := I.facts lt_q
  have view := I.view q lt_q
  have ahead := (I.left_le lt_q lt).trans entered_le
  have behind := (I.left_le lt lt_q).trans entered_le
  rw [idx, isV, State.pos, at_le]
  obtain before | same | after : s.left q + 1 = s.left p ∨ s.left q = s.left p ∨ s.left q = s.left p + 1 := by omega
  · -- the partner still has to clear nothing: its next flag is clear
    have flag : s.getFlag n q (s.left p % 3) = 0 := by
      rw [← before]
      exact view.next
    rw [flag]
    omega
  · have flag : s.getFlag n q (s.left p % 3) = ((s.stage q).count (Nat.log 2 n) : Nat) := by
      rw [← same]
      exact view.flag
    have count := facts.count i lt_i
    rw [flag]
    omega
  · -- the partner has not cleared the flag: it would have met this rank in the next fence
    have turned : (s.stage q).turned ≠ 1 := by
      intro turned
      have far := facts.turned
      have there : at_ (s.left q) (8 + 3 * i) < s.pos n q := by
        rw [State.pos, at_lt]
        omega
      have met := I.partner_there there rfl lt_i (by rwa [back])
      rw [back, State.pos, at_le] at met
      omega
    have last : s.getFlag n q ((s.left q + 2) % 3) =
        if s.left q = 0 ∨ (s.stage q).turned = 1 then 0 else ((Nat.log 2 n : Nat) : Int) := view.last
    have slot : (s.left q + 2) % 3 = s.left p % 3 := by omega
    rw [slot, if_neg (by omega)] at last
    rw [last]
    omega

end

end

end Inv
end Kupl.Fence.Doubling
