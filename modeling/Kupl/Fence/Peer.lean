import Kupl.Fence.Linear

/-!
# The fence of two (`kupl_fence_peer.cpp`)

Each rank of a communicator goes through `kupl_fence_peer_wait` with one rank after the other, as it likes: `machine`.
A rank has three flags for each other rank; it changes the one whose turn it is, and waits until the other one shows
the same value in its flag for the rank. It would leave without a wait if this flag could not be read.

`left p q` counts the fences with `q` that rank `p` has left, `written p q` those in which it has changed its flag. The
two sides of a pair keep in step whatever else the two ranks do: `Passed (waits n) s.pos` is about pairs.
-/

namespace Kupl.Fence.Peer
open Sync
open Function (forall_update_iff update update_of_ne update_self)

/-- (C++ `KUPL_ERROR`). -/
def kuplError : Int := -1

/-- Where a rank is: out of the fence, or in it with another one. -/
inductive Pc where
  | out
  | read (remote : Nat)
  | write (remote : Nat) (thisVal : Int)
  | probe (remote : Nat) (thisVal : Int)
  | wait (remote : Nat) (thisVal : Int)
deriving DecidableEq

structure State where
  win : Window
  flagPeerIdx : Nat → Nat → Nat
  pc : Nat → Pc
  left : Nat → Nat → Nat

namespace State

def goto (s : State) (p : Nat) (pc : Pc) : State := { s with pc := update s.pc p pc }

/-- A rank leaves the fence with `q`. -/
def leave (s : State) (p q : Nat) : State := { s with
  pc := update s.pc p .out
  left := update s.left p (update (s.left p) q (s.left p q + 1)) }

/-- It goes on to the next flag for `q`. -/
def next (s : State) (p q : Nat) : State := { s with
  flagPeerIdx := update s.flagPeerIdx p
    (update (s.flagPeerIdx p) q ((s.flagPeerIdx p q + 1) % flagWinSize)) }

end State

/-- A step of a rank in the fence (C++ `kupl_fence_peer_wait`, `kupl_shm_peer_fence_internal`). -/
def run (n : Nat) (s : State) (p : Nat) : Option State :=
  match s.pc p with
  | .out => none
  | .read q => some (s.goto p (.write q (1 - getFlag s.win false n p q (s.flagPeerIdx p q))))
  | .write q thisVal =>
    some { s.goto p (.probe q thisVal) with win := setFlag s.win false n p thisVal q (s.flagPeerIdx p q) }
  | .probe q thisVal =>
    if getFlag s.win false n q p (s.flagPeerIdx p q) = kuplError then some (s.leave p q)
    else some (s.goto p (.wait q thisVal))
  | .wait q thisVal =>
    if getFlag s.win false n q p (s.flagPeerIdx p q) = thisVal then some ((s.next p q).leave p q) else some s

/-- A rank enters the fence with another one (C++ `kupl_shm_peer_fence`). -/
def enter (n : Nat) (s : State) (p remote : Nat) : Option State :=
  match s.pc p with
  | .out => if remote < n then some (s.goto p (.read remote)) else none
  | _ => none

/-- A rank enters a fence, or goes on in it. -/
inductive Label where
  | enter (p remote : Nat)
  | run (p : Nat)

/-- The state before the first fence. -/
def start : State := ⟨fun _ _ => 0, fun _ _ => 0, fun _ => .out, fun _ _ => 0⟩

/-- The fences of two of `n` ranks. -/
def machine (n : Nat) : Machine State Label where
  init s := s = start
  step s
    | .enter p remote => if p < n then enter n s p remote else none
    | .run p => if p < n then run n s p else none

variable {n p q k : Nat} {s s' : State}

def Pc.place : Pc → Nat
  | .out => 0
  | .read _ => 1
  | .write _ _ => 2
  | .probe _ _ => 3
  | .wait _ _ => 4

/-- The rank that a rank is in a fence with. -/
def Pc.remote : Pc → Option Nat
  | .out => none
  | .read q | .write q _ | .probe q _ | .wait q _ => some q

/-- The place of a rank in a fence with `q`. -/
def Pc.at (pc : Pc) (q : Nat) : Nat := if pc.remote = some q then pc.place else 0

namespace State

/-- The fences with `q` that rank `p` has entered. -/
def entered (s : State) (p q : Nat) : Nat := s.left p q + if 0 < (s.pc p).at q then 1 else 0

/-- The fences with `q` in which rank `p` has changed its flag. -/
def written (s : State) (p q : Nat) : Nat := s.left p q + if 2 < (s.pc p).at q then 1 else 0

/-- The position of one side of a pair. -/
def pos (s : State) (e : Nat × Nat) : Nat ×ₗ Nat := at_ (s.left e.1 e.2) ((s.pc e.1).at e.2)

lemma written_iff : k < s.written p q ↔ at_ k 3 ≤ s.pos (p, q) := by
  rw [pos, at_le, written]
  dsimp only
  split <;> omega

lemma written_bounds : s.left p q ≤ s.written p q ∧ s.written p q ≤ s.entered p q ∧
    s.entered p q ≤ s.left p q + 1 := by
  rw [written, entered]
  split <;> split <;> omega

end State

/-- At the end of a fence one side of a pair waits for the other one to have changed its flag. -/
def waits : Waits (Nat × Nat) (Nat ×ₗ Nat) := fun e j e' t => e' = e.swap ∧ ∃ k, j = at_ k 4 ∧ t = at_ k 3

/-- The value that a rank in the fence with another one works with. -/
def Pc.Ok (n : Nat) (left : Nat → Nat) : Pc → Prop
  | .out => True
  | .read q => q < n
  | .write q thisVal | .probe q thisVal | .wait q thisVal => q < n ∧ thisVal = toggle 3 (left q % 3) (left q + 1)

/-- The invariant: every flag holds what the changes of its rank have made of it, and nobody has gone on early. -/
structure Inv (n : Nat) (s : State) : Prop where
  idx : ∀ p < n, ∀ q < n, s.flagPeerIdx p q = s.left p q % 3
  pc : ∀ p < n, (s.pc p).Ok n (s.left p)
  flag : ∀ p < n, ∀ q < n, ∀ i < 3, getFlag s.win false n p q i = toggle 3 i (s.written p q)
  passed : Passed waits s.pos

/-- A rank that is in a fence with `q`, if it is in one at all. -/
def Pc.Only (pc : Pc) (q : Nat) : Prop := ∀ q', q' ≠ q → pc.at q' = 0

lemma Pc.at_out : Pc.out.at q = 0 := rfl

lemma Pc.only_out : Pc.out.Only q := fun _ _ => rfl

lemma Pc.at_self {pc : Pc} (is : pc.remote = some q) : pc.at q = pc.place := if_pos is

lemma Pc.only {pc : Pc} (is : pc.remote = some q) : pc.Only q := by
  intro q' ne
  rw [Pc.at, is, if_neg]
  exact fun h => ne (Option.some.inj h).symm

lemma Pc.at_small {pc : Pc} : pc.at q ≤ 4 := by
  rw [Pc.at]
  split
  · cases pc <;> simp only [Pc.place, Nat.reduceLeDiff]
  · exact Nat.zero_le 4

/-- A rank goes on in a fence with `q`, or leaves it. Nobody else does anything. -/
structure Moves (n p q : Nat) (s s' : State) : Prop where
  pc : ∀ r, r ≠ p → s'.pc r = s.pc r
  left : ∀ r, r ≠ p → s'.left r = s.left r
  comm : ∀ r, ∀ i < 3, getFlag s'.win true n r 0 i = getFlag s.win true n r 0 i
  own : ((s'.pc p).remote = some q ∧ (s.pc p).place < (s'.pc p).place ∧ s'.left p = s.left p) ∨
    (s'.pc p = .out ∧ s'.left p = update (s.left p) q (s.left p q + 1))

lemma isFlag {i : Nat} (lt : q < n) (small : i < 3) : IsFlag false n q i := ⟨lt, small⟩

namespace State

lemma written_eq (same : s'.pos (p, q) = s.pos (p, q)) : s'.written p q = s.written p q := by
  obtain ⟨left, place⟩ := at_inj same
  rw [written, written, left, place]

lemma pos_goto {pc : Pc} (only : (s.pc p).Only q) (only' : pc.Only q) :
    (s.goto p pc).pos = update s.pos (p, q) (at_ (s.left p q) (pc.at q)) := by
  funext ⟨p', q'⟩
  by_cases isP : p' = p
  · subst isP
    by_cases isQ : q' = q
    · subst isQ
      rw [update_self]
      dsimp only [pos, goto]
      rw [update_self]
    · rw [update_of_ne fun h => isQ (congrArg Prod.snd h)]
      dsimp only [pos, goto]
      rw [update_self, only q' isQ, only' q' isQ]
  · rw [update_of_ne fun h => isP (congrArg Prod.fst h)]
    dsimp only [pos, goto]
    rw [update_of_ne isP]

lemma pos_leave (only : (s.pc p).Only q) : (s.leave p q).pos = update s.pos (p, q) (at_ (s.left p q + 1) 0) := by
  funext ⟨p', q'⟩
  by_cases isP : p' = p
  · subst isP
    by_cases isQ : q' = q
    · subst isQ
      rw [update_self]
      dsimp only [pos, leave]
      rw [update_self, update_self, update_self]
      rfl
    · rw [update_of_ne fun h => isQ (congrArg Prod.snd h)]
      dsimp only [pos, leave]
      rw [update_self, update_self, update_of_ne isQ, only q' isQ]
      rfl
  · rw [update_of_ne fun h => isP (congrArg Prod.fst h)]
    dsimp only [pos, leave]
    rw [update_of_ne isP, update_of_ne isP]

end State

namespace Inv

section
variable (I : Inv n s)
include I

lemma left_le (p q : Nat) : s.left p q ≤ s.written q p := by
  by_contra before
  obtain ⟨k, isK⟩ : ∃ k, s.left p q = k + 1 := ⟨s.left p q - 1, by omega⟩
  have passed : at_ k 3 ≤ s.pos (q, p) := by
    refine I.passed (p, q) (at_ k 4) ?_ (q, p) _ ⟨rfl, k, rfl, rfl⟩
    rw [State.pos, at_lt]
    dsimp only
    omega
  have := State.written_iff.2 passed
  omega

lemma value_iff (lt : p < n) (lt' : q < n) :
    getFlag s.win false n q p (s.flagPeerIdx p q) = toggle 3 (s.left p q % 3) (s.left p q + 1) ↔
      s.left p q < s.written q p := by
  have own := I.left_le q p
  have bounds := State.written_bounds (s := s) (p := q) (q := p)
  have bounds' := State.written_bounds (s := s) (p := p) (q := q)
  rw [I.idx p lt q lt', I.flag q lt' p lt _ (Nat.mod_lt _ (by decide))]
  exact toggle_eq_iff (I.left_le p q) (by omega)

lemma seen_iff {v : Int} (lt : p < n) (at_p : s.pc p = .wait q v) :
    getFlag s.win false n q p (s.flagPeerIdx p q) = v ↔ s.left p q < s.written q p := by
  have ok := I.pc p lt
  rw [at_p] at ok
  rw [ok.2]
  exact I.value_iff lt ok.1

lemma readable {i : Nat} (lt : p < n) (lt' : q < n) (small : i < 3) : getFlag s.win false n q p i ≠ kuplError := by
  have bounds := toggle_bounds (m := 3) (s := i) (w := s.written q p)
  rw [I.flag q lt' p lt i small, kuplError]
  omega

lemma pc_update {pc : Pc} (ok : pc.Ok n (s.left p)) : ∀ p' < n, (update s.pc p pc p').Ok n (s.left p') :=
  (forall_update_iff s.pc fun p' pc => p' < n → pc.Ok n (s.left p')).2 ⟨fun _ => ok, fun p' _ => I.pc p'⟩

lemma goto (pc : Pc) (ok : pc.Ok n (s.left p)) (only : (s.pc p).Only q) (only' : pc.Only q)
    (le : (s.pc p).at q ≤ pc.at q) (same : 2 < (s.pc p).at q ↔ 2 < pc.at q) : Inv n (s.goto p pc) := by
  refine ⟨I.idx, I.pc_update ok, fun p' lt q' lt' i lt_i => ?_, ?_⟩
  · have written : (s.goto p pc).written p' q' = s.written p' q' := by
      by_cases isPair : (p', q') = (p, q)
      · obtain ⟨rfl, rfl⟩ := Prod.mk.inj isPair
        have self : (s.goto p' pc).pc p' = pc := update_self ..
        rw [State.written, State.written, self, if_congr same rfl rfl]
        rfl
      · apply State.written_eq
        rw [State.pos_goto only only', update_of_ne isPair]
    rw [written]
    exact I.flag p' lt q' lt' i lt_i
  · rw [State.pos_goto only only']
    apply I.passed.advance
    · exact at_le.2 (.inr ⟨rfl, le⟩)
    · rintro j low high e' t ⟨-, k, rfl, rfl⟩
      rw [State.pos, at_le] at low
      rw [at_lt] at high
      dsimp only at low
      have : pc.at q ≤ 4 := Pc.at_small
      omega

lemma write (lt : p < n) {v : Int} (at_p : s.pc p = .write q v) :
    Inv n { s.goto p (.probe q v) with win := setFlag s.win false n p v q (s.flagPeerIdx p q) } := by
  have ok := I.pc p lt
  rw [at_p] at ok
  obtain ⟨lt_q, isV⟩ := ok
  have idx := I.idx p lt q lt_q
  have small : s.flagPeerIdx p q < 3 := by omega
  have only : (s.pc p).Only q := by
    rw [at_p]
    exact Pc.only rfl
  have only' : (Pc.probe q v).Only q := Pc.only rfl
  have before : (s.pc p).at q = 2 := by
    rw [at_p]
    exact Pc.at_self rfl
  have after : (Pc.probe q v).at q = 3 := Pc.at_self rfl
  have written : s.written p q = s.left p q := by
    rw [State.written, before]
    rfl
  have written' : (s.goto p (.probe q v)).written p q = s.left p q + 1 := by
    have self : (s.goto p (.probe q v)).pc p = .probe q v := update_self ..
    rw [State.written, self, after]
    rfl
  refine ⟨I.idx, I.pc_update ⟨lt_q, isV⟩, fun p' lt' q' lt_q' i lt_i => ?_, ?_⟩
  · show getFlag (setFlag s.win false n p v q (s.flagPeerIdx p q)) false n p' q' i =
      toggle 3 i ((s.goto p (.probe q v)).written p' q')
    rw [getFlag_setFlag (isFlag lt_q small) (isFlag lt_q' lt_i)]
    by_cases isPair : (p', q') = (p, q)
    · obtain ⟨rfl, rfl⟩ := Prod.mk.inj isPair
      rw [written']
      by_cases isIdx : i = s.flagPeerIdx p' q'
      · rw [if_pos ⟨rfl, rfl, rfl, isIdx⟩, isIdx, idx]
        exact isV
      · rw [if_neg fun h => isIdx h.2.2.2, I.flag p' lt q' lt_q i lt_i, written, toggle_succ_ne]
        exact fun h => isIdx (h.symm.trans idx.symm)
    · rw [if_neg fun h => isPair (by rw [h.1, h.2.2.1]), I.flag p' lt' q' lt_q' i lt_i]
      apply congrArg
      apply Eq.symm
      apply State.written_eq
      rw [State.pos_goto only only', update_of_ne isPair]
  · show Passed waits (s.goto p (.probe q v)).pos
    rw [State.pos_goto only only']
    apply I.passed.advance
    · exact at_le.2 (.inr ⟨rfl, by dsimp only; omega⟩)
    · rintro j low high e' t ⟨-, k, rfl, rfl⟩
      rw [at_lt] at high
      rw [State.pos, at_le] at low
      dsimp only at low
      omega

lemma leave (lt : p < n) {v : Int} (at_p : s.pc p = .wait q v) (seen : s.left p q < s.written q p) :
    Inv n ((s.next p q).leave p q) := by
  have ok := I.pc p lt
  rw [at_p] at ok
  have idx := I.idx p lt q ok.1
  have only : ((s.next p q).pc p).Only q := by
    show (s.pc p).Only q
    rw [at_p]
    exact Pc.only rfl
  have place : (s.pc p).at q = 4 := by
    rw [at_p]
    exact Pc.at_self rfl
  have pos : ((s.next p q).leave p q).pos = update s.pos (p, q) (at_ (s.left p q + 1) 0) :=
    State.pos_leave only
  refine ⟨fun p' lt' q' lt_q' => ?_, fun p' lt' => ?_, fun p' lt' q' lt_q' i lt_i => ?_, ?_⟩
  · show update s.flagPeerIdx p _ p' q' = update s.left p _ p' q' % 3
    by_cases isP : p' = p
    · subst isP
      rw [update_self, update_self]
      by_cases isQ : q' = q
      · subst isQ
        rw [update_self, update_self, idx, flagWinSize]
        exact Nat.mod_add_mod _ 3 1
      · rw [update_of_ne isQ, update_of_ne isQ]
        exact I.idx p' lt' q' lt_q'
    · rw [update_of_ne isP, update_of_ne isP]
      exact I.idx p' lt' q' lt_q'
  · show (update s.pc p .out p').Ok n (update s.left p _ p')
    by_cases isP : p' = p
    · subst isP
      rw [update_self p' Pc.out s.pc]
      exact trivial
    · rw [update_of_ne isP, update_of_ne isP]
      exact I.pc p' lt'
  · have written : ((s.next p q).leave p q).written p' q' = s.written p' q' := by
      by_cases isPair : (p', q') = (p, q)
      · obtain ⟨rfl, rfl⟩ := Prod.mk.inj isPair
        have out : ((s.next p' q').leave p' q').pc p' = .out := update_self ..
        have left : ((s.next p' q').leave p' q').left p' q' = s.left p' q' + 1 := by
          show update s.left p' _ p' q' = _
          rw [update_self, update_self]
          rfl
        rw [State.written, State.written, out, left, place]
        rfl
      · apply State.written_eq
        rw [pos, update_of_ne isPair]
    rw [written]
    exact I.flag p' lt' q' lt_q' i lt_i
  · rw [pos]
    apply I.passed.advance
    · rw [State.pos, at_le]
      exact .inl (Nat.lt_succ_self _)
    · rintro j low high e' t ⟨rfl, k, rfl, rfl⟩
      rw [State.pos, at_le] at low
      rw [at_lt] at high
      dsimp only at low
      have round : k = s.left p q := by omega
      rw [round]
      exact State.written_iff.1 seen

lemma run (lt : p < n) (st : run n s p = some s') : Inv n s' := by
  unfold Peer.run at st
  cases at_p : s.pc p with
  | out =>
    rw [at_p] at st
    cases st
  | read q =>
    have lt_q := I.pc p lt
    rw [at_p] at lt_q st
    cases st
    have written : s.written p q = s.left p q := by
      rw [State.written, at_p, Pc.at_self rfl]
      rfl
    have value : 1 - getFlag s.win false n p q (s.flagPeerIdx p q) = toggle 3 (s.left p q % 3) (s.left p q + 1) := by
      rw [I.idx p lt q lt_q, I.flag p lt q lt_q _ (Nat.mod_lt _ (by decide)), written, toggle_succ_self]
    refine I.goto (.write q _) ⟨lt_q, value⟩ ?_ (Pc.only rfl) ?_ ?_
    all_goals rw [at_p]
    · exact Pc.only rfl
    · rw [Pc.at_self rfl, Pc.at_self rfl]
      exact Nat.le_succ 1
    · rw [Pc.at_self rfl, Pc.at_self rfl]
      simp only [Pc.place, Nat.reduceLT]
  | write q v =>
    rw [at_p] at st
    cases st
    exact I.write lt at_p
  | probe q v =>
    have ok := I.pc p lt
    rw [at_p] at ok st
    dsimp only at st
    have idx := I.idx p lt q ok.1
    rw [if_neg (I.readable lt ok.1 (by omega))] at st
    cases st
    refine I.goto (.wait q v) ok ?_ (Pc.only rfl) ?_ ?_
    all_goals rw [at_p]
    · exact Pc.only rfl
    · rw [Pc.at_self rfl, Pc.at_self rfl]
      exact Nat.le_succ 3
    · rw [Pc.at_self rfl, Pc.at_self rfl]
      simp only [Pc.place, Nat.reduceLT]
  | wait q v =>
    rw [at_p] at st
    dsimp only at st
    split at st
    case isTrue seen =>
      cases st
      exact I.leave lt at_p ((I.seen_iff lt at_p).1 seen)
    case isFalse =>
      cases st
      exact I

lemma run_moves (lt : p < n) (is : (s.pc p).remote = some q) :
    (Peer.run n s p = some s ∧ (s.pc p).place = 4 ∧ ¬ s.left p q < s.written q p) ∨
      ∃ s', Peer.run n s p = some s' ∧ Moves n p q s s' := by
  have ok := I.pc p lt
  have self {pc : Pc} : (s.goto p pc).pc p = pc := update_self ..
  have others {pc : Pc} (r) (ne : r ≠ p) : (s.goto p pc).pc r = s.pc r := update_of_ne ne ..
  unfold Peer.run
  cases at_p : s.pc p with
  | out =>
    rw [at_p] at is
    cases is
  | read q' =>
    rw [at_p] at is
    cases is
    refine .inr ⟨_, rfl, others, fun _ _ => rfl, fun _ _ _ => rfl, .inl ⟨?_, ?_, rfl⟩⟩
    · rw [self]
      rfl
    · rw [self, at_p]
      exact Nat.lt_succ_self 1
  | write q' v =>
    rw [at_p] at is ok
    cases is
    have small : s.flagPeerIdx p q < 3 := by
      rw [I.idx p lt q ok.1]
      exact Nat.mod_lt _ (by decide)
    refine .inr ⟨_, rfl, others, fun _ _ => rfl, fun r i lt_i => ?_, .inl ⟨?_, ?_, rfl⟩⟩
    · rw [getFlag_setFlag (isFlag ok.1 small) (isComm lt_i), if_neg fun h => nomatch h.2.1]
    · show ((s.goto p (.probe q v)).pc p).remote = some q
      rw [self]
      rfl
    · show (s.pc p).place < ((s.goto p (.probe q v)).pc p).place
      rw [self, at_p]
      exact Nat.lt_succ_self 2
  | probe q' v =>
    rw [at_p] at is ok
    cases is
    have small : s.flagPeerIdx p q < 3 := by
      rw [I.idx p lt q ok.1]
      exact Nat.mod_lt _ (by decide)
    dsimp only
    rw [if_neg (I.readable lt ok.1 small)]
    refine .inr ⟨_, rfl, others, fun _ _ => rfl, fun _ _ _ => rfl, .inl ⟨?_, ?_, rfl⟩⟩
    · rw [self]
      rfl
    · rw [self, at_p]
      exact Nat.lt_succ_self 3
  | wait q' v =>
    rw [at_p] at is
    cases is
    dsimp only
    by_cases seen : getFlag s.win false n q p (s.flagPeerIdx p q) = v
    · rw [if_pos seen]
      refine .inr ⟨_, rfl, fun r ne => ?_, fun r ne => ?_, fun _ _ _ => rfl, .inr ⟨?_, ?_⟩⟩
      · exact update_of_ne ne ..
      · exact update_of_ne ne ..
      · exact update_self ..
      · exact update_self ..
    · rw [if_neg seen]
      refine .inl ⟨rfl, rfl, fun written => seen ?_⟩
      exact (I.seen_iff lt at_p).2 written

lemma enter {remote : Nat} (st : enter n s p remote = some s') : Inv n s' := by
  unfold Peer.enter at st
  split at st
  case h_1 at_p =>
    split at st
    case isTrue lt_q =>
      cases st
      refine I.goto (.read remote) lt_q ?_ (Pc.only rfl) ?_ ?_
      all_goals rw [at_p]
      · exact Pc.only_out
      · exact Nat.zero_le _
      · rw [Pc.at_out, Pc.at_self rfl]
        simp only [Pc.place, Nat.reduceLT]
    case isFalse => cases st
  case h_2 => cases st

lemma comm {w : Window} (same : ∀ p < n, ∀ q < n, ∀ i < 3, getFlag w false n p q i =
    getFlag s.win false n p q i) :
    Inv n { s with win := w } := by
  refine ⟨I.idx, I.pc, fun p lt q lt' i small => ?_, I.passed⟩
  rw [same p lt q lt' i small]
  exact I.flag p lt q lt' i small

end

lemma start : Inv n start := by
  refine ⟨fun _ _ _ _ => rfl, fun _ _ => trivial, fun _ _ _ _ i _ => ?_, fun e j before => ?_⟩
  · exact toggle_zero.symm
  · exact absurd before (not_lt.2 (start_le j))

lemma reachable (h : (machine n).Reachable s) : Inv n s := by
  refine h.inv (fun s init => ?_) fun s a s' I _ st => ?_
  · cases init
    exact start
  · cases a with
    | enter p remote => exact I.enter (Option.ite_none_right_eq_some.1 st).2
    | run p =>
      obtain ⟨lt, st⟩ := Option.ite_none_right_eq_some.1 st
      exact I.run lt st

end Inv

end Kupl.Fence.Peer

namespace Kupl.Fence

/-- Neither fence lets a rank go before the others, or the other one, have come. A rank that waits finds the value that
it waits for exactly if the other one has changed its flag in the same fence, however far this one is since then. -/
theorem fences_meet (n : Nat) : (∀ s, (Linear.machine n).Reachable s →
    ∀ p < n, ∀ q < n, s.left p ≤ s.entered q ∧
      ∀ v, s.pc p = .wait q v → (getFlag s.win true n q 0 (s.flagIdx p) = v ↔ s.left p < s.written q)) ∧
    (∀ s, (Peer.machine n).Reachable s → ∀ p < n, ∀ q < n, s.left p q ≤ s.entered q p ∧
      ∀ v, s.pc p = .wait q v →
        (getFlag s.win false n q p (s.flagPeerIdx p q) = v ↔ s.left p q < s.written q p)) := by
  constructor
  · intro s run p lt q lt'
    have I := Linear.Inv.reachable run
    refine ⟨?_, fun v at_p => I.seen_iff lt at_p lt'⟩
    apply (I.left_le p lt').trans
    exact Linear.State.written_bounds.2.1
  · intro s run p lt q lt'
    have I := Peer.Inv.reachable run
    refine ⟨?_, fun v at_p => I.seen_iff lt at_p⟩
    apply (I.left_le p q).trans
    exact Peer.State.written_bounds.2.1

/-- One of two ranks is through the fence of all while another one still waits in it, and one of two is through two
fences with the other one, which is in the second. -/
theorem fences_meet_ahead :
    (∃ s, (Linear.machine 2).Reachable s ∧ s.left 0 = 1 ∧ s.left 1 = 0 ∧ s.pc 1 = .wait 0 1 ∧
      s.left 0 ≤ s.entered 1 ∧
      getFlag s.win true 2 0 0 (s.flagIdx 1) = 1) ∧
    (∃ s, (Peer.machine 2).Reachable s ∧ s.left 0 1 = 2 ∧ s.left 1 0 = 1 ∧ s.pc 1 = .wait 0 1 ∧
      s.left 0 1 ≤ s.entered 1 0 ∧ getFlag s.win false 2 0 1 (s.flagPeerIdx 1 0) = 1) := by
  constructor
  · refine Machine.shown (P := fun s => s.left 0 = 1 ∧ s.left 1 = 0 ∧ s.pc 1 = .wait 0 1)
      (s := (⟨fun _ _ => 0, fun _ => 0, fun _ => .out, fun _ => 0⟩ : Linear.State))
      [.enter 0, .run 0, .run 0, .enter 1,
      .run 1, .run 1,
      .run 0, .run 0, .run 0] rfl (by decide +kernel) fun s run is => ?_
    obtain ⟨left, left', at_1⟩ := is
    have meet := (fences_meet 2).1 s run 0 (by decide) 1 (by decide)
    have meet' := (fences_meet 2).1 s run 1 (by decide) 0 (by decide)
    have bounds := Linear.State.written_bounds (s := s) (p := 0)
    exact ⟨left, left', at_1, meet.1, (meet'.2 1 at_1).2 (by omega)⟩
  · refine Machine.shown (P := fun s => s.left 0 1 = 2 ∧ s.left 1 0 = 1 ∧ s.pc 1 = .wait 0 1) (s := Peer.start)
      [.enter 0 1, .run 0, .run 0, .enter 1 0, .run 1, .run 1, .run 0, .run 0, .run 1, .run 1, .enter 0 1, .run 0, .run
      0,
      .enter 1 0, .run 1, .run 1, .run 0, .run 0, .run 1] rfl (by decide +kernel) fun s run is => ?_
    obtain ⟨left, left', at_1⟩ := is
    have meet := (fences_meet 2).2 s run 0 (by decide) 1 (by decide)
    have meet' := (fences_meet 2).2 s run 1 (by decide) 0 (by decide)
    have bounds := Peer.State.written_bounds (s := s) (p := 0) (q := 1)
    exact ⟨left, left', at_1, meet.1, (meet'.2 1 at_1).2 (by omega)⟩

end Kupl.Fence
