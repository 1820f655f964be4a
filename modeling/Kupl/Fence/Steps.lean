import Kupl.Fence.Lead

/-!
# The steps of a rank in the fence by recursive doubling

A step keeps the invariant, and leads on unless the rank waits for another one that is behind it (`Inv.run_goes`).
-/

namespace Kupl.Fence.Doubling
open Sync
open Function (update update_of_ne update_self)

variable {n p q i k : Nat} {s s' : State}

namespace Inv

lemma moved (I : Inv n s) (pair : Peer.Inv n s'.pair) (others : ∀ r, r ≠ p → s'.view n r = s.view n r)
    (ok : (s'.view n p).Ok n p) (le : s.pos n p ≤ s'.pos n p)
    (ready : ∀ j, s.pos n p ≤ j → j < s'.pos n p → Ready (waits n) (s.pos n) p j) : Inv n s' := by
  have pos : s'.pos n = update (s.pos n) p (s'.pos n p) := by
    funext r
    by_cases same : r = p
    · rw [same, update_self]
    · rw [update_of_ne same]
      have view := others r same
      show at_ (s'.view n r).left ((s'.view n r).stage.place (Nat.log 2 n) (s'.view n r).pc) = _
      rw [view]
      rfl
  refine ⟨pair, fun r lt => ?_, ?_⟩
  · by_cases same : r = p
    · rwa [same]
    · rw [others r same]
      exact I.view r lt
  · rw [pos]
    exact I.passed.advance le ready

lemma moved_within (I : Inv n s) (pair : Peer.Inv n s'.pair) (others : ∀ r, r ≠ p → s'.view n r = s.view n r)
    (ok : (s'.view n p).Ok n p) {c c' : Nat} (pos : s.pos n p = at_ k c) (pos' : s'.pos n p = at_ k c') (le : c ≤ c')
    (none : ∀ i < Nat.log 2 n, c ≤ 8 + 3 * i → c' ≤ 8 + 3 * i) : Inv n s' := by
  apply I.moved pair others ok
  · rw [pos, pos', at_le]
    omega
  · rintro j low high q t ⟨k', i, lt_i, -, -, rfl, -⟩
    rw [pos, at_le] at low
    rw [pos', at_lt] at high
    have := none i lt_i
    omega

end Inv

namespace State
variable {stage : Stage}

lemma view_goto_ne (ne : q ≠ p) : (s.goto p stage).view n q = s.view n q := by
  dsimp only [view, goto]
  rw [update_of_ne ne]
  rfl

lemma view_goto : (s.goto p stage).view n p = { s.view n p with stage := stage } := by
  dsimp only [view, goto]
  rw [update_self]
  rfl

lemma pos_goto : (s.goto p stage).pos n p = at_ (s.left p) (stage.place (Nat.log 2 n) (s.pair.pc p)) := by
  dsimp only [pos, goto]
  rw [update_self]

lemma view_leave_ne (ne : q ≠ p) : (s.leave p).view n q = s.view n q := by
  dsimp only [view, leave]
  rw [update_of_ne ne, update_of_ne ne]
  rfl

lemma getFlag_setFlag {slot : Nat} {v : Int} (small : slot < 3) (small' : i < 3) :
    (s.setFlag n p v slot).getFlag n q i = if q = p ∧ i = slot then v else s.getFlag n q i := by
  dsimp only [getFlag, setFlag]
  rw [Fence.getFlag_setFlag (isComm small) (isComm small')]
  by_cases both : q = p ∧ i = slot
  · rw [if_pos both, if_pos ⟨both.1, rfl, rfl, both.2⟩]
  · rw [if_neg both, if_neg fun h => both ⟨h.1, h.2.2.2⟩]

lemma pos_leave : (s.leave p).pos n p = at_ (s.left p + 1) 0 := by
  dsimp only [pos, leave]
  rw [update_self, update_self]
  rfl

end State

lemma enter_pair {pair : Peer.State} (out : pair.pc p = .out) (lt : q < n) :
    Peer.enter n pair p q = some (pair.goto p (.read q)) := by
  rw [Peer.enter, out]
  exact if_pos lt

namespace Inv

lemma goto (I : Inv n s) (stage : Stage) (ok : ({ s.view n p with stage := stage } : View).Ok n p)
    (le : (s.stage p).place (Nat.log 2 n) (s.pair.pc p) ≤ stage.place (Nat.log 2 n) (s.pair.pc p))
    (none : ∀ i < Nat.log 2 n, (s.stage p).place (Nat.log 2 n) (s.pair.pc p) ≤ 8 + 3 * i →
      stage.place (Nat.log 2 n) (s.pair.pc p) ≤ 8 + 3 * i) : Inv n (s.goto p stage) := by
  refine I.moved_within I.pair (fun r ne => State.view_goto_ne ne) ?_ rfl State.pos_goto le none
  rw [State.view_goto]
  exact ok

lemma enterPair (I : Inv n s) (lt : p < n) (stage : Stage) (is : remote n p = some q) (out : s.pair.pc p = .out)
    (ok : ({ s.view n p with stage := stage, pc := .read q } : View).Ok n p)
    (le : (s.stage p).place (Nat.log 2 n) (s.pair.pc p) ≤ stage.place (Nat.log 2 n) (.read q))
    (none : ∀ i < Nat.log 2 n, (s.stage p).place (Nat.log 2 n) (s.pair.pc p) ≤ 8 + 3 * i →
      stage.place (Nat.log 2 n) (.read q) ≤ 8 + 3 * i) :
    Inv n ({ s with pair := s.pair.goto p (.read q) }.goto p stage) := by
  have Ip := I.pair.enter (enter_pair out (remote_lt lt is))
  have self : (s.pair.goto p (.read q)).pc p = .read q := update_self ..
  have pos : ({ s with pair := s.pair.goto p (.read q) }.goto p stage).pos n p =
      at_ (s.left p) (stage.place (Nat.log 2 n) (.read q)) := by
    rw [State.pos_goto]
    show at_ _ (stage.place _ ((s.pair.goto p (.read q)).pc p)) = _
    rw [self]
  refine I.moved_within Ip (fun r ne => ?_) ?_ rfl pos le none
  · rw [State.view_goto_ne ne]
    dsimp only [State.view, State.getFlag, Peer.State.goto]
    rw [update_of_ne ne]
  · rw [State.view_goto]
    have same : ({ s with pair := s.pair.goto p (.read q) } : State).view n p = { s.view n p with pc := .read q } := by
      dsimp only [State.view, State.getFlag, Peer.State.goto]
      rw [update_self]
    rw [same]
    exact ok

variable {pair : Peer.State}

lemma runPair (I : Inv n s) (lt : p < n) (Ip : Peer.Inv n pair) (M : Peer.Moves n p q s.pair pair)
    (stage : s.stage p = .preWait ∨ s.stage p = .postWait) (is : remote n p = some q)
    (on : (pair.pc p).remote = some q) (up : (s.pair.pc p).place < (pair.pc p).place)
    (left : pair.left p = s.pair.left p) : Inv n { s with pair := pair } := by
  have ok := I.view p lt
  have view : ({ s with pair := pair } : State).view n p = { s.view n p with pc := pair.pc p } := by
    dsimp only [State.view, State.getFlag]
    rw [left]
    congr 1
    funext i
    exact M.comm p _ (Nat.mod_lt i (by decide))
  have bounds := place_pair on
  refine I.moved_within Ip (fun r ne => ?_) ?_ (c := (s.stage p).place (Nat.log 2 n) (s.pair.pc p)) rfl rfl ?_ ?_
  · dsimp only [State.view, State.getFlag]
    rw [M.pc r ne, M.left r ne]
    congr 1
    funext i
    exact M.comm r _ (Nat.mod_lt i (by decide))
  · rw [view]
    refine ⟨ok.idx, ?_, ok.met, ok.flag, ok.next, ok.last⟩
    show (s.stage p).Ok n p (pair.pc p)
    obtain stage | stage := stage
    all_goals
      rw [stage]
      exact ⟨q, is, on⟩
  · obtain stage | stage := stage
    all_goals
      rw [stage]
      dsimp only [Stage.place]
      omega
  · obtain stage | stage := stage
    all_goals
      rw [stage]
      dsimp only [Stage.place]
      omega

lemma runPre (I : Inv n s) (lt : p < n) (Ip : Peer.Inv n pair) (M : Peer.Moves n p q s.pair pair)
    (stage : s.stage p = .preWait) (is : remote n p = some q) (out : pair.pc p = .out)
    (left : pair.left p q = s.pair.left p q + 1) : Inv n ({ s with pair := pair }.goto p (.get 0 1)) := by
  have ok := I.view p lt
  have stageOk : (s.stage p).Ok n p (s.pair.pc p) := ok.stage
  have bounds : (s.pair.pc p).place ≤ 4 := by
    rw [stage] at stageOk
    obtain ⟨q', -, pair⟩ := stageOk
    exact (place_pair pair).2
  have flags : (({ s with pair := pair } : State).view n p).flags = (s.view n p).flags := by
    funext i
    exact M.comm p _ (Nat.mod_lt i (by decide))
  refine I.moved_within Ip (fun r ne => ?_) ?_ rfl State.pos_goto ?_ ?_
  · rw [State.view_goto_ne ne]
    dsimp only [State.view, State.getFlag]
    rw [M.pc r ne, M.left r ne]
    congr 1
    funext i
    exact M.comm r _ (Nat.mod_lt i (by decide))
  · rw [State.view_goto]
    have idx : s.flagIdx p = (s.left p + (s.stage p).turned) % 3 := ok.idx
    have flag : (s.view n p).flags (s.left p) = ((s.stage p).count (Nat.log 2 n) : Nat) := ok.flag
    have last : (s.view n p).flags (s.left p + 2) = if s.left p = 0 ∨ (s.stage p).turned = 1 then 0 else _ := ok.last
    rw [stage] at idx flag last
    rw [← flags] at flag last
    refine ⟨idx, ⟨Nat.zero_le _, rfl, out⟩, fun q' is' => ?_, flag, ?_, last⟩
    · cases is.symm.trans is'
      have before : s.pair.left p q = 2 * s.left p + (s.stage p).met := ok.met q is
      rw [stage] at before
      show pair.left p q = 2 * s.left p + 1
      rw [left, before]
      rfl
    · rw [← ok.next, ← flags]
      rfl
  · rw [stage]
    dsimp only [Stage.place]
    omega
  · rw [stage]
    dsimp only [Stage.place]
    omega

lemma leave (I : Inv n s) (lt : p < n) (Ip : Peer.Inv n pair) (stage : s.stage p = .post ∨ s.stage p = .postWait)
    (others : ∀ r, r ≠ p → pair.pc r = s.pair.pc r ∧ pair.left r = s.pair.left r)
    (comm : ∀ r, ∀ i < 3, getFlag pair.win true n r 0 i = getFlag s.pair.win true n r 0 i) (out : pair.pc p = .out)
    (met : ∀ q, remote n p = some q → pair.left p q = s.pair.left p q + 1) :
    Inv n ({ s with pair := pair }.leave p) := by
  have ok := I.view p lt
  obtain ⟨turned, count, once, place⟩ : (s.stage p).turned = 1 ∧ (s.stage p).count (Nat.log 2 n) = Nat.log 2 n ∧
      (s.stage p).met = 1 ∧ 8 + 3 * Nat.log 2 n ≤ (s.stage p).place (Nat.log 2 n) (s.pair.pc p) := by
    obtain stage | stage := stage
    all_goals
      rw [stage]
      exact ⟨rfl, rfl, rfl, by dsimp only [Stage.place]; omega⟩
  have view : ({ s with pair := pair }.leave p).view n p =
      ⟨(s.view n p).flags, s.flagIdx p, .out, s.left p + 1, .out, pair.left p⟩ := by
    dsimp only [State.view, State.leave, State.getFlag]
    rw [update_self, update_self, out]
    congr 1
    funext i
    exact comm p _ (Nat.mod_lt i (by decide))
  have pos : ({ s with pair := pair }.leave p).pos n p = at_ (s.left p + 1) 0 := State.pos_leave
  refine I.moved (p := p) Ip (fun r ne => ?_) ?_ ?_ ?_
  · dsimp only [State.view, State.leave, State.getFlag]
    rw [(others r ne).1, (others r ne).2, update_of_ne ne, update_of_ne ne]
    congr 1
    funext i
    exact comm r _ (Nat.mod_lt i (by decide))
  · rw [view]
    have idx : s.flagIdx p = (s.left p + (s.stage p).turned) % 3 := ok.idx
    have last : (s.view n p).flags (s.left p + 2) = if s.left p = 0 ∨ (s.stage p).turned = 1 then 0 else _ := ok.last
    have flag : (s.view n p).flags (s.left p) = ((s.stage p).count (Nat.log 2 n) : Nat) := ok.flag
    rw [if_pos (.inr turned)] at last
    refine ⟨?_, rfl, fun q is => ?_, ok.next, last, ?_⟩
    · rw [idx, turned]
      rfl
    · have before : s.pair.left p q = 2 * s.left p + (s.stage p).met := ok.met q is
      show pair.left p q = 2 * (s.left p + 1) + 0
      rw [met q is]
      omega
    · rw [if_neg]
      · show s.getFlag n p ((s.left p + 1 + 2) % 3) = _
        have again : (s.left p + 1 + 2) % 3 = s.left p % 3 := Nat.add_mod_right _ 3
        rw [again, I.flag lt, count]
      · rintro (zero | turned)
        · cases zero
        · cases turned
  · rw [pos, State.pos, at_le]
    omega
  · rintro j low high q t ⟨k', i, lt_i, -, -, rfl, -⟩
    rw [State.pos, at_le] at low
    rw [pos, at_lt] at high
    omega

end Inv

structure Goes (n p : Nat) (s s' : State) : Prop where
  inv : Inv n s'
  others : ∀ r, r ≠ p → s'.view n r = s.view n r
  up : s.pos n p < s'.pos n p

namespace Inv
variable {stage : Stage} {leap : Nat} {v : Int}

section
variable (I : Inv n s)
include I

lemma goto_goes (stage' : Stage) (is : s.stage p = stage) (ok : ({ s.view n p with stage := stage' } : View).Ok n p)
    (up : stage.place (Nat.log 2 n) (s.pair.pc p) < stage'.place (Nat.log 2 n) (s.pair.pc p))
    (none : ∀ i < Nat.log 2 n, stage.place (Nat.log 2 n) (s.pair.pc p) ≤ 8 + 3 * i →
      stage'.place (Nat.log 2 n) (s.pair.pc p) ≤ 8 + 3 * i) : Goes n p s (s.goto p stage') := by
  rw [← is] at up none
  refine ⟨I.goto stage' ok up.le none, fun r ne => State.view_goto_ne ne, ?_⟩
  rw [State.pos_goto, State.pos, at_lt]
  exact .inr ⟨rfl, up⟩

section
variable (lt : p < n)
include lt

lemma enter_goes (stage' : Stage) (at_p : s.stage p = stage) (is : remote n p = some q) (out : s.pair.pc p = .out)
    (ok : ({ s.view n p with stage := stage', pc := .read q } : View).Ok n p)
    (up : stage.place (Nat.log 2 n) (s.pair.pc p) < stage'.place (Nat.log 2 n) (.read q))
    (none : ∀ i < Nat.log 2 n, stage.place (Nat.log 2 n) (s.pair.pc p) ≤ 8 + 3 * i →
      stage'.place (Nat.log 2 n) (.read q) ≤ 8 + 3 * i) :
    Goes n p s ({ s with pair := s.pair.goto p (.read q) }.goto p stage') := by
  rw [← at_p] at up none
  refine ⟨I.enterPair lt stage' is out ok up.le none, fun r ne => ?_, ?_⟩
  · rw [State.view_goto_ne ne]
    dsimp only [State.view, State.getFlag, Peer.State.goto]
    rw [update_of_ne ne]
  · have self : (s.pair.goto p (.read q)).pc p = .read q := update_self ..
    rw [State.pos_goto, State.pos, at_lt]
    refine .inr ⟨rfl, ?_⟩
    show _ < stage'.place _ ((s.pair.goto p (.read q)).pc p)
    rwa [self]

lemma run_pair (stage : s.stage p = .preWait ∨ s.stage p = .postWait) :
    (run n s p = some s ∧ ∃ q < n, s.pos n q < s.pos n p) ∨ ∃ s', run n s p = some s' ∧ Goes n p s s' := by
  have ok : (s.stage p).Ok n p (s.pair.pc p) := (I.view p lt).stage
  obtain ⟨q, is, pair⟩ : ∃ q, remote n p = some q ∧ (s.pair.pc p).remote = some q := by
    obtain stage | stage := stage
    all_goals
      rw [stage] at ok
      exact ok
  have lt_q := remote_lt lt is
  have bounds := place_pair pair
  obtain ⟨st, last, not⟩ | ⟨t, st, M⟩ := I.pair.run_moves lt pair
  · refine .inl ⟨?_, q, lt_q, lt_of_not_ge fun there => not ?_⟩
    · obtain ⟨pc, isPc⟩ : ∃ pc, pc = s.pair.pc p := ⟨_, rfl⟩
      rw [← isPc] at pair
      unfold run
      obtain stage | stage := stage
      all_goals
        rw [stage]
        dsimp only
        rw [st, Option.map_some, ← isPc]
        cases pc with
        | out => cases pair
        | read | write | probe | wait => rfl
    · have met : s.pair.left p q = 2 * s.left p + (s.stage p).met := (I.view p lt).met q is
      have written := (I.met_written (k := s.left p) lt_q (remote_symm lt is)).2.2.2.2
      obtain stage | stage := stage
      · rw [stage] at met
        rw [met]
        apply written.1
        apply le_trans _ there
        rw [State.pos, stage, at_le]
        exact .inr ⟨rfl, by dsimp only [Stage.place]; omega⟩
      · rw [stage] at met
        rw [met]
        apply written.2
        apply le_trans _ there
        rw [State.pos, stage, at_le]
        exact .inr ⟨rfl, by dsimp only [Stage.place]; omega⟩
  · have Ip := I.pair.run lt st
    right
    have run_on (on : (t.pc p).remote = some q) : run n s p = some { s with pair := t } := by
      obtain ⟨pc, isPc⟩ : ∃ pc, pc = t.pc p := ⟨_, rfl⟩
      rw [← isPc] at on
      unfold run
      obtain stage | stage := stage
      all_goals
        rw [stage]
        dsimp only
        rw [st, Option.map_some, ← isPc]
        cases pc with
        | out => cases on
        | read | write | probe | wait => rfl
    have others (r) (ne : r ≠ p) : ({ s with pair := t } : State).view n r = s.view n r := by
      dsimp only [State.view, State.getFlag]
      rw [M.pc r ne, M.left r ne]
      congr 1
      funext i
      exact M.comm r _ (Nat.mod_lt i (by decide))
    obtain ⟨on, up, left⟩ | ⟨out, left⟩ := M.own
    · refine ⟨_, run_on on, I.runPair lt Ip M stage is on up left, others, ?_⟩
      show at_ _ _ < at_ _ _
      rw [at_lt]
      obtain stage | stage := stage
      all_goals
        rw [stage]
        exact .inr ⟨rfl, by dsimp only [Stage.place]; omega⟩
    · have met : t.left p q = s.pair.left p q + 1 := by
        rw [left, update_self]
      obtain stage | stage := stage
      · refine ⟨{ s with pair := t }.goto p (.get 0 1), ?_, ?_, fun r ne => ?_, ?_⟩
        · unfold run
          rw [stage]
          rw [st, Option.map_some, out]
        · exact I.runPre lt Ip M stage is out met
        · rw [State.view_goto_ne ne]
          exact others r ne
        · rw [State.pos_goto, State.pos, stage, at_lt]
          exact .inr ⟨rfl, by dsimp only [Stage.place]; omega⟩
      · refine ⟨{ s with pair := t }.leave p, ?_, ?_, fun r ne => ?_, ?_⟩
        · unfold run
          rw [stage]
          dsimp only
          rw [st, Option.map_some, out]
        · apply I.leave lt Ip (.inr stage) (fun r ne => ⟨M.pc r ne, M.left r ne⟩) M.comm out
          intro q' is'
          cases is.symm.trans is'
          exact met
        · rw [State.view_leave_ne ne]
          exact others r ne
        · rw [State.pos_leave, State.pos, at_lt]
          exact .inl (Nat.lt_succ_self _)

lemma own (is : s.stage p = stage) :
    (⟨(s.view n p).flags, s.flagIdx p, stage, s.left p, s.pair.pc p, s.pair.left p⟩ : View).Ok n p := by
  rw [← is]
  exact I.view p lt

lemma goes_pre (stage : s.stage p = .pre) : ∃ s', run n s p = some s' ∧ Goes n p s s' := by
  have V := I.own lt stage
  unfold run
  rw [stage]
  cases is : remote n p with
  | none =>
    refine ⟨_, rfl, I.goto_goes (.get 0 1) stage ?_ ?_ ?_⟩
    · refine ⟨V.idx, ⟨Nat.zero_le _, rfl, V.stage⟩, fun q is' => ?_, V.flag, V.next, V.last⟩
      rw [is] at is'
      cases is'
    all_goals
      dsimp only [Stage.place]
      omega
  | some q =>
    dsimp only
    rw [enter_pair V.stage (remote_lt lt is)]
    refine ⟨_, rfl, I.enter_goes lt .preWait stage is V.stage ?_ ?_ ?_⟩
    · exact ⟨V.idx, ⟨q, is, rfl⟩, V.met, V.flag, V.next, V.last⟩
    all_goals
      dsimp only [Stage.place, Peer.Pc.place]
      omega

lemma goes_post (stage : s.stage p = .post) : ∃ s', run n s p = some s' ∧ Goes n p s s' := by
  have V := I.own lt stage
  unfold run
  rw [stage]
  cases is : remote n p with
  | none =>
    refine ⟨_, rfl, ?_, fun r ne => State.view_leave_ne ne, ?_⟩
    · apply I.leave lt I.pair (.inl stage) (fun r ne => ⟨rfl, rfl⟩) (fun r i lt_i => rfl) V.stage
      intro q is'
      rw [is] at is'
      cases is'
    · rw [State.pos_leave, State.pos, at_lt]
      exact .inl (Nat.lt_succ_self _)
  | some q =>
    dsimp only
    rw [enter_pair V.stage (remote_lt lt is)]
    refine ⟨_, rfl, I.enter_goes lt .postWait stage is V.stage ?_ ?_ ?_⟩
    · exact ⟨V.idx, ⟨q, is, rfl⟩, V.met, V.flag, V.next, V.last⟩
    all_goals
      dsimp only [Stage.place, Peer.Pc.place]
      omega

lemma goes_get (stage : s.stage p = .get i leap) : ∃ s', run n s p = some s' ∧ Goes n p s s' := by
  have V := I.own lt stage
  obtain ⟨le, isLeap, out⟩ := V.stage
  unfold run
  rw [stage, rdCreate_eq]
  dsimp only
  by_cases more : i < Nat.log 2 n
  · rw [if_pos more]
    have idx : s.flagIdx p = s.left p % 3 := V.idx
    have flag : s.getFlag n p (s.left p % 3) = (i : Nat) := V.flag
    refine ⟨_, rfl, I.goto_goes _ stage ?_ ?_ ?_⟩
    · refine ⟨V.idx, ⟨more, isLeap, ?_, out⟩, V.met, V.flag, V.next, V.last⟩
      rw [idx, flag]
      omega
    all_goals
      dsimp only [Stage.place]
      omega
  · rw [if_neg more]
    have all : i = Nat.log 2 n := by omega
    rw [all] at V
    refine ⟨_, rfl, I.goto_goes .reset stage ?_ ?_ ?_⟩
    · exact ⟨V.idx, out, V.met, V.flag, V.next, V.last⟩
    all_goals
      dsimp only [Stage.place]
      omega

omit lt in
lemma write_goes (stage' : Stage) (at_p : s.stage p = stage) {slot idx : Nat} (small : slot < 3)
    (ok : (⟨fun i => if i % 3 = slot then v else (s.view n p).flags i, idx, stage', s.left p, s.pair.pc p,
      s.pair.left p⟩ : View).Ok n p)
    (up : stage.place (Nat.log 2 n) (s.pair.pc p) < stage'.place (Nat.log 2 n) (s.pair.pc p))
    (none : ∀ i < Nat.log 2 n, stage.place (Nat.log 2 n) (s.pair.pc p) ≤ 8 + 3 * i →
      stage'.place (Nat.log 2 n) (s.pair.pc p) ≤ 8 + 3 * i) :
    Goes n p s ({ s.setFlag n p v slot with flagIdx := update s.flagIdx p idx }.goto p stage') := by
  have flags (r) : (fun i => (s.setFlag n p v slot).getFlag n r (i % 3)) =
      fun i => if r = p ∧ i % 3 = slot then v else s.getFlag n r (i % 3) := by
    funext i
    exact State.getFlag_setFlag small (Nat.mod_lt i (by decide))
  have others (r) (ne : r ≠ p) : ({ s.setFlag n p v slot with
      flagIdx := update s.flagIdx p idx }.goto p stage').view n r = s.view n r := by
    rw [State.view_goto_ne ne]
    show (⟨fun i => (s.setFlag n p v slot).getFlag n r (i % 3), update s.flagIdx p idx r, s.stage r, s.left r,
      s.pair.pc r, s.pair.left r⟩ : View) = _
    rw [flags, update_of_ne ne]
    simp only [ne, false_and, if_false]
    rfl
  have Ip : Peer.Inv n (s.setFlag n p v slot).pair := by
    apply I.pair.comm
    intro r lt q lt' i small'
    rw [getFlag_setFlag (isComm small) (Peer.isFlag lt' small'), if_neg fun h => nomatch h.2.1]
  have pos : ({ s.setFlag n p v slot with flagIdx := update s.flagIdx p idx }.goto p stage').pos n p =
      at_ (s.left p) (stage'.place (Nat.log 2 n) (s.pair.pc p)) := State.pos_goto
  rw [← at_p] at up none
  refine ⟨I.moved_within Ip others ?_ rfl pos up.le none, others, ?_⟩
  · rw [State.view_goto]
    show (⟨fun i => (s.setFlag n p v slot).getFlag n p (i % 3), update s.flagIdx p idx p, stage', s.left p,
      s.pair.pc p, s.pair.left p⟩ : View).Ok n p
    rw [flags, update_self]
    simp only [true_and]
    exact ok
  · rw [pos, State.pos, at_lt]
    exact .inr ⟨rfl, up⟩

lemma goes_set (stage : s.stage p = .set i leap v) : ∃ s', run n s p = some s' ∧ Goes n p s s' := by
  have V := I.own lt stage
  have idx : s.flagIdx p = s.left p % 3 := V.idx
  obtain ⟨lt_i, isLeap, isV, out⟩ := V.stage
  have same : (s.setFlag n p v (s.flagIdx p)) = { s.setFlag n p v (s.flagIdx p) with
      flagIdx := update s.flagIdx p (s.flagIdx p) } := by
    rw [Function.update_eq_self]
    rfl
  unfold run
  rw [stage]
  dsimp only
  rw [same]
  refine ⟨_, rfl, I.write_goes _ stage (by omega) ?_ ?_ ?_⟩
  · refine ⟨V.idx, ⟨lt_i, isLeap, isV, out⟩, V.met, ?_, ?_, ?_⟩
    · dsimp only
      rw [if_pos idx.symm, isV]
      rfl
    · dsimp only
      rw [if_neg (by omega)]
      exact V.next
    · dsimp only
      rw [if_neg (by omega)]
      exact V.last
  all_goals
    dsimp only [Stage.place]
    omega

lemma goes_reset (stage : s.stage p = .reset) : ∃ s', run n s p = some s' ∧ Goes n p s s' := by
  have V := I.own lt stage
  have idx : s.flagIdx p = s.left p % 3 := V.idx
  unfold run
  rw [stage]
  rw [reuseStep, flagWinSize]
  refine ⟨_, rfl, I.write_goes .post stage (by omega) ?_ ?_ ?_⟩
  · refine ⟨?_, V.stage, V.met, ?_, ?_, ?_⟩
    · show (1 + s.flagIdx p) % 3 = (s.left p + 1) % 3
      omega
    · dsimp only
      rw [if_neg (by omega)]
      exact V.flag
    · dsimp only
      rw [if_neg (by omega)]
      exact V.next
    · dsimp only
      rw [if_pos (by omega), if_pos (.inr rfl)]
  all_goals
    dsimp only [Stage.place]
    omega

lemma wait_goes (stage : s.stage p = .wait i leap v)
    (there : partner (2 ^ i) p < n → at_ (s.left p) (8 + 3 * i) ≤ s.pos n (partner (2 ^ i) p)) :
    Goes n p s (s.goto p (.get (i + 1) (leap * doublingStep))) := by
  have V := I.own lt stage
  obtain ⟨lt_i, isLeap, isV, out⟩ := V.stage
  have pos : s.pos n p = at_ (s.left p) (8 + 3 * i) := by
    rw [State.pos, stage]
    rfl
  have pos' : (s.goto p (.get (i + 1) (leap * doublingStep))).pos n p = at_ (s.left p) (6 + 3 * (i + 1)) :=
    State.pos_goto
  have up : s.pos n p < (s.goto p (.get (i + 1) (leap * doublingStep))).pos n p := by
    rw [pos, pos', at_lt]
    omega
  refine ⟨I.moved I.pair (fun r ne => State.view_goto_ne ne) ?_ up.le ?_, fun r ne => State.view_goto_ne ne, up⟩
  · rw [State.view_goto]
    refine ⟨V.idx, ⟨lt_i, ?_, out⟩, V.met, V.flag, V.next, V.last⟩
    rw [isLeap, doublingStep, ← Nat.pow_succ]
  · rintro j low high q t ⟨k, i', lt_i', rfl, lt_q, rfl, rfl⟩
    rw [pos, at_le] at low
    rw [pos', at_lt] at high
    have isI : i' = i := by omega
    have round : k = s.left p := by omega
    rw [isI] at lt_q ⊢
    rw [round]
    exact there lt_q

lemma goes_wait (stage : s.stage p = .wait i leap v) :
    (run n s p = some s ∧ ∃ q < n, s.pos n q < s.pos n p) ∨ ∃ s', run n s p = some s' ∧ Goes n p s s' := by
  have V := I.own lt stage
  obtain ⟨lt_i, isLeap, isV, out⟩ := V.stage
  have isPeer : peerIdx p leap = partner (2 ^ i) p := by
    rw [isLeap]
    rfl
  have pos : s.pos n p = at_ (s.left p) (8 + 3 * i) := by
    rw [State.pos, stage]
    rfl
  unfold run
  rw [stage]
  dsimp only
  rw [isPeer]
  by_cases lt_q : partner (2 ^ i) p < n
  · rw [if_pos lt_q]
    have seen := I.seen_iff lt stage lt_q
    by_cases low : s.getFlag n (partner (2 ^ i) p) (s.flagIdx p) < v
    · rw [if_pos low]
      refine .inl ⟨rfl, _, lt_q, lt_of_not_ge fun there => ?_⟩
      rw [pos] at there
      exact absurd (seen.2 there) (not_le.2 low)
    · rw [if_neg low]
      exact .inr ⟨_, rfl, I.wait_goes lt stage fun _ => seen.1 (not_lt.1 low)⟩
  · rw [if_neg lt_q]
    exact .inr ⟨_, rfl, I.wait_goes lt stage fun h => absurd h lt_q⟩

lemma run_goes (inside : s.stage p ≠ .out) :
    (run n s p = some s ∧ ∃ q < n, s.pos n q < s.pos n p) ∨ ∃ s', run n s p = some s' ∧ Goes n p s s' := by
  cases stage : s.stage p with
  | out => exact absurd stage inside
  | pre => exact .inr (I.goes_pre lt stage)
  | preWait => exact I.run_pair lt (.inl stage)
  | get => exact .inr (I.goes_get lt stage)
  | set => exact .inr (I.goes_set lt stage)
  | wait => exact I.goes_wait lt stage
  | reset => exact .inr (I.goes_reset lt stage)
  | post => exact .inr (I.goes_post lt stage)
  | postWait => exact I.run_pair lt (.inr stage)

lemma enter (out : s.stage p = .out) : Inv n (s.goto p .pre) := by
  have V := I.own lt out
  refine (I.goto_goes .pre out ?_ ?_ ?_).inv
  · exact ⟨V.idx, V.stage, V.met, V.flag, V.next, V.last⟩
  · exact Nat.zero_lt_one
  · intro i _ _
    dsimp only [Stage.place]
    omega

end

end

lemma start : Inv n start := by
  refine ⟨Peer.Inv.start, fun p _ => ?_, fun p j before => ?_⟩
  · exact ⟨rfl, rfl, fun _ _ => rfl, rfl, rfl, rfl⟩
  · exact absurd before (not_lt.2 (start_le j))

lemma reachable (h : (machine n).Reachable s) : Inv n s := by
  refine h.inv (fun s init => ?_) fun s a s' I _ st => ?_
  · cases init
    exact start
  · cases a with
    | enter p =>
      dsimp only [machine] at st
      split at st
      case h_1 out =>
        split at st
        case isTrue lt =>
          cases st
          exact I.enter lt out
        case isFalse => cases st
      case h_2 => cases st
    | run p =>
      dsimp only [machine] at st
      split at st
      case isTrue lt =>
        have inside : s.stage p ≠ .out := by
          intro out
          unfold run at st
          rw [out] at st
          cases st
        obtain ⟨stay, -⟩ | ⟨t, go, G⟩ := I.run_goes lt inside
        · cases stay.symm.trans st
          exact I
        · cases go.symm.trans st
          exact G.inv
      case isFalse => cases st

end Inv
end Kupl.Fence.Doubling
