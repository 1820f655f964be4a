import Kupl.Fence.Mixed

/-!
# The memory of the fences of a rank (`kupl_shm.cpp`)

Each rank has memory for all its flags of both fences of a window: what a rank reads and writes in a fence lies in the
memory of some rank, and what it writes in its own (`Fences.Within`).
-/

namespace Kupl.Fence
open Option
open Function (update update_of_ne update_self)

/-- The size of the memory of the fences of a rank (C++ `kupl_shm_fence_create`). -/
def fenceSize (n : Nat) : Nat := cacheLine * flagWinSize * (n + 1)

lemma IsFlag.offset_inside {c : Bool} {size rank idx : Nat} (F : IsFlag c size rank idx) :
    flagOffset c size rank idx < fenceSize size := by
  have all : fenceSize size = cacheLine * flagWinSize * size + cacheLine * flagWinSize := Nat.mul_succ _ _
  rw [all]
  cases c with
  | false => exact Nat.lt_of_lt_of_le F.offset_lt (Nat.le_add_right _ _)
  | true =>
    have rank : rank = 0 := F.rank
    have idx : idx < 3 := F.flagIdx
    show cacheLine * flagWinSize * size + (_ * cacheLine * 1 + _ * cacheLine) < _
    rw [rank, cacheLine, flagWinSize]
    omega

namespace Peer
variable {n p q : Nat} {s s' : State}

/-- The flags in turn and the ranks that are met are there. -/
structure Within (n : Nat) (s : State) : Prop where
  idx : ∀ p q, s.flagPeerIdx p q < flagWinSize
  remote : ∀ p q, (s.pc p).remote = some q → q < n

namespace Within

section
variable (W : Within n s)
include W

lemma goto (pc : Pc) (ok : ∀ q, pc.remote = some q → q < n) : Within n (s.goto p pc) := by
  refine ⟨W.idx, fun r q is => ?_⟩
  have isPc : (s.goto p pc).pc r = update s.pc p pc r := rfl
  rw [isPc] at is
  by_cases same : r = p
  · rw [same, update_self] at is
    exact ok q is
  · rw [update_of_ne same] at is
    exact W.remote r q is

lemma leave : Within n (s.leave p q) := by
  have G : Within n (s.goto p .out) := W.goto .out fun _ is => by cases is
  exact ⟨G.idx, G.remote⟩

lemma next : Within n (s.next p q) := by
  refine ⟨fun p' q' => ?_, W.remote⟩
  have three : 0 < flagWinSize := by decide
  dsimp only [State.next]
  by_cases same : p' = p
  · rw [same, update_self]
    by_cases same' : q' = q
    · rw [same', update_self]
      exact Nat.mod_lt _ three
    · rw [update_of_ne same']
      exact W.idx p q'
  · rw [update_of_ne same]
    exact W.idx p' q'

lemma enter (st : Peer.enter n s p q = some s') : Within n s' := by
  unfold Peer.enter at st
  split at st
  · obtain ⟨lt, same⟩ := ite_none_right_eq_some.1 st
    obtain rfl := Option.some.inj same
    refine W.goto _ fun r is => ?_
    obtain rfl := Option.some.inj is
    exact lt
  · cases st

lemma run (st : Peer.run n s p = some s') : Within n s' := by
  have met {r : Nat} {pc : Pc} (is : (s.pc p).remote = some r) (is' : pc.remote = some r) :
      ∀ q, pc.remote = some q → q < n := by
    intro q isQ
    obtain rfl := Option.some.inj (is'.symm.trans isQ)
    exact W.remote p _ is
  unfold Peer.run at st
  cases at_p : s.pc p with
  | out =>
    rw [at_p] at st
    cases st
  | read r =>
    rw [at_p] at st
    obtain rfl := Option.some.inj st
    exact W.goto _ (met (by rw [at_p]; rfl) rfl)
  | write r v =>
    rw [at_p] at st
    obtain rfl := Option.some.inj st
    have G : Within n (s.goto p (.probe r v)) := W.goto _ (met (by rw [at_p]; rfl) rfl)
    exact ⟨G.idx, G.remote⟩
  | probe r v =>
    rw [at_p] at st
    dsimp only at st
    split at st
    · obtain rfl := Option.some.inj st
      exact W.leave
    · obtain rfl := Option.some.inj st
      exact W.goto _ (met (by rw [at_p]; rfl) rfl)
  | wait r v =>
    rw [at_p] at st
    dsimp only at st
    split at st
    · obtain rfl := Option.some.inj st
      exact W.next.leave
    · obtain rfl := Option.some.inj st
      exact W

lemma reads (lt : p < n) {r off : Nat} (is : Peer.reads n s p = some (r, off)) : r < n ∧ off < fenceSize n := by
  unfold Peer.reads at is
  cases at_p : s.pc p with
  | out | write q v =>
    rw [at_p] at is
    cases is
  | read q =>
    rw [at_p] at is
    obtain ⟨rfl, rfl⟩ := Prod.mk.inj (Option.some.inj is)
    have lt' : q < n := W.remote _ q (by rw [at_p]; rfl)
    exact ⟨lt, (isFlag lt' (W.idx _ q)).offset_inside⟩
  | probe q v | wait q v =>
    rw [at_p] at is
    obtain ⟨rfl, rfl⟩ := Prod.mk.inj (Option.some.inj is)
    have lt' : q < n := W.remote p q (by rw [at_p]; rfl)
    exact ⟨lt', (isFlag lt (W.idx p q)).offset_inside⟩

lemma writes {off : Nat} {v : Int} (is : Peer.writes n s p = some (off, v)) : off < fenceSize n := by
  unfold Peer.writes at is
  cases at_p : s.pc p with
  | out | read | probe | wait =>
    rw [at_p] at is
    cases is
  | write q u =>
    rw [at_p] at is
    obtain ⟨rfl, rfl⟩ := Prod.mk.inj (Option.some.inj is)
    have lt' : q < n := W.remote p q (by rw [at_p]; rfl)
    exact (isFlag lt' (W.idx p q)).offset_inside

end

end Within
end Peer

namespace Fences
variable {n : Nat} {algo : Nat → Algo} {f f' : Fences} {p q off : Nat} {w : Window} {v : Int}

/-- The flags in turn and the ranks that are met are there. -/
structure Within (n : Nat) (f : Fences) : Prop where
  pair : Peer.Within n f.pair
  idx : ∀ p, f.flagIdx p < flagWinSize

namespace Within

lemma start (w : Window) : Within n (.start w) :=
  ⟨⟨fun _ _ => Nat.zero_lt_succ 2, fun _ _ is => by cases is⟩, fun _ => Nat.zero_lt_succ 2⟩

section
variable (W : Within n f)
include W

lemma update_idx {i : Nat} (small : i < flagWinSize) (p : Nat) : ∀ q, update f.flagIdx p i q < flagWinSize := by
  intro q
  by_cases same : q = p
  · rw [same, update_self]
    exact small
  · rw [update_of_ne same]
    exact W.idx q

lemma runLinear {s : Linear.State} (st : Linear.run n f.linear p = some s) : Within n (f.setLinear s) := by
  have pair : Peer.Within n (f.setLinear s).pair := ⟨W.pair.idx, W.pair.remote⟩
  unfold Linear.run at st
  have pc : f.linear.pc p = f.pc p := rfl
  rw [pc] at st
  cases at_p : f.pc p with
  | out =>
    rw [at_p] at st
    cases st
  | read | write =>
    rw [at_p] at st
    obtain rfl := Option.some.inj st
    exact ⟨pair, W.idx⟩
  | wait pi v =>
    rw [at_p] at st
    dsimp only at st
    split at st
    · split at st
      · obtain rfl := Option.some.inj st
        exact ⟨pair, W.idx⟩
      · obtain rfl := Option.some.inj st
        exact ⟨pair, W.idx⟩
    · obtain rfl := Option.some.inj st
      refine ⟨pair, W.update_idx ?_ p⟩
      exact Nat.lt_of_le_of_lt (Nat.sub_le 1 _) (by decide)

lemma runDoubling {s : Doubling.State} (st : Doubling.run n f.doubling p = some s) : Within n (f.setDoubling s) := by
  unfold Doubling.run at st
  have stage : f.doubling.stage p = f.stage p := rfl
  have next : ∀ i, (i + f.flagIdx p) % flagWinSize < flagWinSize := fun i => Nat.mod_lt _ (by decide)
  rw [stage] at st
  cases at_p : f.stage p with
  | out =>
    rw [at_p] at st
    cases st
  | pre | post =>
    rw [at_p] at st
    dsimp only at st
    split at st
    · obtain rfl := Option.some.inj st
      exact ⟨W.pair, W.idx⟩
    · obtain ⟨pair, enters, rfl⟩ := map_eq_some_iff.1 st
      exact ⟨W.pair.enter enters, W.idx⟩
  | preWait | postWait =>
    rw [at_p] at st
    obtain ⟨pair, runs, rfl⟩ := map_eq_some_iff.1 st
    have P : Peer.Within n pair := W.pair.run runs
    cases pair.pc p with
    | out | read | write | probe | wait => exact ⟨P, W.idx⟩
  | get i leap =>
    rw [at_p] at st
    dsimp only at st
    split at st
    · obtain rfl := Option.some.inj st
      exact ⟨W.pair, W.idx⟩
    · obtain rfl := Option.some.inj st
      exact ⟨W.pair, W.idx⟩
  | set i leap v =>
    rw [at_p] at st
    obtain rfl := Option.some.inj st
    exact ⟨⟨W.pair.idx, W.pair.remote⟩, W.idx⟩
  | wait i leap v =>
    rw [at_p] at st
    dsimp only at st
    split at st
    · split at st
      · obtain rfl := Option.some.inj st
        exact ⟨W.pair, W.idx⟩
      · obtain rfl := Option.some.inj st
        exact ⟨W.pair, W.idx⟩
    · obtain rfl := Option.some.inj st
      exact ⟨W.pair, W.idx⟩
  | reset =>
    rw [at_p] at st
    obtain rfl := Option.some.inj st
    exact ⟨⟨W.pair.idx, W.pair.remote⟩, W.update_idx (next 1) p⟩

lemma run (st : f.run n algo p = some f') : Within n f' := by
  have pairs (st : ((Peer.run n f.pair p).map fun pair => { f with pair := pair }) = some f') : Within n f' := by
    obtain ⟨pair, runs, rfl⟩ := map_eq_some_iff.1 st
    exact ⟨W.pair.run runs, W.idx⟩
  unfold Fences.run at st
  cases isAlgo : algo p with
  | linear =>
    rw [isAlgo] at st
    cases at_p : f.pc p with
    | out =>
      rw [at_p] at st
      exact pairs st
    | read | write | wait =>
      rw [at_p] at st
      obtain ⟨s, runs, rfl⟩ := map_eq_some_iff.1 st
      exact W.runLinear runs
  | rd =>
    rw [isAlgo] at st
    cases at_p : f.stage p with
    | out =>
      rw [at_p] at st
      exact pairs st
    | pre | preWait | get | set | wait | reset | post | postWait =>
      rw [at_p] at st
      obtain ⟨s, runs, rfl⟩ := map_eq_some_iff.1 st
      exact W.runDoubling runs

lemma step {a : Label} (st : f.step n algo a = some f') : Within n f' := by
  cases a with
  | enter p =>
    obtain ⟨-, st⟩ := ite_none_right_eq_some.1 st
    obtain ⟨-, st⟩ := ite_none_right_eq_some.1 st
    cases isAlgo : algo p with
    | linear | rd =>
      rw [isAlgo] at st
      obtain rfl := Option.some.inj st
      exact ⟨W.pair, W.idx⟩
  | enterPeer p remote =>
    obtain ⟨-, st⟩ := ite_none_right_eq_some.1 st
    obtain ⟨-, st⟩ := ite_none_right_eq_some.1 st
    obtain ⟨pair, enters, rfl⟩ := map_eq_some_iff.1 st
    exact ⟨W.pair.enter enters, W.idx⟩
  | run p => exact W.run (ite_none_right_eq_some.1 st).2

lemma comm (p : Nat) : flagOffset true n 0 (f.flagIdx p) < fenceSize n :=
  (isComm (W.idx p)).offset_inside

lemma readsLinear (lt : p < n) (is : Linear.reads n f.linear p = some (q, off)) : q < n ∧ off < fenceSize n := by
  unfold Linear.reads at is
  have pc : f.linear.pc p = f.pc p := rfl
  rw [pc] at is
  cases at_p : f.pc p with
  | out | write =>
    rw [at_p] at is
    cases is
  | read =>
    rw [at_p] at is
    obtain ⟨rfl, rfl⟩ := Prod.mk.inj (Option.some.inj is)
    exact ⟨lt, W.comm p⟩
  | wait pi v =>
    rw [at_p] at is
    obtain ⟨lt', is⟩ := ite_none_right_eq_some.1 is
    obtain ⟨rfl, rfl⟩ := Prod.mk.inj (Option.some.inj is)
    exact ⟨lt', W.comm p⟩

lemma readsDoubling (lt : p < n) (is : Doubling.reads n f.doubling p = some (q, off)) :
    q < n ∧ off < fenceSize n := by
  unfold Doubling.reads at is
  have stage : f.doubling.stage p = f.stage p := rfl
  rw [stage] at is
  cases at_p : f.stage p with
  | out | pre | set | reset | post =>
    rw [at_p] at is
    cases is
  | preWait | postWait =>
    rw [at_p] at is
    exact W.pair.reads lt is
  | get i leap =>
    rw [at_p] at is
    obtain ⟨-, is⟩ := ite_none_right_eq_some.1 is
    obtain ⟨rfl, rfl⟩ := Prod.mk.inj (Option.some.inj is)
    exact ⟨lt, W.comm p⟩
  | wait i leap v =>
    rw [at_p] at is
    obtain ⟨lt', is⟩ := ite_none_right_eq_some.1 is
    obtain ⟨rfl, rfl⟩ := Prod.mk.inj (Option.some.inj is)
    exact ⟨lt', W.comm p⟩

lemma reads (lt : p < n) (is : f.reads n algo p = some (q, off)) : q < n ∧ off < fenceSize n := by
  unfold Fences.reads at is
  cases isAlgo : algo p with
  | linear =>
    rw [isAlgo] at is
    cases at_p : f.pc p with
    | out =>
      rw [at_p] at is
      exact W.pair.reads lt is
    | read | write | wait =>
      rw [at_p] at is
      exact W.readsLinear lt is
  | rd =>
    rw [isAlgo] at is
    cases at_p : f.stage p with
    | out =>
      rw [at_p] at is
      exact W.pair.reads lt is
    | pre | preWait | get | set | wait | reset | post | postWait =>
      rw [at_p] at is
      exact W.readsDoubling lt is

lemma writes (is : f.writes n algo p = some (off, v)) : off < fenceSize n := by
  have linear (is : Linear.writes n f.linear p = some (off, v)) : off < fenceSize n := by
    unfold Linear.writes at is
    split at is
    · obtain ⟨rfl, rfl⟩ := Prod.mk.inj (Option.some.inj is)
      exact W.comm p
    · cases is
  have doubling (is : Doubling.writes n f.doubling p = some (off, v)) : off < fenceSize n := by
    unfold Doubling.writes at is
    split at is
    · exact W.pair.writes is
    · exact W.pair.writes is
    · obtain ⟨rfl, rfl⟩ := Prod.mk.inj (Option.some.inj is)
      exact W.comm p
    · obtain ⟨rfl, rfl⟩ := Prod.mk.inj (Option.some.inj is)
      exact (isComm (Nat.mod_lt _ (by decide))).offset_inside
    · cases is
  unfold Fences.writes at is
  split at is
  · split at is
    · exact W.pair.writes is
    · exact linear is
  · split at is
    · exact W.pair.writes is
    · exact doubling is

end

end Within
end Fences
end Kupl.Fence
