import Kupl.Fence.Doubling

/-!
# All fences of a window (`kupl_shmc.cpp`, `kupl_fence.cpp`)

| source | here |
|---|---|
| `kupl_fence_t` of both fences of each rank | `Fences` |
| `kupl_fence_algo_select` | `algo` |
| `kupl_shm_fence`, `kupl_shm_peer_fence` | `Label.enter`, `Label.enterPeer` |
| `fence->ops->wait` | `Fences.run` |

A rank goes through fences of all and of two in any order, one at a time; the algorithm of the fence of all is
configured for each rank. A step reads at most one word of the window and writes at most one word of its rank, and
depends on the rest of the window in no other way (`Fences.step_withWin`).
-/

namespace Kupl.Fence
open Option

/-- Writes a word of a rank, if there is one to write. -/
def Window.put (w : Window) (p : Nat) : Option (Nat × Int) → Window
  | none => w
  | some (off, v) => Function.update w p (Function.update (w p) off v)

/-- Two windows agree on a word, if there is one to read. -/
def Window.Agree (w w' : Window) (x : Option (Nat × Nat)) : Prop := ∀ q off, x = some (q, off) → w q off = w' q off

lemma Window.agree_self {w : Window} {x : Option (Nat × Nat)} : w.Agree w x := fun _ _ _ => rfl

namespace Peer

def reads (n : Nat) (s : State) (p : Nat) : Option (Nat × Nat) :=
  match s.pc p with
  | .out | .write _ _ => none
  | .read q => some (p, flagOffset false n q (s.flagPeerIdx p q))
  | .probe q _ | .wait q _ => some (q, flagOffset false n p (s.flagPeerIdx p q))

def writes (n : Nat) (s : State) (p : Nat) : Option (Nat × Int) :=
  match s.pc p with
  | .write q thisVal => some (flagOffset false n q (s.flagPeerIdx p q), thisVal)
  | _ => none

def State.withWin (s : State) (w : Window) : State := { s with win := w }

variable {n p : Nat} {s s' : State} {w : Window}

lemma run_withWin (agree : w.Agree s.win (reads n s p)) :
    run n (s.withWin w) p = (run n s p).map fun s' => s'.withWin (w.put p (writes n s p)) := by
  unfold reads at agree
  unfold run writes
  have pc : (s.withWin w).pc p = s.pc p := rfl
  rw [pc]
  cases at_p : s.pc p with
  | out | write q v => rfl
  | read q =>
    rw [at_p] at agree
    have same : getFlag w false n p q (s.flagPeerIdx p q) = getFlag s.win false n p q (s.flagPeerIdx p q) :=
      agree _ _ rfl
    show some ((s.withWin w).goto p (.write q (1 - getFlag w false n p q (s.flagPeerIdx p q)))) = _
    rw [same]
    rfl
  | probe q v =>
    rw [at_p] at agree
    have same : getFlag w false n q p (s.flagPeerIdx p q) = getFlag s.win false n q p (s.flagPeerIdx p q) :=
      agree _ _ rfl
    dsimp only
    show (if getFlag w false n q p (s.flagPeerIdx p q) = kuplError then _ else _) = _
    rw [same]
    split <;> rfl
  | wait q v =>
    rw [at_p] at agree
    have same : getFlag w false n q p (s.flagPeerIdx p q) = getFlag s.win false n q p (s.flagPeerIdx p q) :=
      agree _ _ rfl
    dsimp only
    show (if getFlag w false n q p (s.flagPeerIdx p q) = v then _ else _) = _
    rw [same]
    split <;> rfl

end Peer

namespace Linear

def reads (n : Nat) (s : State) (p : Nat) : Option (Nat × Nat) :=
  match s.pc p with
  | .out | .write _ => none
  | .read => some (p, flagOffset true n 0 (s.flagIdx p))
  | .wait pi _ => if pi < n then some (pi, flagOffset true n 0 (s.flagIdx p)) else none

def writes (n : Nat) (s : State) (p : Nat) : Option (Nat × Int) :=
  match s.pc p with
  | .write flagVal => some (flagOffset true n 0 (s.flagIdx p), flagVal)
  | _ => none

def State.withWin (s : State) (w : Window) : State := { s with win := w }

variable {n p : Nat} {s s' : State} {w : Window}

lemma run_withWin (agree : w.Agree s.win (reads n s p)) :
    run n (s.withWin w) p = (run n s p).map fun s' => s'.withWin (w.put p (writes n s p)) := by
  unfold reads at agree
  unfold run writes
  have pc : (s.withWin w).pc p = s.pc p := rfl
  rw [pc]
  cases at_p : s.pc p with
  | out | write v => rfl
  | read =>
    rw [at_p] at agree
    have same : getFlag w true n p 0 (s.flagIdx p) = getFlag s.win true n p 0 (s.flagIdx p) := agree _ _ rfl
    show some ((s.withWin w).goto p (.write (1 - getFlag w true n p 0 (s.flagIdx p)))) = _
    rw [same]
    rfl
  | wait pi v =>
    rw [at_p] at agree
    dsimp only at agree ⊢
    split
    case isTrue lt =>
      rw [if_pos lt] at agree
      have same : getFlag w true n pi 0 (s.flagIdx p) = getFlag s.win true n pi 0 (s.flagIdx p) := agree _ _ rfl
      show (if getFlag w true n pi 0 (s.flagIdx p) = v then _ else _) = _
      rw [same]
      split <;> rfl
    case isFalse => rfl

end Linear

namespace Doubling

def reads (n : Nat) (s : State) (p : Nat) : Option (Nat × Nat) :=
  match s.stage p with
  | .out | .pre | .set _ _ _ | .reset | .post => none
  | .preWait | .postWait => Peer.reads n s.pair p
  | .get i _ => if i < (rdCreate n).loopTimes then some (p, flagOffset true n 0 (s.flagIdx p)) else none
  | .wait _ leap _ => if peerIdx p leap < n then some (peerIdx p leap, flagOffset true n 0 (s.flagIdx p)) else none

def writes (n : Nat) (s : State) (p : Nat) : Option (Nat × Int) :=
  match s.stage p with
  | .preWait | .postWait => Peer.writes n s.pair p
  | .set _ _ thisFlagVal => some (flagOffset true n 0 (s.flagIdx p), thisFlagVal)
  | .reset => some (flagOffset true n 0 ((reuseStep + s.flagIdx p) % flagWinSize), 0)
  | _ => none

def State.withWin (s : State) (w : Window) : State := { s with pair := s.pair.withWin w }

variable {n p : Nat} {s s' : State} {w : Window}

lemma enter_withWin {pair : Peer.State} {q : Nat} :
    Peer.enter n (pair.withWin w) p q = (Peer.enter n pair p q).map (·.withWin w) := by
  unfold Peer.enter
  have pc : (pair.withWin w).pc p = pair.pc p := rfl
  rw [pc]
  cases pair.pc p with
  | out =>
    dsimp only
    split <;> rfl
  | read | write | probe | wait => rfl

lemma run_withWin (agree : w.Agree s.pair.win (reads n s p)) :
    run n (s.withWin w) p = (run n s p).map fun s' => s'.withWin (w.put p (writes n s p)) := by
  unfold reads at agree
  unfold run writes
  have stage : (s.withWin w).stage p = s.stage p := rfl
  rw [stage]
  cases at_p : s.stage p with
  | out | set i leap v | reset => rfl
  | pre | post =>
    cases remote n p with
    | none => rfl
    | some q =>
      dsimp only
      rw [State.withWin, enter_withWin, map_map, map_map]
      rfl
  | preWait | postWait =>
    rw [at_p] at agree
    dsimp only
    rw [State.withWin, Peer.run_withWin agree, map_map, map_map]
    congr 1
    funext pair
    have pc (w : Window) : (pair.withWin w).pc p = pair.pc p := rfl
    dsimp only [Function.comp]
    rw [pc]
    cases pair.pc p <;> rfl
  | get i leap =>
    rw [at_p] at agree
    dsimp only at agree ⊢
    split
    case isTrue lt =>
      rw [if_pos lt] at agree
      have same : getFlag w true n p 0 (s.flagIdx p) = getFlag s.pair.win true n p 0 (s.flagIdx p) := agree _ _ rfl
      show some ((s.withWin w).goto p (.set i leap (1 + getFlag w true n p 0 (s.flagIdx p)))) = _
      rw [same]
      rfl
    case isFalse => rfl
  | wait i leap v =>
    rw [at_p] at agree
    dsimp only at agree ⊢
    split
    case isTrue lt =>
      rw [if_pos lt] at agree
      have same : getFlag w true n (peerIdx p leap) 0 (s.flagIdx p) =
          getFlag s.pair.win true n (peerIdx p leap) 0 (s.flagIdx p) := agree _ _ rfl
      show (if getFlag w true n (peerIdx p leap) 0 (s.flagIdx p) < v then _ else _) = _
      rw [same]
      split
      case isTrue low =>
        have low' : s.getFlag n (peerIdx p leap) (s.flagIdx p) < v := low
        rw [if_pos low']
        rfl
      case isFalse high =>
        have high' : ¬ s.getFlag n (peerIdx p leap) (s.flagIdx p) < v := high
        rw [if_neg high']
        rfl
    case isFalse => rfl

end Doubling

/-- The algorithm of a fence of all (C++ `KUPL_FENCE_ALGO_LINEAR`, `KUPL_FENCE_ALGO_RD`). -/
inductive Algo where
  | linear
  | rd

/-- The fences of each rank and their window: the fences of two, the place of the fence of all, and where a rank is in
it by either algorithm. -/
structure Fences where
  pair : Peer.State
  flagIdx : Nat → Nat
  pc : Nat → Linear.Pc
  stage : Nat → Doubling.Stage
  left : Nat → Nat

/-- A rank enters the fence of all or one of two, or goes on in one. -/
inductive Label where
  | enter (p : Nat)
  | enterPeer (p remote : Nat)
  | run (p : Nat)

def Label.rank : Label → Nat
  | .enter p | .enterPeer p _ | .run p => p

namespace Fences
variable (n : Nat) (algo : Nat → Algo) (f : Fences) (p : Nat)

def win : Window := f.pair.win

def withWin (w : Window) : Fences := { f with pair := f.pair.withWin w }

def linear : Linear.State := ⟨f.win, f.flagIdx, f.pc, f.left⟩

def doubling : Doubling.State := ⟨f.pair, f.flagIdx, f.stage, f.left⟩

def setLinear (s : Linear.State) : Fences := ⟨f.pair.withWin s.win, s.flagIdx, s.pc, f.stage, s.left⟩

def setDoubling (s : Doubling.State) : Fences := ⟨s.pair, s.flagIdx, f.pc, s.stage, s.left⟩

/-- A rank is in no fence. -/
def idle : Bool :=
  match f.pc p, f.stage p, f.pair.pc p with
  | .out, .out, .out => true
  | _, _, _ => false

/-- A rank goes on in the fence of all, or else in one of two (C++ `kupl_fence_wait`). -/
def run : Option Fences :=
  match algo p with
  | .linear =>
    match f.pc p with
    | .out => (Peer.run n f.pair p).map fun pair => { f with pair := pair }
    | _ => (Linear.run n f.linear p).map f.setLinear
  | .rd =>
    match f.stage p with
    | .out => (Peer.run n f.pair p).map fun pair => { f with pair := pair }
    | _ => (Doubling.run n f.doubling p).map f.setDoubling

/-- A rank enters the fence of all (C++ `kupl_shm_fence`). -/
def enter : Option Fences :=
  if f.idle p then
    match algo p with
    | .linear => some { f with pc := Function.update f.pc p .read }
    | .rd => some { f with stage := Function.update f.stage p .pre }
  else none

/-- A rank enters a fence of two (C++ `kupl_shm_peer_fence`). -/
def enterPeer (remote : Nat) : Option Fences :=
  if f.idle p then (Peer.enter n f.pair p remote).map fun pair => { f with pair := pair } else none

def step : Label → Option Fences
  | .enter p => if p < n then f.enter algo p else none
  | .enterPeer p remote => if p < n then f.enterPeer n p remote else none
  | .run p => if p < n then f.run n algo p else none

def reads : Option (Nat × Nat) :=
  match algo p with
  | .linear =>
    match f.pc p with
    | .out => Peer.reads n f.pair p
    | _ => Linear.reads n f.linear p
  | .rd =>
    match f.stage p with
    | .out => Peer.reads n f.pair p
    | _ => Doubling.reads n f.doubling p

def writes : Option (Nat × Int) :=
  match algo p with
  | .linear =>
    match f.pc p with
    | .out => Peer.writes n f.pair p
    | _ => Linear.writes n f.linear p
  | .rd =>
    match f.stage p with
    | .out => Peer.writes n f.pair p
    | _ => Doubling.writes n f.doubling p

/-- The fences of a window as they are created. -/
def start (w : Window) : Fences := ⟨Peer.start.withWin w, fun _ => 0, fun _ => .out, fun _ => .out, fun _ => 0⟩

end Fences

/-- The fences of a window whose flags all begin with 0. -/
def fences (n : Nat) (algo : Nat → Algo) : Machine Fences Label where
  init f := f = .start fun _ _ => 0
  step f a := f.step n algo a

namespace Fences
variable {n : Nat} {algo : Nat → Algo} {f f' : Fences} {p : Nat} {w : Window}

lemma runPair_withWin (agree : w.Agree f.win (Peer.reads n f.pair p)) :
    ((Peer.run n (f.withWin w).pair p).map fun pair => { f.withWin w with pair := pair }) =
      ((Peer.run n f.pair p).map fun pair => { f with pair := pair }).map fun f' =>
        f'.withWin (w.put p (Peer.writes n f.pair p)) := by
  have pair : (f.withWin w).pair = f.pair.withWin w := rfl
  rw [pair, Peer.run_withWin agree, map_map, map_map]
  rfl

lemma runLinear_withWin (agree : w.Agree f.win (Linear.reads n f.linear p)) :
    (Linear.run n (f.withWin w).linear p).map (f.withWin w).setLinear =
      ((Linear.run n f.linear p).map f.setLinear).map fun f' => f'.withWin (w.put p (Linear.writes n f.linear p)) := by
  have linear : (f.withWin w).linear = f.linear.withWin w := rfl
  rw [linear, Linear.run_withWin agree, map_map, map_map]
  rfl

lemma runDoubling_withWin (agree : w.Agree f.win (Doubling.reads n f.doubling p)) :
    (Doubling.run n (f.withWin w).doubling p).map (f.withWin w).setDoubling =
      ((Doubling.run n f.doubling p).map f.setDoubling).map fun f' =>
        f'.withWin (w.put p (Doubling.writes n f.doubling p)) := by
  have doubling : (f.withWin w).doubling = f.doubling.withWin w := rfl
  rw [doubling, Doubling.run_withWin agree, map_map, map_map]
  rfl

lemma run_withWin (agree : w.Agree f.win (f.reads n algo p)) :
    (f.withWin w).run n algo p = (f.run n algo p).map fun f' => f'.withWin (w.put p (f.writes n algo p)) := by
  unfold reads at agree
  unfold run writes
  have pc : (f.withWin w).pc p = f.pc p := rfl
  have stage : (f.withWin w).stage p = f.stage p := rfl
  rw [pc, stage]
  cases isAlgo : algo p with
  | linear =>
    rw [isAlgo] at agree
    cases at_p : f.pc p with
    | out =>
      rw [at_p] at agree
      exact runPair_withWin agree
    | read | write | wait =>
      rw [at_p] at agree
      exact runLinear_withWin agree
  | rd =>
    rw [isAlgo] at agree
    cases at_p : f.stage p with
    | out =>
      rw [at_p] at agree
      exact runPair_withWin agree
    | pre | preWait | get | set | wait | reset | post | postWait =>
      rw [at_p] at agree
      exact runDoubling_withWin agree

/-- Where a rank writes with a label. -/
def put (n : Nat) (algo : Nat → Algo) (f : Fences) : Label → Option (Nat × Int)
  | .run p => f.writes n algo p
  | _ => none

/-- What a rank reads with a label. -/
def get (n : Nat) (algo : Nat → Algo) (f : Fences) : Label → Option (Nat × Nat)
  | .run p => f.reads n algo p
  | _ => none

lemma step_withWin {a : Label} (agree : w.Agree f.win (f.get n algo a)) :
    (f.withWin w).step n algo a = (f.step n algo a).map fun f' => f'.withWin (w.put a.rank (f.put n algo a)) := by
  cases a with
  | enter p =>
    have idle : (f.withWin w).idle p = f.idle p := rfl
    unfold step enter
    dsimp only
    rw [idle]
    split
    · split
      · cases algo p <;> rfl
      · rfl
    · rfl
  | enterPeer p remote =>
    have idle : (f.withWin w).idle p = f.idle p := rfl
    have pair : (f.withWin w).pair = f.pair.withWin w := rfl
    unfold step enterPeer
    dsimp only
    rw [idle, pair]
    split
    · split
      · rw [Doubling.enter_withWin, map_map, map_map]
        rfl
      · rfl
    · rfl
  | run p =>
    unfold step
    dsimp only
    split
    · exact run_withWin agree
    · rfl

lemma withWin_self : f.withWin f.win = f := rfl

lemma step_win {a : Label} (st : f.step n algo a = some f') : f'.win = f.win.put a.rank (f.put n algo a) := by
  have same : (f.withWin f.win).step n algo a = (f.step n algo a).map fun f' =>
      f'.withWin (f.win.put a.rank (f.put n algo a)) := step_withWin Window.agree_self
  rw [withWin_self, st] at same
  exact congrArg win (Option.some.inj same)

end Fences

end Kupl.Fence
