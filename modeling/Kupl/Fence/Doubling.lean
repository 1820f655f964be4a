import Kupl.Fence.Peer
import Kupl.Sync.Doubling

/-!
# The fence by recursive doubling (`kupl_fence_rd.cpp`)

All ranks of a communicator go through `kupl_fence_rd_wait` again and again: `machine`. As many ranks as make a power of
two meet by doubling; each of the others first meets one of them in a fence of two, and once more when these have met.
In step `i` a rank raises its flag and waits until that of its partner is as high. A rank has three flags that it uses
in turn; when it has met all others it clears the one of the fence before.

The ranks that are too many go through the steps as well, among themselves as far as they have partners. A read or a
write of a flag is one step of the machine, and a wait that finds too little leaves everything as it is.
-/

namespace Kupl.Fence.Doubling
open Sync

/-- (C++ `DOUBLING_STEP`). -/
def doublingStep : Nat := 2

/-- (C++ `REUSE_STEP`). -/
def reuseStep : Nat := 2

/-- (C++ `kupl_fence_rd_args_t`). -/
structure RdArgs where
  loopTimes : Nat
  nearPoweroftwo : Nat

/-- The loop of `kupl_fence_rd_create`. -/
def halve (tmp : Nat) (rd : RdArgs) : RdArgs :=
  if 1 < tmp then halve (tmp / doublingStep) ⟨rd.loopTimes + 1, rd.nearPoweroftwo <<< 1⟩ else rd
termination_by tmp
decreasing_by exact Nat.div_lt_self (by omega) (by decide)

/-- (C++ `kupl_fence_rd_create`). -/
def rdCreate (size : Nat) : RdArgs := halve size ⟨0, 1⟩

/-- The rank that a rank meets before and after the steps (C++ `kupl_fence_rd_wait`). -/
def remote (localNum localId : Nat) : Option Nat :=
  let nearPoweroftwo := (rdCreate localNum).nearPoweroftwo
  if localId ≥ localNum - (localNum - nearPoweroftwo) <<< 1 then
    if localId < nearPoweroftwo then some (localId + (localNum - nearPoweroftwo))
    else some (localId - (localNum - nearPoweroftwo))
  else none

/-- The rank that a rank meets in a step (C++ `kupl_fence_rd_wait`). -/
def peerIdx (localId leap : Nat) : Nat :=
  if localId / leap % doublingStep = 0 then localId + leap else localId - leap

/-- Where a rank is in a fence. -/
inductive Stage where
  | out
  | pre
  | preWait
  | get (i leap : Nat)
  | set (i leap : Nat) (thisFlagVal : Int)
  | wait (i leap : Nat) (thisFlagVal : Int)
  | reset
  | post
  | postWait

structure State where
  pair : Peer.State
  flagIdx : Nat → Nat
  stage : Nat → Stage
  left : Nat → Nat

namespace State

def goto (s : State) (p : Nat) (stage : Stage) : State := { s with stage := Function.update s.stage p stage }

def leave (s : State) (p : Nat) : State := { s with
  stage := Function.update s.stage p .out
  left := Function.update s.left p (s.left p + 1) }

def getFlag (s : State) (n p flagIdx : Nat) : Int := Fence.getFlag s.pair.win true n p 0 flagIdx

def setFlag (s : State) (n p : Nat) (flagVal : Int) (flagIdx : Nat) : State :=
  { s with pair := { s.pair with win := Fence.setFlag s.pair.win true n p flagVal 0 flagIdx } }

end State

/-- A step of a rank in the fence (C++ `kupl_fence_rd_wait`). -/
def run (n : Nat) (s : State) (p : Nat) : Option State :=
  match s.stage p with
  | .out => none
  | .pre =>
    match remote n p with
    | none => some (s.goto p (.get 0 1))
    | some q => (Peer.enter n s.pair p q).map fun pair => { s with pair := pair }.goto p .preWait
  | .preWait => (Peer.run n s.pair p).map fun pair =>
    match pair.pc p with
    | .out => { s with pair := pair }.goto p (.get 0 1)
    | _ => { s with pair := pair }
  | .get i leap =>
    if i < (rdCreate n).loopTimes then some (s.goto p (.set i leap (1 + s.getFlag n p (s.flagIdx p))))
    else some (s.goto p .reset)
  | .set i leap thisFlagVal => some ((s.setFlag n p thisFlagVal (s.flagIdx p)).goto p (.wait i leap thisFlagVal))
  | .wait i leap thisFlagVal =>
    if peerIdx p leap < n then
      if s.getFlag n (peerIdx p leap) (s.flagIdx p) < thisFlagVal then some s
      else some (s.goto p (.get (i + 1) (leap * doublingStep)))
    else some (s.goto p (.get (i + 1) (leap * doublingStep)))
  | .reset => some ({ s.setFlag n p 0 ((reuseStep + s.flagIdx p) % flagWinSize) with
      flagIdx := Function.update s.flagIdx p ((1 + s.flagIdx p) % flagWinSize) }.goto p .post)
  | .post =>
    match remote n p with
    | none => some (s.leave p)
    | some q => (Peer.enter n s.pair p q).map fun pair => { s with pair := pair }.goto p .postWait
  | .postWait => (Peer.run n s.pair p).map fun pair =>
    match pair.pc p with
    | .out => { s with pair := pair }.leave p
    | _ => { s with pair := pair }

/-- A rank enters the fence, or goes on in it. -/
inductive Label where
  | enter (p : Nat)
  | run (p : Nat)

/-- The state before the first fence. -/
def start : State := ⟨Peer.start, fun _ => 0, fun _ => .out, fun _ => 0⟩

/-- The fences of `n` ranks. -/
def machine (n : Nat) : Machine State Label where
  init s := s = start
  step s
    | .enter p =>
      match s.stage p with
      | .out => if p < n then some (s.goto p .pre) else none
      | _ => none
    | .run p => if p < n then run n s p else none

variable {n p q : Nat}

/-! ## The ranks that meet -/

lemma halve_eq {tmp : Nat} {rd : RdArgs} :
    halve tmp rd = ⟨rd.loopTimes + Nat.log 2 tmp, rd.nearPoweroftwo * 2 ^ Nat.log 2 tmp⟩ := by
  induction tmp, rd using halve.induct with
  | case1 tmp rd more ih =>
    have log : Nat.log 2 tmp = Nat.log 2 (tmp / 2) + 1 := Nat.log_of_one_lt_of_le (by decide) more
    rw [halve, if_pos more, ih, doublingStep, log, Nat.shiftLeft_eq, Nat.pow_succ]
    dsimp only
    congr 1
    · omega
    · ring
  | case2 tmp rd done =>
    rw [halve, if_neg done, Nat.log_of_lt (by omega), Nat.pow_zero, Nat.mul_one]
    rfl

lemma rdCreate_eq : rdCreate n = ⟨Nat.log 2 n, 2 ^ Nat.log 2 n⟩ := by
  rw [rdCreate, halve_eq]
  congr 1
  · exact Nat.zero_add _
  · exact Nat.one_mul _

lemma near_le (lt : p < n) : 2 ^ Nat.log 2 n ≤ n := Nat.pow_log_le_self 2 (by omega)

lemma lt_near : n < 2 * 2 ^ Nat.log 2 n := by
  rw [Nat.mul_comm, ← Nat.pow_succ]
  exact Nat.lt_pow_succ_log_self (by decide) n

lemma remote_iff (lt : p < n) : remote n p = some q ↔
    (p < 2 ^ Nat.log 2 n ∧ 2 ^ Nat.log 2 n ≤ q ∧ q < n ∧ q = p + (n - 2 ^ Nat.log 2 n)) ∨
    (q < 2 ^ Nat.log 2 n ∧ 2 ^ Nat.log 2 n ≤ p ∧ p = q + (n - 2 ^ Nat.log 2 n)) := by
  have le := near_le lt
  have lt' := lt_near (n := n)
  rw [remote, rdCreate_eq, Nat.shiftLeft_eq]
  dsimp only
  split
  · split
    · rw [Option.some.injEq]
      omega
    · rw [Option.some.injEq]
      omega
  · constructor
    · nofun
    · omega

lemma remote_lt (lt : p < n) (is : remote n p = some q) : q < n := by
  have le := near_le lt
  have := (remote_iff lt).1 is
  omega

lemma remote_symm (lt : p < n) (is : remote n p = some q) : remote n q = some p := by
  rw [remote_iff (remote_lt lt is)]
  have := (remote_iff lt).1 is
  omega

lemma remote_beyond (lt : p < n) (beyond : 2 ^ Nat.log 2 n ≤ p) :
    ∃ q < 2 ^ Nat.log 2 n, q < n ∧ remote n p = some q := by
  have le := near_le lt
  have lt' := lt_near (n := n)
  refine ⟨p - (n - 2 ^ Nat.log 2 n), by omega, by omega, ?_⟩
  rw [remote_iff lt]
  omega

end Kupl.Fence.Doubling
