import Kupl.Machine.Run
import Mathlib.Data.Nat.ModEq

/-!
# The barrier of a group

`src/mt/barrier/kupl_barrier_dist.cpp`: in a round the master, local number 0, waits until the others have
advanced their entry counters (`join`), then sets their flags, for which they wait (`fork`); a `wait` is a
join and a fork in one.

C++ → Lean naming: `kupl_barrier_dist_t` → `enter`, `leave` of `State`; `kupl_barrier_dist_wait`,
`kupl_barrier_dist_fork`, `kupl_barrier_dist_join` → `Kind.wait`, `Kind.fork`, `Kind.join`, the places of
the code in them → `Pc`; `local_tid`, `local_tnum` → `tid`, `tnum`.

A thread is a local number: who leaves it to another one has left the rounds before. The rounds of a barrier
are a sequence; in round `r` the local numbers below `tnum` take part. Every load and store of another
thread's field is a step of its own, and a thread that finds its condition false has no step. The counters
wrap around. `released` is history: how often the flag of a thread was set.
-/

namespace Kupl.Barrier
open Function (update)

/-- The operations of a barrier. -/
inductive Kind where
  | wait
  | fork
  | join
  deriving DecidableEq, Repr

/-- One call of the threads below `tnum`. -/
structure Round where
  kind : Kind
  tnum : Nat

/-- Where a thread is in its round. -/
inductive Pc where
  /-- Before the call. -/
  | next
  /-- The master compares the counter of the thread `i`. -/
  | gather (newState : BitVec 32) (i : Nat)
  /-- The master sets the flag of the thread `i`. -/
  | release (i : Nat)
  /-- Another thread has read its counter. -/
  | entering (b : BitVec 32)
  /-- It waits for its flag. -/
  | await
  /-- It has seen the flag. -/
  | leaving
  deriving DecidableEq

structure State where
  enter : Nat → BitVec 32
  leave : Nat → Bool
  released : Nat → Nat
  round : Nat → Nat
  pc : Nat → Pc

/-- C++ `KUPL_BARRIER_STATE_BUMP`. -/
def stateBump : BitVec 32 := 4

namespace State

def setPc (s : State) (tid : Nat) (pc : Pc) : State := { s with pc := update s.pc tid pc }

def setEnter (s : State) (tid : Nat) (b : BitVec 32) : State :=
  { s with enter := update s.enter tid b }

/-- The flag of a thread becomes `KUPL_BAR_READY_TO_GO`. -/
def setReady (s : State) (tid : Nat) : State :=
  { s with
    leave := update s.leave tid true
    released := update s.released tid (s.released tid + 1) }

/-- The flag of a thread becomes `KUPL_BAR_NOT_READY`. -/
def setNotReady (s : State) (tid : Nat) : State :=
  { s with leave := update s.leave tid false }

def endRound (s : State) (tid : Nat) : State :=
  { s with
    round := update s.round tid (s.round tid + 1)
    pc := update s.pc tid .next }

/-- A thread has called for a round, or is behind it. -/
def Entered (s : State) (tid r : Nat) : Prop := r < s.round tid ∨ s.round tid = r ∧ s.pc tid ≠ .next

instance (s : State) (tid r : Nat) : Decidable (s.Entered tid r) :=
  inferInstanceAs (Decidable (_ ∨ _))

end State

/-- The next step of a thread; `none` where it has to wait. -/
def step (rounds : Nat → Round) (s : State) (tid : Nat) : Option State :=
  let R := rounds (s.round tid)
  match s.pc tid with
  | .next =>
    if tid < R.tnum then
      if R.kind = .fork then some (s.setPc tid (if tid = 0 then .release 1 else .await))
      else if tid = 0 then some (s.setPc tid (.gather (s.enter tid + stateBump) 1))
      else some (s.setPc tid (.entering (s.enter tid)))
    else some (s.endRound tid)
  | .gather new i =>
    if i < R.tnum then
      if s.enter i = new then some (s.setPc tid (.gather new (i + 1))) else none
    else if R.kind = .join then some ((s.setEnter tid new).endRound tid)
    else some ((s.setEnter tid new).setPc tid (.release 1))
  | .release i =>
    if i < R.tnum then some ((s.setReady i).setPc tid (.release (i + 1)))
    else some (s.endRound tid)
  | .entering b =>
    if R.kind = .join then some ((s.setEnter tid (b + stateBump)).endRound tid)
    else some ((s.setEnter tid (b + stateBump)).setPc tid .await)
  | .await => if s.leave tid then some (s.setPc tid .leaving) else none
  | .leaving => some ((s.setNotReady tid).endRound tid)

/-- A barrier and its threads; all counters are `KUPL_BAR_NOT_READY` at first. -/
def barrierMachine (rounds : Nat → Round) : Machine State Nat where
  init s := s = ⟨fun _ => 1, fun _ => false, fun _ => 0, fun _ => 0, fun _ => .next⟩
  step := step rounds

/-- How often a thread has advanced its counter before round `r`. -/
def arrivals (rounds : Nat → Round) (tid : Nat) : Nat → Nat
  | 0 => 0
  | r + 1 => arrivals rounds tid r +
      if tid < (rounds r).tnum ∧ (rounds r).kind ≠ .fork then 1 else 0

inductive Last where
  | none
  | arrived
  | released

/-- What a thread did last before round `r`. -/
def last (rounds : Nat → Round) (tid : Nat) : Nat → Last
  | 0 => .none
  | r + 1 =>
    if tid < (rounds r).tnum then
      if (rounds r).kind = .join then .arrived else .released
    else last rounds tid r

/-- Every thread has advanced its counter as often as the master when it takes part in a join or wait, up to
a whole turn of the counter, and its arrivals and releases alternate. -/
structure Paired (rounds : Nat → Round) : Prop where
  even : ∀ r tid, tid < (rounds r).tnum → (rounds r).kind ≠ .fork →
    arrivals rounds tid r ≡ arrivals rounds 0 r [MOD 2 ^ 30]
  arrive : ∀ r tid, 0 < tid → tid < (rounds r).tnum → (rounds r).kind ≠ .fork → last rounds tid r ≠ .arrived
  release : ∀ r tid, 0 < tid → tid < (rounds r).tnum → (rounds r).kind = .fork → last rounds tid r ≠ .released

/-- The arrivals and releases of a thread before round `r`. -/
def events (rounds : Nat → Round) (tid : Nat) : Nat → Nat
  | 0 => 0
  | r + 1 => events rounds tid r +
      if tid < (rounds r).tnum then (if (rounds r).kind = .wait then 2 else 1) else 0

section Schedule
variable {rounds : Nat → Round} {tid r r' : Nat}

lemma events_mono (le : r ≤ r') : events rounds tid r ≤ events rounds tid r' := by
  induction le with
  | refl => exact le_rfl
  | step _ ih => exact ih.trans (Nat.le_add_right _ _)

lemma last_ne_none (lt : r < r') (part : tid < (rounds r).tnum) : last rounds tid r' ≠ .none := by
  induction r', lt using Nat.le_induction with
  | base =>
    show (if tid < (rounds r).tnum then _ else _) ≠ Last.none
    rw [if_pos part]
    split <;> nofun
  | succ r' _ ih =>
    show (if tid < (rounds r').tnum then _ else _) ≠ Last.none
    split
    · split <;> nofun
    · exact ih

lemma Paired.parity (P : Paired rounds) (tid : Nat) (pos : 0 < tid) : ∃ b ≤ 1,
    ∀ r, arrivals rounds tid r = (events rounds tid r + 1 - b) / 2 ∧ (tid < (rounds r).tnum →
      ((rounds r).kind = .fork ↔ (events rounds tid r + b) % 2 = 1)) := by
  -- a thread whose first round is a fork has odd arrivals
  obtain ⟨b, hb, first⟩ : ∃ b ≤ 1, ∀ r, last rounds tid r = .none → tid < (rounds r).tnum →
      ((rounds r).kind = .fork ↔ b = 1) := by
    by_cases h : ∃ r, last rounds tid r = .none ∧ tid < (rounds r).tnum ∧ (rounds r).kind = .fork
    · obtain ⟨r0, none, part, fork⟩ := h
      refine ⟨1, le_rfl, fun r none' part' => iff_of_true ?_ rfl⟩
      rcases lt_trichotomy r r0 with lt | rfl | gt
      · exact absurd none (last_ne_none lt part')
      · exact fork
      · exact absurd none' (last_ne_none gt part)
    · exact ⟨0, Nat.zero_le 1, fun r none part =>
        iff_of_false (fun fork => h ⟨r, none, part, fork⟩) (by omega)⟩
  have key : ∀ r, arrivals rounds tid r = (events rounds tid r + 1 - b) / 2 ∧
      (last rounds tid r = .none → events rounds tid r = 0) ∧
      (last rounds tid r = .arrived → (events rounds tid r + b) % 2 = 1) ∧
      (last rounds tid r = .released → (events rounds tid r + b) % 2 = 0) := by
    intro r
    induction r with
    | zero => exact ⟨by simp [arrivals, events]; omega, fun _ => rfl, nofun, nofun⟩
    | succ r ih =>
      obtain ⟨arr, none, arrived, released⟩ := ih
      have hf := first r
      have ha := P.arrive r tid pos
      have hr := P.release r tid pos
      simp only [arrivals, events, last]
      by_cases part : tid < (rounds r).tnum
      · cases hk : (rounds r).kind <;> cases hl : last rounds tid r <;>
          simp_all <;> omega
      · simp only [part, if_false, false_and, Nat.add_zero]
        exact ⟨arr, none, arrived, released⟩
  refine ⟨b, hb, fun r => ⟨(key r).1, fun part => ?_⟩⟩
  obtain ⟨-, none, arrived, released⟩ := key r
  have hf := first r
  have ha := P.arrive r tid pos part
  have hr := P.release r tid pos part
  cases hk : (rounds r).kind <;> cases hl : last rounds tid r <;> simp_all <;> omega

end Schedule
end Kupl.Barrier
