import Kupl.Barrier.Rounds
import Mathlib.Algebra.Order.BigOperators.Group.Finset

/-!
# Every round of a barrier ends

Once all threads of a round of `src/mt/barrier/kupl_barrier_dist.cpp` have entered it, the steps that are left
in it are finitely many and one of them can be taken, if the threads are paired (`paired_ends`). They are if
all threads take part in every `kupl_barrier_wait` (`barrier_together`), and need not be if a thread misses a
round.
-/

namespace Kupl.Barrier
open Function (update update_of_ne update_self)

/-- The steps that a thread has at most left in a round that it has entered. -/
def remaining (rounds : Nat → Round) (s : State) (r tid : Nat) : Nat :=
  if r < s.round tid then 0 else
    match s.pc tid with
    | .next => 2 * (rounds r).tnum + 3
    | .gather _ i => 2 * (rounds r).tnum + 2 - i
    | .release i => (rounds r).tnum + 1 - i
    | .entering _ => 3
    | .await => 2
    | .leaving => 1

section Ends
variable {rounds : Nat → Round} {b : Nat → Nat} {s s' : State} {tid r : Nat}

lemma step_pos (h : step rounds s tid = some s') :
    ∃ r pc, s'.round = update s.round tid r ∧ s'.pc = update s.pc tid pc ∧
      (r = s.round tid + 1 ∧ pc = .next ∧ (∀ new i, s.pc tid = .gather new i →
        (rounds (s.round tid)).tnum ≤ i) ∨
        r = s.round tid ∧ pc ≠ .next ∧ (s.pc tid ≠ .next →
          (∃ new i, s.pc tid = .gather new i ∧ i < (rounds r).tnum ∧ pc = .gather new (i + 1)) ∨
          (∃ new i, s.pc tid = .gather new i ∧ pc = .release 1) ∨
          (∃ i, s.pc tid = .release i ∧ i < (rounds r).tnum ∧ pc = .release (i + 1)) ∨
          (∃ v, s.pc tid = .entering v ∧ pc = .await) ∨
          s.pc tid = .await ∧ pc = .leaving)) := by
  have stay : s.round = update s.round tid (s.round tid) := by
    rw [Function.update_eq_self]
  unfold step at h
  cases hp : s.pc tid <;> simp only [hp] at h
  case next =>
    split at h
    · split at h
      · cases h
        refine ⟨_, _, stay, rfl, .inr ⟨rfl, ?_, fun called => absurd rfl called⟩⟩
        split <;> nofun
      · split at h
        · cases h
          exact ⟨_, _, stay, rfl, .inr ⟨rfl, nofun, fun called => absurd rfl called⟩⟩
        · cases h
          exact ⟨_, _, stay, rfl, .inr ⟨rfl, nofun, fun called => absurd rfl called⟩⟩
    · cases h
      exact ⟨_, _, rfl, rfl, .inl ⟨rfl, rfl, nofun⟩⟩
  case gather new i =>
    split at h
    · rename_i lt
      split at h
      · cases h
        exact ⟨_, _, stay, rfl, .inr ⟨rfl, nofun, fun _ => .inl ⟨new, i, rfl, lt, rfl⟩⟩⟩
      · cases h
    · rename_i ge
      split at h
      · cases h
        refine ⟨_, _, rfl, rfl, .inl ⟨rfl, rfl, ?_⟩⟩
        rintro _ _ ⟨rfl, rfl⟩
        exact Nat.le_of_not_lt ge
      · cases h
        exact ⟨_, _, stay, rfl, .inr ⟨rfl, nofun, fun _ => .inr (.inl ⟨new, i, rfl, rfl⟩)⟩⟩
  case release i =>
    split at h
    · rename_i lt
      cases h
      exact ⟨_, _, stay, rfl, .inr ⟨rfl, nofun, fun _ => .inr (.inr (.inl ⟨i, rfl, lt, rfl⟩))⟩⟩
    · cases h
      exact ⟨_, _, rfl, rfl, .inl ⟨rfl, rfl, nofun⟩⟩
  case entering v =>
    split at h
    · cases h
      exact ⟨_, _, rfl, rfl, .inl ⟨rfl, rfl, nofun⟩⟩
    · cases h
      exact ⟨_, _, stay, rfl, .inr ⟨rfl, nofun, fun _ => .inr (.inr (.inr (.inl ⟨v, rfl, rfl⟩)))⟩⟩
  case await =>
    split at h
    · cases h
      exact ⟨_, _, stay, rfl, .inr ⟨rfl, nofun, fun _ => .inr (.inr (.inr (.inr ⟨rfl, rfl⟩)))⟩⟩
    · cases h
  case leaving =>
    cases h
    exact ⟨_, _, rfl, rfl, .inl ⟨rfl, rfl, nofun⟩⟩

lemma Entered.step (h : step rounds s tid = some s') {t : Nat} (entered : s.Entered t r) : s'.Entered t r := by
  obtain ⟨r', pc, round, hpc, move⟩ := step_pos h
  unfold State.Entered at entered ⊢
  rw [round, hpc]
  by_cases eq : t = tid
  · subst eq
    rw [update_self, update_self]
    rcases move with ⟨rfl, -⟩ | ⟨rfl, called, -⟩
    · exact .inl (by omega)
    · rcases entered with left | ⟨round, -⟩
      · exact .inl left
      · exact .inr ⟨round, called⟩
  · rwa [update_of_ne eq, update_of_ne eq]

lemma Inv.remaining_lt (I : Inv rounds b s) (h : step rounds s tid = some s')
    (round : s.round tid = r) (called : s.pc tid ≠ .next) :
    remaining rounds s' r tid < remaining rounds s r tid ∧
      ∀ t, t ≠ tid → remaining rounds s' r t = remaining rounds s r t := by
  obtain ⟨r', pc, hround, hpc, move⟩ := step_pos h
  constructor
  · unfold remaining
    rw [hround, hpc, update_self, update_self]
    subst round
    rw [if_neg (lt_irrefl (s.round tid))]
    rcases move with ⟨rfl, rfl, ge⟩ | ⟨rfl, -, move⟩
    · -- the last step has a positive number
      rw [if_pos (Nat.lt_succ_self _)]
      rcases Nat.eq_zero_or_pos tid with rfl | pos
      · have M := I.master.pc
        cases hp : s.pc 0 <;> simp only [hp] at M ⊢ <;> omega
      · have S := (I.slave tid pos).pc
        cases hp : s.pc tid <;> simp only [hp] at S ⊢ <;> omega
    · rw [if_neg (lt_irrefl (s.round tid))]
      rcases move called with ⟨new, i, hp, lt, rfl⟩ | ⟨new, i, hp, rfl⟩ | ⟨i, hp, lt, rfl⟩ | ⟨v, hp,
        rfl⟩ | ⟨hp, rfl⟩
      · simp only [hp]
        omega
      · -- the master has compared the counters of all
        have zero : tid = 0 := by
          apply Classical.byContradiction
          intro ne
          have S := (I.slave tid (Nat.pos_of_ne_zero ne)).pc
          simp only [hp] at S
        subst zero
        have M := I.master.pc
        simp only [hp] at M ⊢
        omega
      · simp only [hp]
        omega
      · simp only [hp]
        omega
      · simp only [hp]
        omega
  · intro t ne
    unfold remaining
    rw [hround, hpc, update_of_ne ne, update_of_ne ne]

end Ends

/-- What a round promises once all its threads have entered it: one of them can go on as long as not all have
left, and there is a way for all to leave. -/
structure Ends (rounds : Nat → Round) (s : State) (r : Nat) : Prop where
  step : (∀ tid < (rounds r).tnum, r < s.round tid) ∨
    ∃ tid < (rounds r).tnum, s.round tid = r ∧ (step rounds s tid).isSome
  run : ∃ w s', (barrierMachine rounds).run (fun _ _ => True) s w = some s' ∧
    ∀ tid < (rounds r).tnum, r < s'.round tid

section Paired
variable {rounds : Nat → Round} {b : Nat → Nat} {s : State} {r : Nat}

lemma Inv.going (I : Inv rounds b s) (P : Paired rounds) (par : Parity rounds b)
    (entered : ∀ tid < (rounds r).tnum, s.Entered tid r) :
    (∀ tid < (rounds r).tnum, r < s.round tid) ∨
      ∃ tid < (rounds r).tnum, s.round tid = r ∧ (step rounds s tid).isSome := by
  by_cases all : ∀ tid < (rounds r).tnum, r < s.round tid
  · exact .inl all
  · right
    apply I.progress P par entered
    push Not at all
    obtain ⟨tid, part, ge⟩ := all
    exact ⟨tid, part, by omega⟩

lemma Inv.ends (I : Inv rounds b s) (P : Paired rounds) (par : Parity rounds b)
    (entered : ∀ tid < (rounds r).tnum, s.Entered tid r) : Ends rounds s r := by
  refine ⟨I.going P par entered, ?_⟩
  -- the induction is on the steps left
  induction hn : ∑ tid ∈ Finset.range (rounds r).tnum, remaining rounds s r tid using
    Nat.strong_induction_on generalizing s with
  | h n ih =>
    rcases I.going P par entered with all | ⟨tid, part, round, some⟩
    · exact ⟨[], s, rfl, all⟩
    · obtain ⟨s', hs⟩ := Option.isSome_iff_exists.1 some
      have called : s.pc tid ≠ .next := by
        rcases entered tid part with left | ⟨-, called⟩
        · omega
        · exact called
      obtain ⟨less, same⟩ := I.remaining_lt hs round called
      have I' : Inv rounds b s' := by
        rcases Nat.eq_zero_or_pos tid with rfl | pos
        · exact I.master_step P par hs
        · exact I.slave_step par pos hs
      have entered' : ∀ t < (rounds r).tnum, s'.Entered t r := fun t ht =>
        Entered.step hs (entered t ht)
      have fewer : ∑ t ∈ Finset.range (rounds r).tnum, remaining rounds s' r t < n := by
        rw [← hn]
        apply Finset.sum_lt_sum
        · intro t _
          by_cases eq : t = tid
          · subst eq
            exact less.le
          · exact (same t eq).le
        · exact ⟨tid, Finset.mem_range.2 part, less⟩
      obtain ⟨w, s'', hw, left⟩ := ih _ fewer I' entered' rfl
      refine ⟨tid :: w, s'', ?_, left⟩
      simp only [Machine.run, if_true]
      rw [show (barrierMachine rounds).step s tid = Option.some s' from hs]
      exact hw

lemma Paired.exists_parity (P : Paired rounds) : ∃ b, Parity rounds b := by
  choose! b hb using P.parity
  exact ⟨b, hb⟩

lemma paired_of_antitone (wait : ∀ r, (rounds r).kind = .wait)
    (anti : Antitone fun r => (rounds r).tnum) : Paired rounds := by
  have arr : ∀ r tid, tid < (rounds r).tnum → arrivals rounds tid r = r := by
    intro r
    induction r with
    | zero => exact fun _ _ => rfl
    | succ r ih =>
      intro tid part
      have before := lt_of_lt_of_le part (anti (Nat.le_succ r))
      simp [arrivals, before, wait r, ih tid before]
  have never : ∀ tid r, last rounds tid r ≠ .arrived := by
    intro tid r
    induction r with
    | zero => rintro ⟨⟩
    | succ r ih =>
      simp only [last, wait r]
      split
      · rintro ⟨⟩
      · exact ih
  refine ⟨fun r tid part _ => ?_, fun r tid _ _ _ => never tid r, fun r tid _ _ fork => ?_⟩
  · rw [arr r tid part, arr r 0 (by omega)]
  · rw [wait r] at fork
    cases fork

end Paired

/-- What waits of one size promise: nobody leaves a round before all have entered it; nobody is released
twice, or for another round; and once all have entered a round, somebody can go on until all have left. -/
structure Together (n : Nat) (s : State) : Prop where
  after : ∀ i < n, ∀ k < s.round i, ∀ j < n, s.Entered j k
  once : ∀ i < n, 0 < i → s.released i = s.round i + if s.leave i then 1 else 0
  flag : ∀ i < n, 0 < i → s.leave i = true → s.pc i = .await ∨ s.pc i = .leaving
  ends : ∀ k, (∀ i < n, s.Entered i k) → Ends (fun _ => ⟨.wait, n⟩) s k

lemma events_wait {n tid : Nat} (lt : tid < n) (r : Nat) : events (fun _ => ⟨.wait, n⟩) tid r = 2 * r := by
  induction r with
  | zero => rfl
  | succ r ih => simp [events, ih, lt, Nat.mul_succ]

end Kupl.Barrier
