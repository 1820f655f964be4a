import Kupl.Barrier.Dist

/-!
# Rounds of a barrier

What holds between the master and another thread over all rounds of `kupl_barrier_dist_wait`,
`kupl_barrier_dist_fork` and `kupl_barrier_dist_join`: each of the two takes the arrivals and releases of the
thread one after the other, and neither is more than one ahead (`Link`). From this follow that the rounds of
a barrier of one size keep the threads together, and that rounds of different sizes all end if the threads
are paired.
-/

namespace Kupl.Barrier
open Function (update_of_ne update_self)

/-- The counter of a thread that has arrived `m` times. -/
def counter (m : Nat) : BitVec 32 := BitVec.ofNat 32 (4 * m + 1)

lemma counter_bump {m : Nat} : counter m + stateBump = counter (m + 1) := by
  have four : (4 : BitVec 32).toNat = 4 := rfl
  apply BitVec.eq_of_toNat_eq
  simp only [counter, stateBump, BitVec.toNat_add, BitVec.toNat_ofNat, four]
  omega

lemma counter_eq {m n : Nat} : counter m = counter n ↔ m ≡ n [MOD 2 ^ 30] := by
  rw [← BitVec.toNat_inj]
  simp only [counter, BitVec.toNat_ofNat, Nat.ModEq]
  omega

/-- The thread is done with `x` events and the master with `y`. Whoever is ahead has done what the other one
waits for: an arrival, or a release, which the flag says. -/
structure Link (b x y : Nat) (ready : Bool) : Prop where
  ahead : x ≤ y ∨ x = y + 1 ∧ (y + b) % 2 = 0
  behind : y ≤ x ∨ y = x + 1 ∧ (x + b) % 2 = 1
  flag : ready = true ↔ y = x + 1

section Link
variable {b x y : Nat} {ready : Bool}

lemma Link.arrive (L : Link b x y ready) (even : (x + b) % 2 = 0) : Link b (x + 1) y ready := by
  obtain ⟨ahead, behind, flag⟩ := L
  have same : x = y := by omega
  refine ⟨.inr ⟨by omega, by omega⟩, .inl (by omega), ?_⟩
  rw [flag]
  omega

lemma Link.gather (L : Link b x y ready) (even : (y + b) % 2 = 0) (seen : x = y + 1) : Link b x (y + 1) ready := by
  obtain ⟨-, -, flag⟩ := L
  refine ⟨.inl (by omega), .inl (by omega), ?_⟩
  rw [flag]
  omega

lemma Link.release (L : Link b x y ready) (odd : (y + b) % 2 = 1) : Link b x (y + 1) true := by
  obtain ⟨ahead, behind, -⟩ := L
  have same : x = y := by omega
  exact ⟨.inl (by omega), .inr ⟨by omega, by omega⟩, by simp [same]⟩

lemma Link.leave (L : Link b x y true) : Link b (x + 1) y false := by
  have eq := L.flag.1 rfl
  exact ⟨.inl (by omega), .inl (by omega), by simp; omega⟩

lemma Link.arrivals (L : Link b x y ready) (hb : b ≤ 1) : x = y + 1 ∧ (x + 1 - b) / 2 = (y + 1 - b) / 2 + 1 ∨
      x ≤ y ∧ ((y + b) % 2 = 0 → (x + 1 - b) / 2 = (y + 1 - b) / 2) := by
  obtain ⟨le | ⟨rfl, even⟩, behind, -⟩ := L
  · refine .inr ⟨le, fun even => ?_⟩
    obtain ge | ⟨rfl, odd⟩ := behind
    · rw [Nat.le_antisymm le ge]
    · omega
  · exact .inl ⟨rfl, by omega⟩

end Link

def done (rounds : Nat → Round) (tid r : Nat) : Pc → Nat
  | .await | .leaving => events rounds tid r + if (rounds r).kind = .wait then 1 else 0
  | _ => events rounds tid r

/-- The events of a thread that the master is done with. -/
def led (rounds : Nat → Round) (tid r : Nat) : Pc → Nat
  | .gather _ i => events rounds tid r + if tid < (rounds r).tnum ∧ tid < i then 1 else 0
  | .release i => events rounds tid r + if tid < (rounds r).tnum then
      (if (rounds r).kind = .wait then 1 else 0) + if tid < i then 1 else 0
    else 0
  | _ => events rounds tid r

structure Master (rounds : Nat → Round) (s : State) : Prop where
  pc : match s.pc 0 with
    | .next => True
    | .gather new i => (rounds (s.round 0)).kind ≠ .fork ∧ 0 < (rounds (s.round 0)).tnum ∧ 1 ≤ i ∧
        i ≤ (rounds (s.round 0)).tnum ∧ new = s.enter 0 + stateBump
    | .release i => (rounds (s.round 0)).kind ≠ .join ∧ 0 < (rounds (s.round 0)).tnum ∧ 1 ≤ i ∧
        i ≤ (rounds (s.round 0)).tnum
    | _ => False
  counter : s.enter 0 = counter (arrivals rounds 0 (s.round 0) + match s.pc 0 with
    | .release _ => if (rounds (s.round 0)).kind = .wait then 1 else 0
    | _ => 0)

/-- What another thread is like. -/
structure Slave (rounds : Nat → Round) (b : Nat) (s : State) (tid : Nat) : Prop where
  pc : match s.pc tid with
    | .next => True
    | .entering v => (rounds (s.round tid)).kind ≠ .fork ∧ tid < (rounds (s.round tid)).tnum ∧ v = s.enter tid
    | .await => (rounds (s.round tid)).kind ≠ .join ∧ tid < (rounds (s.round tid)).tnum
    | .leaving => (rounds (s.round tid)).kind ≠ .join ∧ tid < (rounds (s.round tid)).tnum ∧ s.leave tid = true
    | _ => False
  counter : s.enter tid = counter ((done rounds tid (s.round tid) (s.pc tid) + 1 - b) / 2)
  link : Link b (done rounds tid (s.round tid) (s.pc tid)) (led rounds tid (s.round 0) (s.pc 0))
    (s.leave tid)
  released : s.released tid = led rounds tid (s.round 0) (s.pc 0) - (led rounds tid (s.round 0) (s.pc 0) + 1 - b) / 2

/-- The arrivals of every thread are the events `k` with `k + b` even. -/
def Parity (rounds : Nat → Round) (b : Nat → Nat) : Prop :=
  ∀ tid, 0 < tid → b tid ≤ 1 ∧ ∀ r,
    arrivals rounds tid r = (events rounds tid r + 1 - b tid) / 2 ∧ (tid < (rounds r).tnum →
      ((rounds r).kind = .fork ↔ (events rounds tid r + b tid) % 2 = 1))

structure Inv (rounds : Nat → Round) (b : Nat → Nat) (s : State) : Prop where
  master : Master rounds s
  slave : ∀ tid, 0 < tid → Slave rounds (b tid) s tid

section Step
variable {rounds : Nat → Round} {b : Nat → Nat} {s s' : State} {tid : Nat}

section
variable (I : Inv rounds b s)
include I

lemma Inv.of_slave (pos : 0 < tid) (same : ∀ t, t ≠ tid → s'.enter t = s.enter t ∧ s'.leave t = s.leave t ∧
      s'.released t = s.released t ∧ s'.round t = s.round t ∧ s'.pc t = s.pc t)
    (own : Slave rounds (b tid) s' tid) : Inv rounds b s' := by
  obtain ⟨enter0, -, -, round0, pc0⟩ := same 0 (by omega)
  refine ⟨⟨?_, ?_⟩, fun t ht => ?_⟩
  · rw [enter0, round0, pc0]
    exact I.master.pc
  · rw [enter0, round0, pc0]
    exact I.master.counter
  · by_cases eq : t = tid
    · subst eq
      exact own
    · obtain ⟨enter, leave, released, round, pc⟩ := same t eq
      have S := I.slave t ht
      refine ⟨?_, ?_, ?_, ?_⟩
      · rw [enter, leave, round, pc]
        exact S.pc
      · rw [enter, round, pc]
        exact S.counter
      · rw [leave, round, pc, round0, pc0]
        exact S.link
      · rw [released, round0, pc0]
        exact S.released

lemma Inv.slave_step (par : Parity rounds b) (pos : 0 < tid) (h : step rounds s tid = some s') : Inv rounds b s' := by
  have S := I.slave tid pos
  obtain ⟨hb, hpar⟩ := par tid pos
  have ne0 : (0 : Nat) ≠ tid := by omega
  obtain ⟨hpc, hcounter, hlink, hreleased⟩ := S
  unfold step at h
  cases hp : s.pc tid <;> simp only [hp] at h hpc hcounter hlink
  case next =>
    split at h
    · rename_i part
      split at h
      · rename_i fork
        cases h
        rw [if_neg (by omega)]
        refine I.of_slave pos (fun t ne => by simp [State.setPc, ne]) ⟨?_, ?_, ?_, ?_⟩ <;>
          simp only [State.setPc, update_self, update_of_ne ne0]
        · exact ⟨by rw [fork]; nofun, part⟩
        · simpa [done, fork] using hcounter
        · simpa [done, fork] using hlink
        · exact hreleased
      · rename_i arrives
        rw [if_neg (by omega)] at h
        cases h
        refine I.of_slave pos (fun t ne => by simp [State.setPc, ne]) ⟨?_, ?_, ?_, ?_⟩ <;>
          simp only [State.setPc, update_self, update_of_ne ne0]
        · exact ⟨arrives, part, trivial⟩
        · exact hcounter
        · exact hlink
        · exact hreleased
    · rename_i out
      cases h
      have same : events rounds tid (s.round tid + 1) = events rounds tid (s.round tid) := by
        simp [events, out]
      refine I.of_slave pos (fun t ne => by simp [State.endRound, ne]) ⟨?_, ?_, ?_, ?_⟩ <;>
        simp only [State.endRound, update_self, update_of_ne ne0]
      · simpa [done, same] using hcounter
      · simpa [done, same] using hlink
      · exact hreleased
  case entering v =>
    obtain ⟨arrives, part, rfl⟩ := hpc
    have even : (events rounds tid (s.round tid) + b tid) % 2 = 0 := by
      have odd := ((hpar (s.round tid)).2 part).not.1 arrives
      omega
    have next : counter ((events rounds tid (s.round tid) + 1 - b tid) / 2) + stateBump =
        counter ((events rounds tid (s.round tid) + 1 + 1 - b tid) / 2) := by
      rw [counter_bump]
      congr 1
      omega
    simp only [done] at hcounter hlink
    split at h
    · rename_i join
      cases h
      have more : events rounds tid (s.round tid + 1) = events rounds tid (s.round tid) + 1 := by
        simp [events, part, join]
      refine I.of_slave pos (fun t ne => by simp [State.setEnter, State.endRound, ne])
        ⟨?_, ?_, ?_, ?_⟩ <;>
        simp only [State.setEnter, State.endRound, update_self, update_of_ne ne0]
      · rw [hcounter, next]
        simp [done, more]
      · simpa [done, more] using hlink.arrive even
      · exact hreleased
    · rename_i notJoin
      cases h
      have wait : (rounds (s.round tid)).kind = .wait := by
        cases hk : (rounds (s.round tid)).kind with
        | wait => rfl
        | fork => exact absurd hk arrives
        | join => exact absurd hk notJoin
      refine I.of_slave pos (fun t ne => by simp [State.setEnter, State.setPc, ne])
        ⟨?_, ?_, ?_, ?_⟩ <;>
        simp only [State.setEnter, State.setPc, update_self, update_of_ne ne0]
      · exact ⟨notJoin, part⟩
      · rw [hcounter, next]
        simp [done, wait]
      · simpa [done, wait] using hlink.arrive even
      · exact hreleased
  case await =>
    split at h
    · rename_i ready
      cases h
      refine I.of_slave pos (fun t ne => by simp [State.setPc, ne]) ⟨?_, ?_, ?_, ?_⟩ <;>
        simp only [State.setPc, update_self, update_of_ne ne0]
      · exact ⟨hpc.1, hpc.2, ready⟩
      · exact hcounter
      · exact hlink
      · exact hreleased
    · cases h
  case leaving =>
    cases h
    obtain ⟨leaves, part, ready⟩ := hpc
    rw [ready] at hlink
    have more : events rounds tid (s.round tid + 1) = done rounds tid (s.round tid) .leaving + 1 := by
      cases hk : (rounds (s.round tid)).kind with
      | wait | fork => simp [events, done, part, hk]
      | join => exact absurd hk leaves
    -- the release is no arrival, so the counter is that of the events before it
    have odd : (done rounds tid (s.round tid) .leaving + b tid) % 2 = 1 := by
      have := hlink.flag.1 rfl
      rcases hlink.behind with le | ⟨-, odd⟩
      · omega
      · exact odd
    refine I.of_slave pos (fun t ne => by simp [State.setNotReady, State.endRound, ne])
      ⟨?_, ?_, ?_, ?_⟩ <;>
      simp only [State.setNotReady, State.endRound, update_self, update_of_ne ne0]
    · rw [hcounter]
      congr 1
      show _ = (events rounds tid (s.round tid + 1) + 1 - b tid) / 2
      omega
    · show Link _ (events rounds tid (s.round tid + 1)) _ _
      rw [more]
      exact hlink.leave
    · exact hreleased

lemma Inv.of_master (same : ∀ t, t ≠ 0 → s'.enter t = s.enter t ∧ s'.round t = s.round t ∧ s'.pc t = s.pc t)
    (own : Master rounds s')
    (slave : ∀ tid, 0 < tid → (s.leave tid = true → s'.leave tid = true) ∧
      Link (b tid) (done rounds tid (s.round tid) (s.pc tid)) (led rounds tid (s'.round 0) (s'.pc 0))
        (s'.leave tid) ∧
      s'.released tid = led rounds tid (s'.round 0) (s'.pc 0) -
        (led rounds tid (s'.round 0) (s'.pc 0) + 1 - b tid) / 2) : Inv rounds b s' := by
  refine ⟨own, fun tid pos => ?_⟩
  obtain ⟨enter, round, pc⟩ := same tid (by omega)
  obtain ⟨leave, link, released⟩ := slave tid pos
  have S := I.slave tid pos
  refine ⟨?_, ?_, ?_, released⟩
  · rw [enter, round, pc]
    have hpc := S.pc
    cases hp : s.pc tid <;> simp only [hp] at hpc ⊢
    case entering => exact hpc
    case await => exact hpc
    case leaving => exact ⟨hpc.1, hpc.2.1, leave hpc.2.2⟩
  · rw [enter, round, pc]
    exact S.counter
  · rw [round, pc]
    exact link

lemma Inv.of_master_same (same : ∀ t, t ≠ 0 → s'.enter t = s.enter t ∧ s'.round t = s.round t ∧
    s'.pc t = s.pc t)
    (leave : s'.leave = s.leave) (released : s'.released = s.released) (own : Master rounds s')
    (eq : ∀ tid, 0 < tid → led rounds tid (s'.round 0) (s'.pc 0) =
      led rounds tid (s.round 0) (s.pc 0)) : Inv rounds b s' := by
  apply I.of_master same own
  intro tid pos
  have S := I.slave tid pos
  rw [eq tid pos, leave, released]
  exact ⟨id, S.link, S.released⟩

lemma Inv.seen (P : Paired rounds) (par : Parity rounds b) {new : BitVec 32} {i : Nat} (hp : s.pc 0 = .gather new i)
    (lt : i < (rounds (s.round 0)).tnum) (eq : s.enter i = new) : done rounds i (s.round i) (s.pc i) =
      events rounds i (s.round 0) + 1 ∧ (events rounds i (s.round 0) + b i) % 2 = 0 := by
  have hpc := I.master.pc
  have hcounter := I.master.counter
  simp only [hp] at hpc hcounter
  obtain ⟨arrives, part, pos, -, rfl⟩ := hpc
  have S := I.slave i pos
  obtain ⟨hb, hpar⟩ := par i pos
  obtain ⟨arr, parity⟩ := hpar (s.round 0)
  have even : (events rounds i (s.round 0) + b i) % 2 = 0 := by
    have odd := (parity lt).not.1 arrives
    omega
  have hled : led rounds i (s.round 0) (s.pc 0) = events rounds i (s.round 0) := by
    simp [led, hp]
  have link := S.link
  rw [hled] at link
  rw [S.counter, hcounter, counter_bump, counter_eq] at eq
  have paired := P.even (s.round 0) i lt arrives
  rw [arr] at paired
  refine ⟨?_, even⟩
  rcases link.arrivals hb with ⟨ahead, -⟩ | ⟨-, same⟩
  · exact ahead
  · rw [same even] at eq
    -- one arrival more is another counter
    unfold Nat.ModEq at eq paired
    omega

lemma Inv.master_step (P : Paired rounds) (par : Parity rounds b)
    (h : step rounds s 0 = some s') : Inv rounds b s' := by
  have hpc := I.master.pc
  have hcounter := I.master.counter
  unfold step at h
  cases hp : s.pc 0 <;> simp only [hp] at h hpc hcounter
  case next =>
    split at h
    · rename_i part
      split at h
      · rename_i fork
        cases h
        refine I.of_master_same (fun t ne => by simp [State.setPc, ne]) rfl rfl ⟨?_, ?_⟩
          fun tid pos => ?_ <;> simp only [State.setPc, update_self]
        · exact ⟨by rw [fork]; rintro ⟨⟩, part, le_rfl, part⟩
        · simpa [fork] using hcounter
        · have : ¬ tid < 1 := by omega
          simp [led, hp, fork, this]
      · rename_i arrives
        cases h
        refine I.of_master_same (fun t ne => by simp [State.setPc, ne]) rfl rfl ⟨?_, ?_⟩
          fun tid pos => ?_ <;> simp only [State.setPc, update_self]
        · exact ⟨arrives, part, le_rfl, part, trivial⟩
        · exact hcounter
        · have : ¬ tid < 1 := by omega
          simp [led, hp, this]
    · rename_i out
      cases h
      refine I.of_master_same (fun t ne => by simp [State.endRound, ne]) rfl rfl ⟨?_, ?_⟩
        fun tid pos => ?_ <;> simp only [State.endRound, update_self]
      · simpa [arrivals, out] using hcounter
      · have : ¬ tid < (rounds (s.round 0)).tnum := by omega
        simp [led, hp, events, this]
  case gather new i =>
    obtain ⟨arrives, part, pos, le, hnew⟩ := hpc
    split at h
    · rename_i lt
      split at h
      · rename_i eq
        cases h
        obtain ⟨seen, even⟩ := I.seen P par hp lt eq
        refine I.of_master (fun t ne => by simp [State.setPc, ne]) ⟨?_, ?_⟩ fun tid ht => ?_ <;>
          simp only [State.setPc, update_self]
        · exact ⟨arrives, part, by omega, lt, hnew⟩
        · exact hcounter
        · have S := I.slave tid ht
          have hb := (par tid ht).1
          by_cases own : tid = i
          · subst own
            have more : led rounds tid (s.round 0) (.gather new (tid + 1)) =
                led rounds tid (s.round 0) (s.pc 0) + 1 := by simp [led, hp, lt]
            have now : led rounds tid (s.round 0) (s.pc 0) = events rounds tid (s.round 0) := by
              simp [led, hp]
            have released := S.released
            rw [more]
            rw [now] at released ⊢
            refine ⟨id, ?_, ?_⟩
            · have link := S.link
              rw [now] at link
              exact link.gather even seen
            · rw [released]
              omega
          · have same : led rounds tid (s.round 0) (.gather new (i + 1)) = led rounds tid (s.round 0) (s.pc 0) := by
              have : tid < i + 1 ↔ tid < i := by omega
              simp [led, hp, this]
            rw [same]
            exact ⟨id, S.link, S.released⟩
      · cases h
    · have all : ∀ tid, tid < (rounds (s.round 0)).tnum → tid < i := by
        intro tid ht
        omega
      split at h
      · rename_i join
        cases h
        refine I.of_master_same (fun t ne => by simp [State.setEnter, State.endRound, ne]) rfl rfl
          ⟨?_, ?_⟩ fun tid ht => ?_ <;>
          simp only [State.setEnter, State.endRound, update_self]
        · rw [hnew, hcounter]
          simp [arrivals, part, join, counter_bump]
        · simp only [led, hp, events, join]
          split
          · rename_i lt
            simp [lt, all tid lt]
          · rename_i out
            simp [out]
      · rename_i notJoin
        cases h
        have wait : (rounds (s.round 0)).kind = .wait := by
          cases hk : (rounds (s.round 0)).kind with
          | wait => rfl
          | fork => exact absurd hk arrives
          | join => exact absurd hk notJoin
        refine I.of_master_same (fun t ne => by simp [State.setEnter, State.setPc, ne]) rfl rfl
          ⟨?_, ?_⟩ fun tid ht => ?_ <;>
          simp only [State.setEnter, State.setPc, update_self]
        · exact ⟨notJoin, part, le_rfl, part⟩
        · rw [hnew, hcounter]
          simp [wait, counter_bump]
        · have : ¬ tid < 1 := by omega
          simp only [led, hp, wait, this]
          split
          · rename_i lt
            simp [lt, all tid lt]
          · rename_i out
            simp [out]
  case release i =>
    obtain ⟨leaves, part, pos, le⟩ := hpc
    split at h
    · rename_i lt
      cases h
      refine I.of_master (fun t ne => by simp [State.setReady, State.setPc, ne]) ⟨?_, ?_⟩
        fun tid ht => ?_ <;> simp only [State.setReady, State.setPc, update_self]
      · exact ⟨leaves, part, by omega, lt⟩
      · exact hcounter
      · have S := I.slave tid ht
        obtain ⟨hb, hpar⟩ := par tid ht
        by_cases own : tid = i
        · subst own
          have more : led rounds tid (s.round 0) (.release (tid + 1)) = led rounds tid (s.round 0) (s.pc 0) + 1 := by
            simp [led, hp, lt]
            omega
          have odd : (led rounds tid (s.round 0) (s.pc 0) + b tid) % 2 = 1 := by
            have parity := (hpar (s.round 0)).2 lt
            cases hk : (rounds (s.round 0)).kind with
            | wait =>
              have even := parity.not.1 (by rw [hk]; rintro ⟨⟩)
              simp [led, hp, lt, hk]
              omega
            | fork =>
              have odd := parity.1 hk
              simpa [led, hp, lt, hk] using odd
            | join => exact absurd hk leaves
          have released := S.released
          rw [more, update_self, update_self]
          refine ⟨fun _ => rfl, S.link.release odd, ?_⟩
          rw [released]
          omega
        · have same : led rounds tid (s.round 0) (.release (i + 1)) = led rounds tid (s.round 0) (s.pc 0) := by
            have : tid < i + 1 ↔ tid < i := by omega
            simp [led, hp, this]
          rw [same, update_of_ne own, update_of_ne own]
          exact ⟨id, S.link, S.released⟩
    · cases h
      refine I.of_master_same (fun t ne => by simp [State.endRound, ne]) rfl rfl ⟨?_, ?_⟩
        fun tid ht => ?_ <;> simp only [State.endRound, update_self]
      · cases hk : (rounds (s.round 0)).kind with
        | wait | fork => simpa [arrivals, part, hk] using hcounter
        | join => exact absurd hk leaves
      · simp only [led, hp, events]
        split
        · have : tid < i := by omega
          cases hk : (rounds (s.round 0)).kind with
          | wait | fork => simp [this]
          | join => exact absurd hk leaves
        · rfl

omit I in
lemma Inv.reachable (P : Paired rounds) (par : Parity rounds b)
    (h : (barrierMachine rounds).Reachable s) : Inv rounds b s := by
  apply h.inv
  · rintro _ rfl
    refine ⟨⟨trivial, rfl⟩, fun tid pos => ⟨trivial, ?_, ?_, ?_⟩⟩
    · simp only [done, events, Nat.zero_add]
      rw [show (1 - b tid) / 2 = 0 by omega]
      rfl
    · exact ⟨.inl le_rfl, .inl le_rfl, by simp [led, done, events]⟩
    · simp [led, events]
  · intro s tid s' I _ hs
    rcases Nat.eq_zero_or_pos tid with rfl | pos
    · exact I.master_step P par hs
    · exact I.slave_step par pos hs

omit I in
lemma Slave.flag {b : Nat} (S : Slave rounds b s tid) (part : tid < (rounds (s.round tid)).tnum)
    (hp : s.pc tid = .await) (led : events rounds tid (s.round tid + 1) ≤
      led rounds tid (s.round 0) (s.pc 0)) : s.leave tid = true := by
  have hpc := S.pc
  have link := S.link
  simp only [hp] at hpc link
  have more : events rounds tid (s.round tid + 1) = done rounds tid (s.round tid) .await + 1 := by
    cases hk : (rounds (s.round tid)).kind with
    | wait | fork => simp [events, done, part, hk]
    | join => exact absurd hk hpc.1
  have behind := link.behind
  exact link.flag.2 (by omega)

lemma Inv.arrived (P : Paired rounds) (par : Parity rounds b) {new : BitVec 32} {i : Nat} (hp : s.pc 0 = .gather new i)
    (lt : i < (rounds (s.round 0)).tnum) (done : events rounds i (s.round 0) + 1 ≤
      done rounds i (s.round i) (s.pc i)) :
    s.enter i = new := by
  have hpc := I.master.pc
  have hcounter := I.master.counter
  simp only [hp] at hpc hcounter
  obtain ⟨arrives, -, pos, -, rfl⟩ := hpc
  have S := I.slave i pos
  obtain ⟨hb, hpar⟩ := par i pos
  have hled : led rounds i (s.round 0) (s.pc 0) = events rounds i (s.round 0) := by
    simp [led, hp]
  have link := S.link
  rw [hled] at link
  rw [S.counter, hcounter, counter_bump, counter_eq]
  have paired := P.even (s.round 0) i lt arrives
  rw [(hpar (s.round 0)).1] at paired
  rcases link.arrivals hb with ⟨-, more⟩ | ⟨le, -⟩
  · rw [more]
    exact paired.add_right 1
  · omega

lemma Inv.progress (P : Paired rounds) (par : Parity rounds b) {r : Nat}
    (entered : ∀ tid < (rounds r).tnum, s.Entered tid r) (stay : ∃ tid < (rounds r).tnum, ¬ r < s.round tid) :
    ∃ tid < (rounds r).tnum, s.round tid = r ∧ (step rounds s tid).isSome := by
  -- a thread in the round that is neither before a comparison nor before its flag
  have free : ∀ tid < (rounds r).tnum, s.round tid = r → s.pc tid ≠ .await →
      (∀ new i, s.pc tid = .gather new i → i < (rounds r).tnum → s.enter i = new) →
      (step rounds s tid).isSome := by
    rintro tid part rfl notAwait gather
    unfold step
    cases hp : s.pc tid <;> simp only
    case next =>
      rw [if_pos part]
      split
      · rfl
      · split <;> rfl
    case gather new i =>
      split
      · rename_i lt
        rw [if_pos (gather new i hp lt)]
        rfl
      · split <;> rfl
    case release => split <;> rfl
    case entering => split <;> rfl
    case await => exact absurd hp notAwait
    case leaving => rfl
  obtain ⟨tid, part, here⟩ := stay
  have part0 : 0 < (rounds r).tnum := by omega
  rcases entered 0 part0 with ahead | ⟨round0, called⟩
  · -- the master has left, so it has set the flag of the thread
    rcases entered tid part with left | ⟨round, -⟩
    · exact absurd left here
    have pos : 0 < tid := by
      apply Nat.pos_of_ne_zero
      rintro rfl
      exact here ahead
    have S := I.slave tid pos
    refine ⟨tid, part, round, ?_⟩
    by_cases hp : s.pc tid = .await
    · have led : events rounds tid (s.round tid + 1) ≤ led rounds tid (s.round 0) (s.pc 0) := by
        apply (events_mono (show s.round tid + 1 ≤ s.round 0 by omega)).trans
        unfold Barrier.led
        split <;> omega
      subst round
      simp [step, hp, S.flag part hp led]
    · apply free tid part round hp
      intro new i gather
      have := S.pc
      simp only [gather] at this
  · have hpc := I.master.pc
    by_cases before : ∃ new i, s.pc 0 = .gather new i ∧ i < (rounds r).tnum ∧ s.enter i ≠ new
    · -- the thread that the master waits for has not arrived
      obtain ⟨new, i, gather, lt, ne⟩ := before
      simp only [gather] at hpc
      have S := I.slave i hpc.2.2.1
      have less : ¬ events rounds i (s.round 0) + 1 ≤ done rounds i (s.round i) (s.pc i) := by
        intro more
        exact ne (I.arrived P par gather (round0 ▸ lt) more)
      rcases entered i lt with left | ⟨round, calledi⟩
      · exfalso
        apply less
        have mono : events rounds i (s.round 0 + 1) ≤ events rounds i (s.round i) := by
          apply events_mono
          omega
        have more : events rounds i (s.round 0) + 1 ≤ events rounds i (s.round 0 + 1) := by
          simp only [events, round0, lt, if_true]
          split <;> omega
        unfold done
        split <;> omega
      · refine ⟨i, lt, round, free i lt round ?_ ?_⟩
        · intro await
          apply less
          have := S.pc
          simp only [await] at this
          have wait : (rounds (s.round i)).kind = .wait := by
            cases hk : (rounds (s.round i)).kind with
            | wait => rfl
            | fork =>
              rw [round0, ← round] at hpc
              exact absurd hk hpc.1
            | join => exact absurd hk this.1
          rw [round] at wait
          simp [done, await, wait, round0, round]
        · intro new' i' gather'
          have := S.pc
          simp only [gather'] at this
    · refine ⟨0, part0, round0, free 0 part0 round0 ?_ ?_⟩
      · intro await
        simp only [await] at hpc
      · intro new i gather lt
        apply Classical.byContradiction
        intro ne
        exact before ⟨new, i, gather, lt, ne⟩

end

end Step
end Kupl.Barrier
