import Kupl.Loop.Flags

/-!
# Regions one after another

What the flags of `kupl::FlagBarrier` say while a master runs its regions: a flag is `FLAG_LEAVE` unless the
executor is selected, was notified and has not left, and then its value and the place of the executor belong
together (`Stage`). So no executor reads the slot while it is written, and none of them is late for the next
region: between the store of `FLAG_LEAVE` and the next poll it does nothing any more.
-/

namespace Kupl.Loop.Flags
open Kupl.Group List
open Function (update update_of_ne update_self)

/-- An executor whose slot names the master of the region, by where the master is. -/
def Named (limit : List Nat) (e : Nat) : Pc → Prop
  | .naming todo => e ∈ limit ∧ e ∉ todo
  | .notifying _ | .arriving | .polled | .arrived | .entered _ | .running _ _ | .leaving _ | .left =>
    e ∈ limit
  | _ => False

/-- An executor whose flag was set. -/
def Notified (limit : List Nat) (e : Nat) : Pc → Prop
  | .notifying todo => e ∈ limit ∧ e ∉ todo
  | .arriving | .polled | .arrived | .entered _ | .running _ _ | .leaving _ | .left => e ∈ limit
  | _ => False

/-- An executor whose flag the master has seen to be `FLAG_LEAVE`. -/
def Collected (limit : List Nat) (e : Nat) : Pc → Prop
  | .leaving todo => e ∈ limit ∧ e ∉ todo
  | .left => e ∈ limit
  | _ => False

/-- What the slot says of a region. -/
def Region.slot (r : Region) (R : Nat) : Slot := ⟨some R, r.numThreads⟩

@[simp] lemma Region.slot_contents {r : Region} {R : Nat} : (r.slot R).contents = some R := rfl

/-- The flag of the master, its slot and how often it has run the body of region `R`, by where it is. -/
def MasterAt (m R : Nat) (r : Region) (flag : Flag) (slot : Slot) (ran : Nat) : Pc → Prop
  | .idle | .called => flag = .leave ∧ ran = 0
  | .writing => flag = .leave ∧ ran = 0 ∧ r.kind ≠ .quick
  | .written => flag = .leave ∧ ran = 0 ∧ slot = r.slot R ∧ r.kind ≠ .quick
  | .settling _ | .spinning _ => flag = .leave ∧ ran = 0 ∧ slot = r.slot R ∧ r.kind = .team
  | .naming todo => flag = .leave ∧ ran = 0 ∧ slot = r.slot R ∧ r.kind = .team ∧ todo <:+ r.limit
  | .notifying todo => (m ∉ todo → flag = .ready) ∧ ran = 0 ∧ slot = r.slot R ∧ r.kind = .team ∧
      todo <:+ r.limit
  | .arriving | .polled => flag = .ready ∧ ran = 0 ∧ slot = r.slot R ∧ r.kind = .team
  | .arrived => flag = .arrived ∧ ran = 0 ∧ slot = r.slot R ∧ r.kind = .team
  | .entered k => k = m ∧ flag = .arrived ∧ ran = 0 ∧ slot = r.slot R ∧ r.kind = .team
  | .running k c => k = m ∧ c = r.slot R ∧ flag = .arrived ∧ ran = 1 ∧ slot = r.slot R ∧ r.kind = .team
  | .leaving todo => flag = .arrived ∧ ran = 1 ∧ slot = r.slot R ∧ r.kind = .team ∧ todo <:+ r.limit
  | .left => flag = .leave ∧ ran = 1 ∧ slot = r.slot R ∧ r.kind = .team
  | .quick => flag = .leave ∧ ran = 1 ∧ r.kind = .quick
  | .tasks => flag = .leave ∧ ran = 0 ∧ r.kind = .task

/-- The flag of a notified executor, where it is, and how often it has run the body. -/
inductive Stage (m : Nat) (c : Slot) : Flag → Pc → Nat → Prop where
  | ready : Stage m c .ready .idle 0
  | behind : Stage m c .ready .left 0
  | polled : Stage m c .ready .polled 0
  | arrived : Stage m c .arrived .arrived 0
  | entered : Stage m c .arrived (.entered m) 0
  | running : Stage m c .arrived (.running m c) 1
  | left : Stage m c .leave .left 1
  | gone : Stage m c .leave .idle 1

/-- How often an executor has run the body of a region. -/
def State.ran (s : State) (e r : Nat) : Nat := s.log.count (e, some r)

/-- The flags, the slot and the places of the executors belong together. -/
structure Inv (m : Nat) (regions : Nat → Region) (s : State) : Prop where
  master : MasterAt m s.region (regions s.region) (s.flag m) s.slot (s.ran m s.region) (s.pc m)
  named : ∀ e, Named (regions s.region).limit e (s.pc m) → s.masterEid e = m
  off : ∀ e, e ≠ m → ¬ Notified (regions s.region).limit e (s.pc m) →
    s.flag e = .leave ∧ (s.pc e = .idle ∨ s.pc e = .left) ∧ s.ran e s.region = 0
  on : ∀ e, e ≠ m → Notified (regions s.region).limit e (s.pc m) →
    Stage m ((regions s.region).slot s.region) (s.flag e) (s.pc e) (s.ran e s.region)
  collected : ∀ e, e ≠ m → Collected (regions s.region).limit e (s.pc m) → s.flag e = .leave
  past : ∀ r < s.region, ∀ e, s.ran e r = if e ∈ (regions r).selected m then 1 else 0
  future : ∀ r, s.region < r → ∀ e, s.ran e r = 0
  valid : ∀ x ∈ s.log, ∃ r, x.2 = some r ∧ x.1 ∈ (regions r).selected m
  pending : s.pending = []

/-- No executor other than the master comes up twice, and the master is selected. -/
structure Region.Once (m : Nat) (r : Region) : Prop where
  mem : r.kind = .team → m ∈ r.limit
  nodup : r.kind = .team → (r.limit.filter (· ≠ m)).Nodup

lemma Region.once_of_le {m : Nat} {r : Region} (I : r.egroup.Ok) (le : r.numThreads ≤ r.egroup.eidSet.card)
    (mem : m ∈ r.limit) : r.Once m where
  mem _ := mem
  nodup _ := (I.limit_nodup le).filter _

/-- No task that the master takes while it waits in a call makes another call at the same level. -/
def OneByOne (_ : State) : Label → Prop
  | .task _ => False
  | .call | .next _ => True

instance (s : State) : (l : Label) → Decidable (OneByOne s l)
  | .task _ => isFalse id
  | .call | .next _ => isTrue trivial

section Parts
variable {m R e : Nat} {limit todo : List Nat} {pc : Pc}

lemma Notified.named (h : Notified limit e pc) : Named limit e pc := by
  cases pc with
  | notifying todo => exact h.1
  | arriving | polled | arrived | entered | running | leaving | left => exact h
  | _ => exact h.elim

lemma notMem_of_suffix (nodup : (limit.filter (· ≠ m)).Nodup) (suffix : e :: todo <:+ limit)
    (ne : e ≠ m) : e ∉ todo := by
  have sub := (suffix.sublist.filter (· ≠ m)).nodup nodup
  rw [filter_cons_of_pos (by simpa using ne)] at sub
  intro mem
  exact (nodup_cons.1 sub).1 (mem_filter.2 ⟨mem, by simpa using ne⟩)

lemma MasterAt.selected {r : Region} {flag : Flag} {slot : Slot} {ran : Nat}
    (M : MasterAt m R r flag slot ran pc) (h : Notified r.limit e pc) : e ∈ r.selected m := by
  have team : r.kind = .team ∧ e ∈ r.limit := by
    cases pc with
    | notifying todo => exact ⟨M.2.2.2.1, h.1⟩
    | arriving | polled | arrived | left => exact ⟨M.2.2.2, h⟩
    | entered => exact ⟨M.2.2.2.2, h⟩
    | running => exact ⟨M.2.2.2.2.2, h⟩
    | leaving => exact ⟨M.2.2.2.1, h⟩
    | _ => exact h.elim
  unfold Region.selected
  rw [team.1]
  exact team.2

end Parts

section Slave
variable {m e : Nat} {regions : Nat → Region} {s s' : State}

lemma ran_append {x : Nat} {c : Option Nat} {r : Nat} : ({ s with log := s.log ++ [(x, c)] } : State).ran e r =
      s.ran e r + if x = e ∧ c = some r then 1 else 0 := by
  unfold State.ran
  rw [count_append, count_singleton]
  congr 1
  by_cases h : x = e ∧ c = some r
  · rw [if_pos h, if_pos (by simp [h.1, h.2])]
  · rw [if_neg h, if_neg (by simpa using h)]

lemma Inv.of_slave (I : Inv m regions s) (ne : e ≠ m)
    (slot : s'.slot = s.slot) (masterEid : s'.masterEid = s.masterEid) (region : s'.region = s.region)
    (pending : s'.pending = s.pending)
    (same : ∀ t, t ≠ e → s'.flag t = s.flag t ∧ s'.pc t = s.pc t ∧ ∀ r, s'.ran t r = s.ran t r)
    (ran : ∀ r, r ≠ s.region → s'.ran e r = s.ran e r)
    (valid : ∀ x ∈ s'.log, x ∈ s.log ∨ x = (e, some s.region) ∧ Notified (regions s.region).limit e (s.pc m))
    (off : ¬ Notified (regions s.region).limit e (s.pc m) →
      s'.flag e = .leave ∧ (s'.pc e = .idle ∨ s'.pc e = .left) ∧ s'.ran e s.region = 0)
    (on : Notified (regions s.region).limit e (s.pc m) →
      Stage m ((regions s.region).slot s.region) (s'.flag e) (s'.pc e) (s'.ran e s.region))
    (leave : s.flag e = .leave → s'.flag e = .leave) : Inv m regions s' := by
  obtain ⟨flagm, pcm, ranm⟩ := same m ne.symm
  refine ⟨?_, ?_, ?_, ?_, ?_, ?_, ?_, ?_, pending.trans I.pending⟩
  · rw [region, flagm, slot, ranm, pcm]
    exact I.master
  · rw [region, masterEid, pcm]
    exact I.named
  · rw [region, pcm]
    intro t ht
    by_cases eq : t = e
    · subst eq
      exact off
    · obtain ⟨flag, pc, ran⟩ := same t eq
      rw [flag, pc, ran]
      exact I.off t ht
  · rw [region, pcm]
    intro t ht
    by_cases eq : t = e
    · subst eq
      exact on
    · obtain ⟨flag, pc, ran⟩ := same t eq
      rw [flag, pc, ran]
      exact I.on t ht
  · rw [region, pcm]
    intro t ht done
    by_cases eq : t = e
    · subst eq
      exact leave (I.collected t ht done)
    · rw [(same t eq).1]
      exact I.collected t ht done
  · rw [region]
    intro r lt t
    rw [← I.past r lt t]
    by_cases eq : t = e
    · subst eq
      exact ran r (Nat.ne_of_lt lt)
    · exact (same t eq).2.2 r
  · rw [region]
    intro r gt t
    rw [← I.future r gt t]
    by_cases eq : t = e
    · subst eq
      exact ran r (Nat.ne_of_gt gt)
    · exact (same t eq).2.2 r
  · intro x mem
    rcases valid x mem with old | ⟨rfl, notified⟩
    · exact I.valid x old
    · exact ⟨s.region, rfl, I.master.selected notified⟩

lemma Inv.slot_some (I : Inv m regions s) (h : Notified (regions s.region).limit e (s.pc m)) :
    s.slot = (regions s.region).slot s.region := by
  have M := I.master
  cases hp : s.pc m <;> simp only [hp] at M h
  case notifying => exact M.2.2.1
  case arriving => exact M.2.2.1
  case polled => exact M.2.2.1
  case arrived => exact M.2.2.1
  case entered => exact M.2.2.2.1
  case running => exact M.2.2.2.2.1
  case leaving => exact M.2.2.1
  case left => exact M.2.2.1
  all_goals exact h.elim

lemma Inv.slave_step (I : Inv m regions s) (ne : e ≠ m) (h : step m regions s e = some s') : Inv m regions s' := by
  by_cases notified : Notified (regions s.region).limit e (s.pc m)
  · -- the executor goes through its stages
    have S := I.on e ne notified
    have named := I.named e notified.named
    have slot := I.slot_some notified
    have quiet : ∀ {f : Flag} {p : Pc}, s' = (s.setFlag e f).setPc e p →
        (s.flag e = .leave → f = .leave) → Stage m ((regions s.region).slot s.region) f p (s.ran e s.region) →
        Inv m regions s' := by
      rintro f p rfl leave stage
      apply I.of_slave ne
      · rfl
      · rfl
      · rfl
      · rfl
      · intro t ht
        simp [State.setFlag, State.setPc, ht, State.ran]
      · exact fun _ _ => rfl
      · exact fun x mem => .inl mem
      · exact fun out => absurd notified out
      · intro _
        show Stage m ((regions s.region).slot s.region) (update s.flag e f e) (update s.pc e p e) _
        rw [update_self, update_self]
        exact stage
      · simpa [State.setFlag, State.setPc] using leave
    have keep : ∀ {p : Pc}, s.setPc e p = (s.setFlag e (s.flag e)).setPc e p := by
      intro p
      simp [State.setFlag, State.setPc]
    unfold step at h
    generalize hf : s.flag e = flag at S
    generalize hp : s.pc e = pc at S h
    generalize hr : s.ran e s.region = ran at S
    cases S with
    | ready =>
      simp only [if_pos hf] at h
      cases h
      exact quiet keep (by rw [hf]; nofun) (by rw [hf, hr]; exact .polled)
    | behind =>
      simp only [if_neg ne] at h
      cases h
      exact quiet keep id (by rw [hf, hr]; exact .ready)
    | polled =>
      cases h
      exact quiet rfl (by rw [hf]; nofun) (by rw [hr]; exact .arrived)
    | arrived =>
      simp only [named] at h
      cases h
      exact quiet keep id (by rw [hf, hr]; exact .entered)
    | entered =>
      have own : s.slotOf m m = (regions s.region).slot s.region := by
        unfold State.slotOf
        rw [if_pos rfl, slot]
      simp only [own, Region.slot_contents] at h
      cases h
      apply I.of_slave ne
      · rfl
      · rfl
      · rfl
      · rfl
      · intro t ht
        refine ⟨rfl, update_of_ne ht _ _, fun r => ?_⟩
        apply ran_append.trans
        rw [if_neg fun both => ht both.1.symm]
        rfl
      · intro r other
        apply ran_append.trans
        rw [if_neg fun both => other (Option.some.inj both.2).symm]
        rfl
      · intro x mem
        rcases mem_append.1 mem with old | new
        · exact .inl old
        · exact .inr ⟨mem_singleton.1 new, notified⟩
      · exact fun out => absurd notified out
      · intro _
        have one : (({ s with log := s.log ++ [(e, some s.region)] } : State).setPc e
            (.running m ((regions s.region).slot s.region))).ran e s.region = 1 := by
          apply ran_append.trans
          rw [if_pos ⟨rfl, rfl⟩, hr]
        rw [one]
        show Stage m ((regions s.region).slot s.region) (s.flag e) (update s.pc e _ e) 1
        rw [hf, update_self]
        exact .running
      · exact id
    | running =>
      simp only [if_neg ne.symm] at h
      cases h
      exact quiet rfl (fun _ => rfl) (by rw [hr]; exact .left)
    | left =>
      simp only [if_neg ne] at h
      cases h
      exact quiet keep id (by rw [hf, hr]; exact .gone)
    | gone =>
      simp only [hf, reduceCtorEq, if_false] at h
      cases h
      exact I
  · -- it finds nothing to do
    obtain ⟨flag, place, zero⟩ := I.off e ne notified
    have idle : Inv m regions (s.setPc e .idle) := by
      apply I.of_slave ne
      · rfl
      · rfl
      · rfl
      · rfl
      · intro t ht
        exact ⟨rfl, update_of_ne ht _ _, fun _ => rfl⟩
      · exact fun _ _ => rfl
      · exact fun x mem => .inl mem
      · exact fun _ => ⟨flag, .inl (update_self _ _ _), zero⟩
      · exact fun on => absurd on notified
      · exact id
    unfold step at h
    rcases place with hp | hp <;> simp only [hp] at h
    · simp only [flag, reduceCtorEq, if_false] at h
      cases h
      exact I
    · simp only [if_neg ne] at h
      cases h
      exact idle

end Slave

section Master
variable {m : Nat} {regions : Nat → Region} {s s' : State}

section
variable (I : Inv m regions s)
include I

lemma Inv.of_master (region : s'.region = s.region) (pending : s'.pending = s.pending)
    (same : ∀ t, t ≠ m → s'.flag t = s.flag t ∧ s'.pc t = s.pc t ∧ ∀ r, s'.ran t r = s.ran t r)
    (ran : ∀ r, r ≠ s.region → s'.ran m r = s.ran m r)
    (valid : ∀ x ∈ s'.log, x ∈ s.log ∨ x = (m, some s.region) ∧ m ∈ (regions s.region).selected m)
    (master : MasterAt m s.region (regions s.region) (s'.flag m) s'.slot (s'.ran m s.region) (s'.pc m))
    (named : ∀ e, Named (regions s.region).limit e (s'.pc m) → s'.masterEid e = m)
    (notified : ∀ e, e ≠ m → (Notified (regions s.region).limit e (s'.pc m) ↔
      Notified (regions s.region).limit e (s.pc m)))
    (collected : ∀ e, e ≠ m → Collected (regions s.region).limit e (s'.pc m) → s.flag e = .leave) :
    Inv m regions s' := by
  refine ⟨by rwa [region], by rwa [region], ?_, ?_, ?_, ?_, ?_, ?_, pending.trans I.pending⟩
  · rw [region]
    intro e ne out
    obtain ⟨flag, pc, ran⟩ := same e ne
    rw [flag, pc, ran]
    exact I.off e ne ((notified e ne).not.1 out)
  · rw [region]
    intro e ne on
    obtain ⟨flag, pc, ran⟩ := same e ne
    rw [flag, pc, ran]
    exact I.on e ne ((notified e ne).1 on)
  · rw [region]
    intro e ne done
    rw [(same e ne).1]
    exact collected e ne done
  · rw [region]
    intro r lt e
    rw [← I.past r lt e]
    by_cases eq : e = m
    · subst eq
      exact ran r (Nat.ne_of_lt lt)
    · exact (same e eq).2.2 r
  · rw [region]
    intro r gt e
    rw [← I.future r gt e]
    by_cases eq : e = m
    · subst eq
      exact ran r (Nat.ne_of_gt gt)
    · exact (same e eq).2.2 r
  · intro x mem
    rcases valid x mem with old | ⟨rfl, sel⟩
    · exact I.valid x old
    · exact ⟨s.region, rfl, sel⟩

lemma Inv.move {flag : Nat → Flag} {slot : Slot} {names : Nat → Nat} {pc : Pc}
    (eq : s' = ⟨flag, names, slot, s.region, s.pending, update s.pc m pc, s.log⟩)
    (same : ∀ t, t ≠ m → flag t = s.flag t)
    (master : MasterAt m s.region (regions s.region) (flag m) slot (s.ran m s.region) pc)
    (named : ∀ e, Named (regions s.region).limit e pc → names e = m)
    (notified : ∀ e, e ≠ m → (Notified (regions s.region).limit e pc ↔
      Notified (regions s.region).limit e (s.pc m)))
    (collected : ∀ e, e ≠ m → Collected (regions s.region).limit e pc → s.flag e = .leave) :
      Inv m regions s' := by
  subst eq
  apply I.of_master
  · rfl
  · rfl
  · exact fun t ne => ⟨same t ne, update_of_ne ne _ _, fun _ => rfl⟩
  · exact fun _ _ => rfl
  · exact fun x mem => .inl mem
  · simp only [update_self]
    exact master
  · simpa only [update_self] using named
  · simpa only [update_self] using notified
  · simpa only [update_self] using collected

lemma Inv.runs {slot : Slot} {names : Nat → Nat} {pc : Pc}
    (eq : s' = ⟨s.flag, names, slot, s.region, s.pending, update s.pc m pc, s.log ++ [(m, some s.region)]⟩)
    (sel : m ∈ (regions s.region).selected m)
    (master : MasterAt m s.region (regions s.region) (s.flag m) slot (s.ran m s.region + 1) pc)
    (named : ∀ e, Named (regions s.region).limit e pc → names e = m)
    (notified : ∀ e, e ≠ m → (Notified (regions s.region).limit e pc ↔
      Notified (regions s.region).limit e (s.pc m)))
    (collected : ∀ e, e ≠ m → Collected (regions s.region).limit e pc → s.flag e = .leave) :
      Inv m regions s' := by
  subst eq
  apply I.of_master
  · rfl
  · rfl
  · intro t ne
    refine ⟨rfl, update_of_ne ne _ _, fun r => ?_⟩
    apply ran_append.trans
    rw [if_neg fun both => ne both.1.symm]
    rfl
  · intro r ne
    apply ran_append.trans
    rw [if_neg fun both => ne (Option.some.inj both.2).symm]
    rfl
  · intro x mem
    rcases mem_append.1 mem with old | new
    · exact .inl old
    · exact .inr ⟨mem_singleton.1 new, sel⟩
  · have one := ran_append (s := s) (e := m) (x := m) (c := some s.region) (r := s.region)
    rw [if_pos ⟨rfl, rfl⟩] at one
    simp only [update_self]
    exact one ▸ master
  · simpa only [update_self] using named
  · simpa only [update_self] using notified
  · simpa only [update_self] using collected

lemma Inv.end (eq : s' = s.ret m)
    (flag : s.flag m = .leave)
    (own : s.ran m s.region = if m ∈ (regions s.region).selected m then 1 else 0)
    (others : ∀ e, e ≠ m → s.flag e = .leave ∧ (s.pc e = .idle ∨ s.pc e = .left) ∧
      s.ran e s.region = if e ∈ (regions s.region).selected m then 1 else 0) :
    Inv m regions s' := by
  have alone : s.ret m = ⟨s.flag, s.masterEid, s.slot, s.region + 1, s.pending, update s.pc m .idle, s.log⟩ := by
    unfold State.ret
    rw [I.pending]
    rfl
  rw [alone] at eq
  subst eq
  refine ⟨?_, ?_, ?_, ?_, ?_, ?_, ?_, I.valid, I.pending⟩ <;> simp only [update_self]
  · exact ⟨flag, I.future (s.region + 1) (Nat.lt_succ_self _) m⟩
  · exact fun e named => named.elim
  · intro e ne _
    obtain ⟨leave, place, -⟩ := others e ne
    rw [update_of_ne ne]
    exact ⟨leave, place, I.future (s.region + 1) (Nat.lt_succ_self _) e⟩
  · exact fun e _ on => on.elim
  · exact fun e _ done => done.elim
  · intro r lt e
    rcases Nat.lt_succ_iff_lt_or_eq.1 lt with lt | rfl
    · exact I.past r lt e
    · by_cases eq : e = m
      · subst eq
        exact own
      · exact (others e eq).2.2
  · intro r gt e
    exact I.future r (Nat.lt_of_succ_lt gt) e

lemma Inv.notify (O : (regions s.region).Once m) {e : Nat} {todo : List Nat} (hp : s.pc m = .notifying (e :: todo))
    (ne : e ≠ m) : Inv m regions ((s.setFlag e .ready).setPc m (.notifying todo)) := by
  have M := I.master
  simp only [hp] at M
  obtain ⟨flag, zero, slot, team, suffix⟩ := M
  have last : e ∉ todo := notMem_of_suffix (O.nodup team) suffix ne
  have mem : e ∈ (regions s.region).limit := suffix.subset (mem_cons_self ..)
  have off := I.off e ne (by rw [hp]; exact fun on => on.2 (mem_cons_self ..))
  have others : ∀ x, x ≠ e → (x ∉ e :: todo ↔ x ∉ todo) := fun x hx => by simp [hx]
  refine ⟨?_, ?_, ?_, ?_, ?_, I.past, I.future, I.valid, I.pending⟩ <;>
    simp only [State.setFlag, State.setPc, update_self]
  · rw [update_of_ne ne.symm]
    refine ⟨fun out => flag ?_, zero, slot, team, (suffix_cons e todo).trans suffix⟩
    rwa [others m ne.symm]
  · intro x named
    exact I.named x (by rw [hp]; exact named)
  · intro x hx out
    have xe : x ≠ e := by
      rintro rfl
      exact out ⟨mem, last⟩
    rw [update_of_ne xe, update_of_ne hx]
    apply I.off x hx
    rw [hp]
    exact fun on => out ⟨on.1, (others x xe).1 on.2⟩
  · intro x hx on
    by_cases xe : x = e
    · subst xe
      rw [update_self, update_of_ne hx]
      show Stage m ((regions s.region).slot s.region) .ready (s.pc x) (s.ran x s.region)
      rw [off.2.2]
      rcases off.2.1 with hpx | hpx <;> rw [hpx]
      · exact .ready
      · exact .behind
    · rw [update_of_ne xe, update_of_ne hx]
      apply I.on x hx
      rw [hp]
      exact ⟨on.1, (others x xe).2 on.2⟩
  · exact fun x _ done => done.elim

lemma Inv.master_step (O : (regions s.region).Once m) (h : step m regions s m = some s') : Inv m regions s' := by
  have M := I.master
  have named := I.named
  have collected := I.collected
  have quiet : ∀ t, t ≠ m → s.flag t = s.flag t := fun _ _ => rfl
  have own : ∀ f t, t ≠ m → (s.setFlag m f).flag t = s.flag t := fun _ _ ne =>
    update_of_ne ne _ _
  have at_own : ∀ f, (s.setFlag m f).flag m = f := fun _ => update_self _ _ _
  unfold step at h
  cases hp : s.pc m <;> simp only [hp] at M h named collected
  case idle =>
    rw [if_neg (by rw [M.1]; nofun)] at h
    cases h
    exact I
  case called =>
    split at h
    · rename_i quick
      cases h
      apply I.runs rfl
      · simp [Region.selected, quick]
      · exact ⟨M.1, by rw [M.2], quick⟩
      · exact fun _ named => named.elim
      · simp only [hp]
        exact fun _ _ => Iff.rfl
      · exact fun _ _ done => done.elim
    · rename_i other
      cases h
      apply I.move rfl quiet
      · exact ⟨M.1, M.2, other⟩
      · exact fun _ named => named.elim
      · simp only [hp]
        exact fun _ _ => Iff.rfl
      · exact fun _ _ done => done.elim
  case writing =>
    cases h
    apply I.move rfl quiet
    · exact ⟨M.1, M.2.1, rfl, M.2.2⟩
    · exact fun _ named => named.elim
    · simp only [hp]
      exact fun _ _ => Iff.rfl
    · exact fun _ _ done => done.elim
  case written =>
    obtain ⟨flag, zero, slot, other⟩ := M
    split at h
    · rename_i task
      cases h
      apply I.move rfl quiet
      · exact ⟨flag, zero, task⟩
      · exact fun _ named => named.elim
      · simp only [hp]
        exact fun _ _ => Iff.rfl
      · exact fun _ _ done => done.elim
    · rename_i noTask
      have team : (regions s.region).kind = .team := by
        cases hk : (regions s.region).kind with
        | team => rfl
        | quick => exact absurd hk other
        | task => exact absurd hk noTask
      cases h
      apply I.move rfl quiet
      · exact ⟨flag, zero, slot, team⟩
      · exact fun _ named => named.elim
      · simp only [hp]
        exact fun _ _ => Iff.rfl
      · exact fun _ _ done => done.elim
  case settling todo =>
    obtain ⟨flag, zero, slot, team⟩ := M
    cases todo with
    | nil =>
      rw [slot] at h
      cases h
      apply I.move rfl quiet
      · exact ⟨flag, zero, slot, team, suffix_refl _⟩
      · exact fun _ named => absurd named.1 named.2
      · simp only [hp]
        exact fun _ _ => Iff.rfl
      · exact fun _ _ done => done.elim
    | cons e todo =>
      cases h
      apply I.move rfl quiet
      · exact ⟨flag, zero, slot, team⟩
      · exact fun _ named => named.elim
      · simp only [hp]
        exact fun _ _ => Iff.rfl
      · exact fun _ _ done => done.elim
  case spinning todo =>
    cases todo with
    | nil => cases h
    | cons e todo =>
      simp only at h
      split at h
      · cases h
        apply I.move rfl quiet
        · exact M
        · exact fun _ named => named.elim
        · simp only [hp]
          exact fun _ _ => Iff.rfl
        · exact fun _ _ done => done.elim
      · cases h
  case naming todo =>
    obtain ⟨flag, zero, slot, team, suffix⟩ := M
    cases todo with
    | nil =>
      rw [slot] at h
      cases h
      apply I.move rfl quiet
      · exact ⟨fun out => absurd (O.mem team) out, zero, slot, team, suffix_refl _⟩
      · exact fun e mem => named e ⟨mem, not_mem_nil⟩
      · intro e _
        rw [hp]
        exact iff_of_false (fun on => on.2 on.1) id
      · exact fun _ _ done => done.elim
    | cons e todo =>
      cases h
      apply I.move rfl quiet
      · exact ⟨flag, zero, slot, team, (suffix_cons e todo).trans suffix⟩
      · intro x mem
        by_cases eq : x = e
        · subst eq
          exact update_self _ _ _
        · show update s.masterEid e m x = m
          rw [update_of_ne eq]
          exact named x ⟨mem.1, by simp [eq, mem.2]⟩
      · simp only [hp]
        exact fun _ _ => Iff.rfl
      · exact fun _ _ done => done.elim
  case notifying todo =>
    obtain ⟨flag, zero, slot, team, suffix⟩ := M
    cases todo with
    | nil =>
      cases h
      apply I.move rfl quiet
      · exact ⟨flag not_mem_nil, zero, slot, team⟩
      · exact named
      · intro e _
        rw [hp]
        exact ⟨fun on => ⟨on, not_mem_nil⟩, fun on => on.1⟩
      · exact fun _ _ done => done.elim
    | cons e todo =>
      cases h
      by_cases ne : e = m
      · subst ne
        apply I.move rfl (own .ready)
        · exact ⟨fun _ => at_own .ready, zero, slot, team, (suffix_cons e todo).trans suffix⟩
        · exact named
        · intro x hx
          rw [hp]
          show x ∈ _ ∧ x ∉ todo ↔ x ∈ _ ∧ x ∉ e :: todo
          simp [hx]
        · exact fun _ _ done => done.elim
      · exact I.notify O hp ne
  case arriving =>
    rw [if_pos M.1] at h
    cases h
    apply I.move rfl quiet
    · exact M
    · exact named
    · simp only [hp]
      exact fun _ _ => Iff.rfl
    · exact fun _ _ done => done.elim
  case polled =>
    cases h
    apply I.move rfl (own .arrived)
    · exact ⟨at_own .arrived, M.2⟩
    · exact named
    · simp only [hp]
      exact fun _ _ => Iff.rfl
    · exact fun _ _ done => done.elim
  case arrived =>
    rw [named m (O.mem M.2.2.2)] at h
    cases h
    apply I.move rfl quiet
    · exact ⟨rfl, M⟩
    · exact named
    · simp only [hp]
      exact fun _ _ => Iff.rfl
    · exact fun _ _ done => done.elim
  case entered k =>
    obtain ⟨rfl, flag, zero, slot, team⟩ := M
    have found : s.slotOf k k = (regions s.region).slot s.region := by
      unfold State.slotOf
      rw [if_pos rfl, slot]
    rw [found, Region.slot_contents] at h
    cases h
    apply I.runs rfl
    · simpa [Region.selected, team] using O.mem team
    · exact ⟨rfl, rfl, flag, by rw [zero], slot, team⟩
    · exact named
    · simp only [hp]
      exact fun _ _ => Iff.rfl
    · exact fun _ _ done => done.elim
  case running k c =>
    obtain ⟨rfl, rfl, flag, one, slot, team⟩ := M
    rw [if_pos rfl] at h
    cases h
    apply I.move rfl quiet
    · exact ⟨flag, one, slot, team, suffix_refl _⟩
    · exact named
    · simp only [hp]
      exact fun _ _ => Iff.rfl
    · exact fun _ _ done => absurd done.1 done.2
  case leaving todo =>
    obtain ⟨flag, one, slot, team, suffix⟩ := M
    cases todo with
    | nil =>
      cases h
      apply I.move rfl (own .leave)
      · exact ⟨at_own .leave, one, slot, team⟩
      · exact named
      · simp only [hp]
        exact fun _ _ => Iff.rfl
      · exact fun e ne mem => collected e ne ⟨mem, not_mem_nil⟩
    | cons e todo =>
      simp only at h
      split at h
      · rename_i gone
        cases h
        apply I.move rfl quiet
        · exact ⟨flag, one, slot, team, (suffix_cons e todo).trans suffix⟩
        · exact named
        · simp only [hp]
          exact fun _ _ => Iff.rfl
        · intro x ne done
          by_cases eq : x = e
          · subst eq
            exact gone.resolve_left ne
          · exact collected x ne ⟨done.1, by simp [eq, done.2]⟩
      · cases h
  case left =>
    obtain ⟨flag, one, slot, team⟩ := M
    rw [if_pos trivial] at h
    cases h
    have sel : (regions s.region).selected m = (regions s.region).limit := by
      simp [Region.selected, team]
    apply I.end rfl flag
    · rw [sel, if_pos (O.mem team)]
      exact one
    · intro e ne
      rw [sel]
      by_cases mem : e ∈ (regions s.region).limit
      · rw [if_pos mem]
        have leave := collected e ne mem
        have S := I.on e ne (by rw [hp]; exact mem)
        rw [leave] at S
        generalize s.pc e = pc at S ⊢
        generalize s.ran e s.region = ran at S ⊢
        cases S with
        | left => exact ⟨leave, .inr rfl, rfl⟩
        | gone => exact ⟨leave, .inl rfl, rfl⟩
      · rw [if_neg mem]
        exact I.off e ne (by rw [hp]; exact mem)
  case quick =>
    obtain ⟨flag, one, quick⟩ := M
    cases h
    have sel : (regions s.region).selected m = [m] := by simp [Region.selected, quick]
    apply I.end rfl flag
    · rw [sel, if_pos (mem_singleton_self m)]
      exact one
    · intro e ne
      rw [sel, if_neg (by simpa using ne)]
      exact I.off e ne (by rw [hp]; exact id)
  case tasks =>
    obtain ⟨flag, zero, task⟩ := M
    cases h
    have sel : (regions s.region).selected m = [] := by simp [Region.selected, task]
    apply I.end rfl flag
    · rw [sel, if_neg not_mem_nil]
      exact zero
    · intro e ne
      rw [sel, if_neg not_mem_nil]
      exact I.off e ne (by rw [hp]; exact id)

lemma Inv.call (idle : s.pc m = .idle) : Inv m regions (s.setPc m .called) := by
  have M := I.master
  rw [idle] at M
  apply I.move rfl
  · exact fun _ _ => rfl
  · exact M
  · exact fun _ named => named.elim
  · simp only [idle]
    exact fun _ _ => Iff.rfl
  · exact fun _ _ done => done.elim

end

/-- The invariant holds while no call is made inside another one. -/
lemma Inv.reach (O : ∀ r, (regions r).Once m) (h : (flagMachine m regions).Reach OneByOne s) : Inv m regions s := by
  apply h.inv
  · rintro _ rfl
    exact ⟨⟨rfl, rfl⟩, fun _ named => named.elim, fun _ _ _ => ⟨rfl, .inl rfl, rfl⟩,
      fun _ _ on => on.elim, fun _ _ done => done.elim, fun _ lt => absurd lt (Nat.not_lt_zero _),
      fun _ _ _ => rfl, fun _ mem => absurd mem not_mem_nil, rfl⟩
  · intro s l s' I one hs
    cases l with
    | call =>
      obtain ⟨idle, eq⟩ := Option.ite_none_right_eq_some.1 hs
      cases eq
      exact I.call idle
    | task r => exact one.elim
    | next e =>
      by_cases ne : e = m
      · subst ne
        exact I.master_step (O s.region) hs
      · exact I.slave_step ne hs

end Master

/-- What a master and the executors promise about its regions: a body is run by a selected executor with the
contents of the region, by each of them once when the region is over, and by none more than once; and when
the master has returned, all have left. -/
structure OnceEach (m : Nat) (regions : Nat → Region) (s : State) : Prop where
  contents : ∀ x ∈ s.log, ∃ r ≤ s.region, x.2 = some r ∧ x.1 ∈ (regions r).selected m
  once : ∀ r < s.region, ∀ e, s.log.count (e, some r) = if e ∈ (regions r).selected m then 1 else 0
  upto : ∀ r e, s.log.count (e, some r) ≤ 1
  returned : s.pc m = .idle → ∀ e, s.flag e = .leave ∧ (s.pc e = .idle ∨ s.pc e = .left)

section Headline
variable {m : Nat} {regions : Nat → Region} {s : State}

/-- In any order of steps in which no call is made while another one waits, every region is run once by each of its
executors. -/
theorem flags_onceEach (O : ∀ r, (regions r).Once m) (h : (flagMachine m regions).Reach OneByOne s) :
    OnceEach m regions s := by
  have I := Inv.reach O h
  have upto : ∀ r e, s.log.count (e, some r) ≤ 1 := by
    intro r e
    rcases lt_trichotomy r s.region with lt | rfl | gt
    · have := I.past r lt e
      unfold State.ran at this
      rw [this]
      split <;> omega
    · show s.ran e s.region ≤ 1
      by_cases ne : e = m
      · subst ne
        have M := I.master
        cases hp : s.pc e <;> simp only [hp, MasterAt] at M <;> omega
      · by_cases on : Notified (regions s.region).limit e (s.pc m)
        · have S := I.on e ne on
          generalize s.ran e s.region = n at S ⊢
          generalize s.flag e = f at S
          generalize s.pc e = p at S
          cases S <;> omega
        · have := (I.off e ne on).2.2
          omega
    · have := I.future r gt e
      unfold State.ran at this
      omega
  refine ⟨fun x mem => ?_, I.past, upto, fun idle e => ?_⟩
  · obtain ⟨r, eq, sel⟩ := I.valid x mem
    refine ⟨r, ?_, eq, sel⟩
    apply le_of_not_gt
    intro gt
    have none := I.future r gt x.1
    have pos : 0 < s.log.count (x.1, some r) := count_pos_iff.2 (by rw [← eq]; exact mem)
    unfold State.ran at none
    omega
  · by_cases ne : e = m
    · subst ne
      have M := I.master
      simp only [idle] at M
      exact ⟨M.1, .inl idle⟩
    · obtain ⟨flag, place, -⟩ := I.off e ne (by rw [idle]; exact id)
      exact ⟨flag, place⟩

end Headline

/-- Two of four executors. -/
def pairGroup : Egroup := (egroupCreate 4 [0, 1]).getD ⟨.empty, .empty⟩

lemma egroupCreate_pair : egroupCreate 4 [0, 1] = some pairGroup := rfl

def pairRegion : Region := ⟨.team, pairGroup.cur, 2, false⟩

/-- Both run the body, and the master returns. -/
theorem flags_onceEach_two : ∃ s, (flagMachine 0 fun _ => pairRegion).Reach OneByOne s ∧ s.region = 1 ∧
    OnceEach 0 (fun _ => pairRegion) s := by
  have built : Built 4 (update (fun _ => ⟨.empty, .empty⟩) 0 pairGroup) :=
    .create 0 .none egroupCreate_pair
  have once : pairRegion.Once 0 := by
    apply Region.once_of_le
    · show pairGroup.cur.Ok
      have ok := (built.ok 0).1
      rwa [update_self] at ok
    · decide
    · decide
  refine Machine.shown_and (.call :: List.replicate 15 (.next 0) ++ List.replicate 6 (.next 1) ++
    List.replicate 4 (.next 0)) rfl (by decide) fun s h _ => ?_
  exact flags_onceEach (fun _ => once) h

/-- The two executors are in two groups, and one group borrows the other. -/
def lentGroups : Egroups :=
  egroupBorrow 0 1 (update (update (fun _ => ⟨.empty, .empty⟩) 0 pairGroup) 1 pairGroup)

lemma lentGroups_built : Built 4 lentGroups := by
  apply Built.borrow
  apply Built.create 1 _ egroupCreate_pair
  exact Built.create 0 .none egroupCreate_pair

def lentRegion : Region := ⟨.team, (lentGroups 0).cur, 4, false⟩

/-- An executor that has left is notified again, and runs the body a second time; and the body of a call is not run
where a task that the master takes while it waits calls for another region. -/
theorem flags_twice : (Built 4 lentGroups ∧ 0 ∈ lentRegion.selected 0 ∧
      ∃ s, (flagMachine 0 fun _ => lentRegion).Reachable s ∧ s.log.count (1, some 0) = 2) ∧
    ∃ s, (flagMachine 0 fun _ => { pairRegion with inTask := true }).Reachable s ∧ s.region = 1 ∧
      s.log.count (0, some 0) = 0 ∧ s.log.count (0, some 7) = 2 := by
  refine ⟨⟨lentGroups_built, by decide, Machine.exists_reach (.call :: List.replicate 11 (.next 0) ++
    List.replicate 6 (.next 1) ++ List.replicate 2 (.next 0) ++ List.replicate 4 (.next 1)) rfl (by decide)⟩, ?_⟩
  exact Machine.exists_reach (.call :: List.replicate 3 (.next 0) ++ .task 7 :: List.replicate 20 (.next 0) ++
    List.replicate 6 (.next 1) ++ List.replicate 19 (.next 0) ++ List.replicate 6 (.next 1) ++
    List.replicate 3 (.next 0)) rfl (by decide +kernel)

end Kupl.Loop.Flags
