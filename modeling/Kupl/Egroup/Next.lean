import Kupl.Egroup.Owners
import Mathlib.Data.List.GetD
import Mathlib.Order.Interval.Finset.Nat

/-!
# The executors in turn

`kupl_egroup_get_next` of `src/executor/kupl_executor_group.cpp` returns one executor of a group after the
other. The position is taken modulo the size when it is advanced, and not when members have left since: from
there on it may be behind the last member, and the executor returned is the one after `max_eid`.
-/

namespace Kupl.Group
open List

lemma range'_mod_perm (i n : Nat) : ((List.range' i n).map (· % n)).Perm (List.range n) := by
  have h := Nat.multiset_Ico_map_mod i n
  have ico : (Multiset.Ico i (i + n) : Multiset Nat) = (List.range' i n : List Nat) := by
    show ((List.range' i (i + n - i) : List Nat) : Multiset Nat) = _
    rw [Nat.add_sub_cancel_left]
  rw [ico, Multiset.map_coe] at h
  exact Multiset.coe_eq_coe.1 h

def EgroupInfo.members (g : EgroupInfo) : List Nat := g.eidSet.sort (· ≤ ·)

section GetNext
variable {g : EgroupInfo} {set : Finset Nat} {eid n next e : Nat}

@[simp] lemma EgroupInfo.members_length : g.members.length = g.eidSet.card :=
  Finset.length_sort _

@[simp] lemma EgroupInfo.mem_members : e ∈ g.members ↔ e ∈ g.eidSet := Finset.mem_sort _

lemma getNextLoop_eq : getNextLoop set eid n next = ((List.range' eid n).filter (· ∈ set))[next]?.getD
    (eid + n) := by
  induction n generalizing eid next with
  | zero => rfl
  | succ n ih =>
    rw [List.range'_succ, filter_cons]
    unfold getNextLoop
    by_cases mem : eid ∈ set
    · simp only [mem, if_true, decide_true]
      cases next with
      | zero => rfl
      | succ next =>
        rw [if_neg (Nat.succ_ne_zero next), ih, Nat.add_sub_cancel, List.getElem?_cons_succ]
        congr 1
        omega
    · simp only [mem, if_false, decide_false, Bool.false_eq_true]
      rw [ih]
      congr 1
      omega

lemma EgroupInfo.Ok.filter_range' (I : g.Ok) :
    (List.range' g.minEid (g.maxEid + 1 - g.minEid)).filter (· ∈ g.eidSet) = g.members := by
  apply @List.Perm.eq_of_pairwise _ (· ≤ ·)
  · intro a b _ _ h1 h2
    exact le_antisymm h1 h2
  · exact (pairwise_le_range' ..).filter _
  · exact Finset.pairwise_sort _ _
  · apply (perm_ext_iff_of_nodup ((nodup_range' ..).filter _) (Finset.sort_nodup _ _)).2
    intro e
    rw [mem_filter, mem_range'_1, decide_eq_true_eq]
    apply Iff.trans _ mem_members.symm
    constructor
    · exact fun h => h.2
    · intro mem
      have := I.low e mem
      have := I.high e mem
      exact ⟨⟨by omega, by omega⟩, mem⟩

lemma EgroupInfo.Ok.getNext_eq (I : g.Ok) (lt : next < g.members.length) : egroupGetNext g next = g.members[next] := by
  unfold egroupGetNext
  rw [getNextLoop_eq, I.filter_range', List.getElem?_eq_getElem lt]
  rfl

lemma EgroupInfo.Ok.getNext_mem (I : g.Ok) (ne : g.size ≠ 0) :
    egroupGetNext g next ∈ g.eidSet ↔ next < g.eidSet.card := by
  constructor
  · intro mem
    apply lt_of_not_ge
    intro ge
    unfold egroupGetNext at mem
    rw [getNextLoop_eq, I.filter_range', List.getElem?_eq_none (by simpa using ge)] at mem
    obtain ⟨e, he⟩ := I.nonempty ne
    have := I.high _ mem
    simp only [Option.getD_none] at this
    omega
  · intro lt
    rw [I.getNext_eq (by simpa using lt), ← mem_members]
    exact getElem_mem _

end GetNext

/-- The executors returned are members, and as many in a row as the group is large have each of them once. -/
structure Groups.Fair (s : Groups) (g : Nat) : Prop where
  member : ∀ e ∈ s.got g, e ∈ (s.egroup g).cur.eidSet
  each : ∀ i, i + (s.egroup g).cur.size ≤ (s.got g).length → ∀ e ∈ (s.egroup g).cur.eidSet,
    (((s.got g).drop i).take (s.egroup g).cur.size).count e = 1

/-- The position of a group is one of a member when it is used. -/
def InTurn (s : Groups) : GroupCall → Prop
  | .getNext g => (s.egroup g).cur.size ≠ 0 → s.next g < (s.egroup g).cur.eidSet.card
  | _ => True

instance (s : Groups) : ∀ c, Decidable (InTurn s c)
  | .getNext g => inferInstanceAs
      (Decidable ((s.egroup g).cur.size ≠ 0 → s.next g < (s.egroup g).cur.eidSet.card))
  | .create _ | .borrow _ _ | .ret _ _ | .reset _ => isTrue trivial

namespace Groups
variable {n g : Nat} {s s' : Groups} {c : GroupCall} {guard : Groups → GroupCall → Prop}

lemma built (h : (groupMachine n).Reach guard s) : Built n s.egroup := by
  induction h with
  | init h =>
    cases h
    exact .none
  | @step s c s' _ _ hs ih =>
    refine step_cases (P := fun _ s' => Built n s'.egroup) hs ?_ ?_ ?_ ?_ ?_ ?_
    · exact fun _ => ih
    · exact fun es g hc => ih.create s.created hc
    · exact fun dest src _ _ => ih.borrow dest src
    · exact fun dest src _ _ => ih.ret dest src
    · exact fun g _ => ih.reset g
    · intro g
      unfold Groups.advance
      simp only
      split <;> exact ih

/-- What was returned since the members have changed are the members from some position `p` on, in turn. -/
def Turn (s : Groups) (g : Nat) : Prop :=
  s.got g = [] ∨ ∃ p, s.next g = (p + (s.got g).length) % (s.egroup g).cur.size ∧
    (∀ i < (s.got g).length, (p + i) % (s.egroup g).cur.size < (s.egroup g).cur.eidSet.card) ∧
    s.got g = (List.range (s.got g).length).map fun i =>
      (s.egroup g).cur.members.getD ((p + i) % (s.egroup g).cur.size) 0

lemma Turn.fair (T : Turn s g) (I : (s.egroup g).cur.Ok) : s.Fair g := by
  rcases T with none | ⟨p, -, lt, eq⟩
  · refine ⟨by simp [none], fun i le e mem => ?_⟩
    -- there is no round of no turns, since the group has a member
    have := I.card_le
    have := Finset.card_pos.2 ⟨e, mem⟩
    rw [none, length_nil] at le
    omega
  · refine ⟨fun e mem => ?_, fun i le e mem => ?_⟩
    · rw [eq] at mem
      obtain ⟨i, hi, rfl⟩ := mem_map.1 mem
      have lt := lt i (mem_range.1 hi)
      rw [getD_eq_getElem _ _ (by simpa using lt), ← EgroupInfo.mem_members]
      exact getElem_mem _
    · have pos := Finset.card_pos.2 ⟨e, mem⟩
      have card := I.card_le
      generalize hm : (s.egroup g).cur.size = m at *
      -- every position is used in a round, so there are as many members
      have all : m ≤ (s.egroup g).cur.eidSet.card := by
        have mem' : m - 1 ∈ (List.range' (p + i) m).map (· % m) := by
          rw [(range'_mod_perm _ _).mem_iff]
          exact mem_range.2 (by omega)
        obtain ⟨j, hj, hjm⟩ := mem_map.1 mem'
        obtain ⟨hj1, hj2⟩ := mem_range'_1.1 hj
        have := lt (j - p) (by omega)
        rw [show p + (j - p) = j by omega] at this
        omega
      have window : ((s.got g).drop i).take m =
          ((List.range' (p + i) m).map (· % m)).map fun k => (s.egroup g).cur.members.getD k 0 := by
        apply ext_getElem
        · simp only [length_take, length_drop, length_map, length_range']
          omega
        · intro k hk hk'
          rw [getElem_take, getElem_drop, getElem_of_eq eq, getElem_map,
            getElem_range, getElem_map, getElem_map, getElem_range', one_mul,
            Nat.add_assoc]
      have perm : (((s.got g).drop i).take m).Perm (s.egroup g).cur.members := by
        rw [window]
        apply ((range'_mod_perm (p + i) m).map _).trans
        have eq : (List.range m).map (fun k => (s.egroup g).cur.members.getD k 0) = (s.egroup g).cur.members := by
          apply ext_getElem
          · rw [length_map, length_range, EgroupInfo.members_length]
            omega
          · intro k hk hk'
            rw [getElem_map, getElem_range, getD_eq_getElem _ _ hk']
        rw [eq]
      rw [perm.count_eq]
      exact count_eq_one_of_mem (Finset.sort_nodup _ _) (EgroupInfo.mem_members.2 mem)

lemma Turn.setEgroup (T : Turn s g) (E : Egroups) : Turn (s.setEgroup E) g := by
  by_cases same : (E g).cur.eidSet = (s.egroup g).cur.eidSet ∧ (E g).cur.size = (s.egroup g).cur.size
  · have got : (s.setEgroup E).got g = s.got g := if_pos same
    have members : (E g).cur.members = (s.egroup g).cur.members := by
      unfold EgroupInfo.members
      rw [same.1]
    show (s.setEgroup E).got g = [] ∨ ∃ p, s.next g =
        (p + ((s.setEgroup E).got g).length) % (E g).cur.size ∧ (∀ i < ((s.setEgroup E).got g).length,
          (p + i) % (E g).cur.size < (E g).cur.eidSet.card) ∧ (s.setEgroup E).got g =
        (List.range ((s.setEgroup E).got g).length).map fun i =>
          (E g).cur.members.getD ((p + i) % (E g).cur.size) 0
    rw [got, members, same.1, same.2]
    exact T
  · exact .inl (if_neg same)

lemma Turn.addEgroup (T : Turn s g) (x : Egroup) : Turn (s.addEgroup x) g := by
  by_cases eq : g = s.created
  · subst eq
    exact .inl (Function.update_self _ _ _)
  · unfold Turn Groups.addEgroup
    simp only [Function.update_of_ne eq]
    exact T

lemma Turn.advance (T : Turn s g) (I : ∀ g, (s.egroup g).cur.Ok) {g' : Nat}
    (turn : (s.egroup g').cur.size ≠ 0 → s.next g' < (s.egroup g').cur.eidSet.card) : Turn (s.advance g') g := by
  unfold Groups.advance
  simp only
  split
  · exact T
  rename_i ne
  have lt := turn ne
  have card := (I g').card_le
  by_cases eq : g = g'
  · subst eq
    refine .inr ?_
    simp only [Function.update_self]
    have now : egroupGetNext (s.egroup g).cur (s.next g) = (s.egroup g).cur.members.getD (s.next g) 0 := by
      have lt : s.next g < (s.egroup g).cur.members.length := by simpa using lt
      rw [(I g).getNext_eq lt, getD_eq_getElem _ _ lt]
    rcases T with none | ⟨p, next, below, got⟩
    · refine ⟨s.next g, ?_, ?_, ?_⟩
      · rw [none]
        rfl
      · intro i hi
        rw [none, nil_append, length_singleton, Nat.lt_one_iff] at hi
        rw [hi, Nat.add_zero, Nat.mod_eq_of_lt (by omega)]
        exact lt
      · rw [none, now, nil_append, length_singleton, range_one, map_singleton,
          Nat.add_zero, Nat.mod_eq_of_lt (by omega)]
    · refine ⟨p, ?_, ?_, ?_⟩
      · rw [next, length_append, length_singleton, Nat.mod_add_mod, Nat.add_assoc]
      · intro i hi
        rw [length_append, length_singleton] at hi
        rcases Nat.lt_succ_iff_lt_or_eq.1 hi with hi | rfl
        · exact below i hi
        · rw [← next]
          exact lt
      · rw [length_append, length_singleton, range_succ, map_append, ← got,
          map_singleton, ← next, now]
  · unfold Turn
    simp only [Function.update_of_ne eq]
    exact T

lemma Turn.step (T : ∀ g, Turn s g) (I : ∀ g, (s.egroup g).cur.Ok) (turn : InTurn s c)
    (h : (groupMachine n).step s c = some s') (g : Nat) : Turn s' g := by
  refine step_cases (P := fun c s' => InTurn s c → Turn s' g) h ?_ ?_ ?_ ?_ ?_ ?_ turn
  · exact fun _ _ => T g
  · exact fun _ x _ _ => (T g).addEgroup x
  · exact fun _ _ _ _ _ => (T g).setEgroup _
  · exact fun _ _ _ _ _ => (T g).setEgroup _
  · exact fun _ _ _ => (T g).setEgroup _
  · exact fun _ turn => (T g).advance I turn

end Groups

end Kupl.Group
