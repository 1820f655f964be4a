import Kupl.Egroup.Info
import Kupl.Machine.Run

/-!
# Who owns an executor

Calls on the groups of `src/executor/kupl_executor_group.cpp`, in any order. A group counts its members,
numbers them and knows the bounds of their ids; `EgroupInfo.Agrees` says that these go together. They do
in exactly the groups that are not spoilt: where members are taken over from another group that shares some
of them, these are counted twice, and so they are in each group that takes over the members of a spoilt one.

C++ → Lean naming: `kupl_egroup_get_next` → `egroupGetNext`; `next` of `kupl_egroup_t` → `Groups.next`; the
calls → `GroupCall`.

A group is a number, the next one for each group that is created. `got` and the spoilt groups are history; `got` has
the executors that `kupl_egroup_get_next` returned since the members of the group have last changed.
-/

namespace Kupl.Group
open Finset
open Function (update update_of_ne update_self)

/-- The groups, with the number of those that were created. -/
structure Groups where
  egroup : Egroups
  created : Nat
  next : Nat → Nat
  got : Nat → List Nat

inductive GroupCall where
  | create (executors : List Int)
  | borrow (dest src : Nat)
  | ret (dest src : Nat)
  | reset (g : Nat)
  | getNext (g : Nat)

/-- Passes over `next` members from `eid` on, with `n` executors left up to the last (the loop of C++
`kupl_egroup_get_next`). -/
def getNextLoop (eidSet : Finset Nat) (eid : Nat) : (n next : Nat) → Nat
  | 0, _ => eid
  | n + 1, next =>
    if eid ∈ eidSet then
      if next = 0 then eid else getNextLoop eidSet (eid + 1) n (next - 1)
    else getNextLoop eidSet (eid + 1) n next

/-- The executor that is returned (C++ `kupl_egroup_get_next`). -/
def egroupGetNext (g : EgroupInfo) (next : Nat) : Nat :=
  getNextLoop g.eidSet g.minEid (g.maxEid + 1 - g.minEid) next

namespace Groups

def setEgroup (s : Groups) (E : Egroups) : Groups :=
  { s with
    egroup := E
    got := fun g =>
      if (E g).cur.eidSet = (s.egroup g).cur.eidSet ∧ (E g).cur.size = (s.egroup g).cur.size
        then s.got g else [] }

def addEgroup (s : Groups) (g : Egroup) : Groups where
  egroup := update s.egroup s.created g
  created := s.created + 1
  next := update s.next s.created 0
  got := update s.got s.created []

/-- The turn goes to the next member (C++ `kupl_egroup_get_next`). -/
def advance (s : Groups) (g : Nat) : Groups :=
  let cur := (s.egroup g).cur
  if cur.size = 0 then s
  else { s with
    next := update s.next g ((s.next g + 1) % cur.size)
    got := update s.got g (s.got g ++ [egroupGetNext cur (s.next g)]) }

end Groups

/-- Calls on groups of `n` executors. -/
def groupMachine (n : Nat) : Machine Groups GroupCall where
  init s := s = ⟨fun _ => ⟨.empty, .empty⟩, 0, fun _ => 0, fun _ => []⟩
  step s
    | .create es =>
      match egroupCreate n es with
      | none => some s
      | some g => some (s.addEgroup g)
    | .borrow dest src =>
      if dest < s.created ∧ src < s.created then
        some (s.setEgroup (egroupBorrow dest src s.egroup)) else none
    | .ret dest src =>
      if dest < s.created ∧ src < s.created then
        some (s.setEgroup (egroupReturn dest src s.egroup)) else none
    | .reset g => if g < s.created then some (s.setEgroup (egroupReset g s.egroup)) else none
    | .getNext g => if g < s.created then some (s.advance g) else none

/-- Size, members, local numbers and bounds of a group go together. -/
structure EgroupInfo.Agrees (g : EgroupInfo) : Prop where
  size : g.size = g.eidSet.card
  lids : Set.BijOn g.eid2lid g.eidSet (some '' Set.Iio g.size)
  null : ∀ e ∉ g.eidSet, g.eid2lid e = none
  bounds : ∀ e ∈ g.eidSet, g.minEid ≤ e ∧ e ≤ g.maxEid
  tight : g.eidSet.Nonempty → g.minEid ∈ g.eidSet ∧ g.maxEid ∈ g.eidSet

/-- The spoilt groups after a call: who takes over members of its own or of a spoilt group is spoilt until it is reset
or its members are taken over. -/
def spoil (s : Groups) (spoilt : Nat → Bool) : GroupCall → Nat → Bool
  | .borrow dest src | .ret dest src => fun g => g ≠ src && (spoilt g || g = dest &&
    (spoilt src || ¬ Disjoint (s.egroup dest).cur.eidSet (s.egroup src).cur.eidSet))
  | .reset g => update spoilt g false
  | .create _ | .getNext _ => spoilt

/-- The calls, and which groups are spoilt. -/
def trackedMachine (n : Nat) : Machine (Groups × (Nat → Bool)) GroupCall where
  init s := (groupMachine n).init s.1 ∧ s.2 = fun _ => false
  step s c := ((groupMachine n).step s.1 c).map fun s' => (s', spoil s.1 s.2 c)

/-- The executor is in no group that takes itself over, and a group that is reset neither loses it nor gets it back. -/
def Spared (e : Nat) (s : Groups) : GroupCall → Prop
  | .borrow dest src | .ret dest src => dest = src → e ∉ (s.egroup src).cur.eidSet
  | .reset g => e ∈ (s.egroup g).cur.eidSet ↔ e ∈ (s.egroup g).defInfo.eidSet
  | .create _ | .getNext _ => True

/-- What every group is like: its bounds are members. -/
structure EgroupInfo.Tight (g : EgroupInfo) : Prop where
  ok : g.Ok
  low : g.eidSet.Nonempty → g.minEid ∈ g.eidSet
  high : g.eidSet.Nonempty → g.maxEid ∈ g.eidSet
  none : g.eidSet = ∅ → g.minEid = executorIdMax ∧ g.maxEid = 0

/-- What a group is like that counts no member twice. -/
structure EgroupInfo.Exact (g : EgroupInfo) : Prop extends g.Tight where
  size : g.size = g.eidSet.card

lemma EgroupInfo.Exact.agrees {g : EgroupInfo} (X : g.Exact) : g.Agrees := by
  have I := X.ok
  have lid : ∀ e ∈ g.eidSet, ∃ l, g.eid2lid e = some l := fun e he =>
    Option.ne_none_iff_exists'.1 ((I.mem e).1 he)
  refine ⟨X.size, ⟨?_, ?_, ?_⟩, ?_, fun e he => ⟨I.low e he, I.high e he⟩, fun ne =>
    ⟨X.low ne, X.high ne⟩⟩
  · intro e he
    obtain ⟨l, hl⟩ := lid e he
    exact ⟨l, I.lt e l hl, hl.symm⟩
  · intro e he e' _ eq
    obtain ⟨l, hl⟩ := lid e he
    exact I.inj e e' l hl (eq ▸ hl)
  · rintro _ ⟨l, lt, rfl⟩
    -- as many numbers as members
    have sub : g.eidSet.image g.eid2lid ⊆ (Finset.range g.size).image some := by
      intro o ho
      obtain ⟨e, he, rfl⟩ := mem_image.1 ho
      obtain ⟨l, hl⟩ := lid e he
      exact mem_image.2 ⟨l, mem_range.2 (I.lt e l hl), hl.symm⟩
    have card : (g.eidSet.image g.eid2lid).card = g.eidSet.card := by
      apply card_image_of_injOn
      intro e he e' _ eq
      obtain ⟨l, hl⟩ := lid e he
      exact I.inj e e' l hl (eq ▸ hl)
    have all : g.eidSet.image g.eid2lid = (Finset.range g.size).image some := by
      apply eq_of_subset_of_card_le sub
      rw [card, ← X.size, card_image_of_injective _ (Option.some_injective _), card_range]
    have mem : some l ∈ g.eidSet.image g.eid2lid := by
      rw [all]
      exact mem_image_of_mem _ (mem_range.2 lt)
    obtain ⟨e, he, hl⟩ := mem_image.1 mem
    exact ⟨e, he, hl⟩
  · intro e he
    apply Classical.byContradiction
    intro ne
    exact he ((I.mem e).2 ne)

lemma EgroupInfo.Exact.empty : EgroupInfo.empty.Exact :=
  ⟨⟨.empty, fun ne => absurd ne not_nonempty_empty,
    fun ne => absurd ne not_nonempty_empty, fun _ => ⟨rfl, rfl⟩⟩, rfl⟩

lemma createLoop_exact {n i : Nat} {info g : EgroupInfo} {es : List Int} (le : n ≤ executorIdMax)
    (X : info.Exact) (hi : info.size = i) (h : createLoop n i info es = some g) : g.Exact := by
  induction es generalizing i info with
  | nil =>
    cases h
    exact X
  | cons e es ih =>
    have ok : ∀ g, createLoop n i info [e] = some g → g.Ok := fun g => createLoop_ok X.ok hi
    unfold createLoop at h ok
    split at h
    · cases h
    · rename_i range
      rw [if_neg range] at ok
      simp only at h ok
      split at h
      swap
      · cases h
      rename_i none
      rw [if_pos none] at ok
      have fresh : e.toNat ∉ info.eidSet := fun mem => (X.ok.mem _).1 mem none
      have lt : e.toNat < executorIdMax := by omega
      refine ih ⟨⟨ok _ rfl, ?_, ?_, ?_⟩, ?_⟩ (by simp only; omega) h
      · intro _
        split
        · exact mem_insert_self _ _
        · rcases info.eidSet.eq_empty_or_nonempty with none | some
          · have := (X.none none).1
            omega
          · exact mem_insert_of_mem (X.low some)
      · intro _
        simp only
        split
        · exact mem_insert_self _ _
        · rcases info.eidSet.eq_empty_or_nonempty with none | some
          · have zero : e.toNat = info.maxEid := by
              have := (X.none none).2
              omega
            rw [← zero]
            exact mem_insert_self _ _
          · exact mem_insert_of_mem (X.high some)
      · intro none
        exact absurd none (insert_ne_empty _ _)
      · rw [card_insert_of_notMem fresh, X.size]

lemma egroupCreate_exact {n : Nat} {es : List Int} {g : Egroup} (le : n ≤ executorIdMax)
    (h : egroupCreate n es = some g) : g.cur.Exact ∧ g.defInfo.Exact := by
  unfold egroupCreate at h
  split at h
  · cases h
  · obtain ⟨info, hi, rfl⟩ := Option.map_eq_some_iff.1 h
    exact ⟨createLoop_exact le .empty rfl hi, createLoop_exact le .empty rfl hi⟩

section Add
variable {dest src h : Nat} {E : Egroups}

lemma egroupAdd_none (zero : (E src).cur.size = 0) : egroupAdd dest src E = E := by
  simp [egroupAdd, zero]

lemma egroupAdd_ne (hd : h ≠ dest) (hs : h ≠ src) : egroupAdd dest src E h = E h := by
  unfold egroupAdd
  split
  · rfl
  · simp [setCur, hd, hs]

lemma EgroupInfo.Ok.inRange {g : EgroupInfo} (I : g.Ok) {e l : Nat} (hl : g.eid2lid e = some l) :
    e ∈ List.range' g.minEid (g.maxEid + 1 - g.minEid) := by
  have mem := (I.mem e).2 (by simp [hl])
  have := I.low e mem
  have := I.high e mem
  rw [List.mem_range'_1]
  omega

lemma egroupAdd_src (I : (E src).cur.Ok) (ne : (E src).cur.size ≠ 0) : (egroupAdd dest src E src).cur = .empty := by
  unfold egroupAdd
  simp only [if_neg ne, setCur, update_self]
  apply congrArg (EgroupInfo.mk 0 executorIdMax 0 ∅)
  funext e
  rw [addLids_src]
  split
  · rfl
  · rename_i out
    apply Classical.byContradiction
    intro some
    obtain ⟨l, hl⟩ := Option.ne_none_iff_exists'.1 some
    exact out (I.inRange hl)

lemma egroupAdd_dest (ne : (E src).cur.size ≠ 0) (other : dest ≠ src) :
    (egroupAdd dest src E dest).cur.eidSet = (E dest).cur.eidSet ∪ (E src).cur.eidSet ∧
    (egroupAdd dest src E dest).cur.size = (E dest).cur.size + (E src).cur.size ∧
    (egroupAdd dest src E dest).cur.minEid = min (E dest).cur.minEid (E src).cur.minEid ∧
    (egroupAdd dest src E dest).cur.maxEid = max (E dest).cur.maxEid (E src).cur.maxEid := by
  unfold egroupAdd
  simp only [if_neg ne, setCur, update_of_ne other, update_self]
  refine ⟨trivial, trivial, ?_, ?_⟩
  · split <;> omega
  · split <;> omega

end Add

lemma EgroupInfo.Tight.add {d s g : EgroupInfo} (D : d.Tight) (S : s.Tight) (ok : g.Ok)
    (set : g.eidSet = d.eidSet ∪ s.eidSet) (low : g.minEid = min d.minEid s.minEid)
    (high : g.maxEid = max d.maxEid s.maxEid) (ne : s.size ≠ 0) (le : s.minEid ≤ executorIdMax) : g.Tight := by
  have some : s.eidSet.Nonempty := S.ok.nonempty ne
  refine ⟨ok, ?_, ?_, ?_⟩
  · intro _
    rw [low, set]
    rcases d.eidSet.eq_empty_or_nonempty with none | some'
    · have := (D.none none).1
      rw [min_eq_right (by omega)]
      exact mem_union_right _ (S.low some)
    · rcases min_choice d.minEid s.minEid with eq | eq
      · rw [eq]
        exact mem_union_left _ (D.low some')
      · rw [eq]
        exact mem_union_right _ (S.low some)
  · intro _
    rw [high, set]
    rcases d.eidSet.eq_empty_or_nonempty with none | some'
    · have := (D.none none).2
      rw [max_eq_right (by omega)]
      exact mem_union_right _ (S.high some)
    · rcases max_choice d.maxEid s.maxEid with eq | eq
      · rw [eq]
        exact mem_union_left _ (D.high some')
      · rw [eq]
        exact mem_union_right _ (S.high some)
  · intro none
    rw [set, union_eq_empty] at none
    exact absurd none.2 some.ne_empty

lemma egroupAdd_tight {E : Egroups} {dest src : Nat} (X : ∀ g, (E g).cur.Tight)
    (le : (E src).cur.minEid ≤ executorIdMax) : ∀ g, (egroupAdd dest src E g).cur.Tight := by
  intro g
  by_cases zero : (E src).cur.size = 0
  · rw [egroupAdd_none zero]
    exact X g
  by_cases hs : g = src
  · subst hs
    rw [egroupAdd_src (X g).ok zero]
    exact EgroupInfo.Exact.empty.toTight
  by_cases hd : g = dest
  · subst hd
    obtain ⟨set, -, low, high⟩ := @egroupAdd_dest g src E zero hs
    exact (X g).add (X src) (egroupAdd_ok (fun g => (X g).ok) g) set low high zero le
  · rw [egroupAdd_ne hd hs]
    exact X g

namespace Groups
variable {n : Nat} {s s' : Groups} {c : GroupCall}

/-- The groups of a program. -/
structure Inv (n : Nat) (s : Groups) : Prop where
  tight : ∀ g, (s.egroup g).cur.Tight ∧ (s.egroup g).defInfo.Exact
  lt : ∀ g, (∀ e ∈ (s.egroup g).cur.eidSet, e < n) ∧ ∀ e ∈ (s.egroup g).defInfo.eidSet, e < n
  fresh : ∀ g, s.created ≤ g → s.egroup g = ⟨.empty, .empty⟩

lemma egroupAdd_defInfo {E : Egroups} {dest src g : Nat} : (egroupAdd dest src E g).defInfo = (E g).defInfo := by
  unfold egroupAdd
  split
  · rfl
  · simp

lemma Inv.add (I : Inv n s) (le : n ≤ executorIdMax) {dest src : Nat} (hd : dest < s.created)
    (hs : src < s.created) : Inv n (s.setEgroup (egroupAdd dest src s.egroup)) := by
  have low : (s.egroup src).cur.minEid ≤ executorIdMax := by
    rcases (s.egroup src).cur.eidSet.eq_empty_or_nonempty with none | some
    · exact ((I.tight src).1.none none).1.le
    · have := (I.lt src).1 _ ((I.tight src).1.low some)
      omega
  refine ⟨fun g => ⟨?_, ?_⟩, egroupAdd_lt I.lt, fun g ge => ?_⟩
  · exact egroupAdd_tight (fun g => (I.tight g).1) low g
  · show (egroupAdd dest src s.egroup g).defInfo.Exact
    rw [egroupAdd_defInfo]
    exact (I.tight g).2
  · show egroupAdd dest src s.egroup g = _
    have ge : s.created ≤ g := ge
    rw [egroupAdd_ne (by omega) (by omega)]
    exact I.fresh g ge

variable {es : List Int} {g : Egroup} {e : Nat}

lemma Inv.create (I : Inv n s) (le : n ≤ executorIdMax) (h : egroupCreate n es = some g) : Inv n (s.addEgroup g) := by
  refine ⟨fun g' => ?_, fun g' => ?_, fun g' ge => ?_⟩
  · simp only [addEgroup]
    by_cases eq : g' = s.created
    · subst eq
      rw [update_self]
      exact ⟨(egroupCreate_exact le h).1.toTight, (egroupCreate_exact le h).2⟩
    · rw [update_of_ne eq]
      exact I.tight g'
  · simp only [addEgroup]
    by_cases eq : g' = s.created
    · subst eq
      rw [update_self]
      exact egroupCreate_lt h
    · rw [update_of_ne eq]
      exact I.lt g'
  · simp only [addEgroup] at ge ⊢
    rw [update_of_ne (by omega)]
    exact I.fresh g' (by omega)

lemma Inv.reset (I : Inv n s) {g : Nat} (hg : g < s.created) : Inv n (s.setEgroup (egroupReset g s.egroup)) := by
  refine ⟨fun g' => ?_, fun g' => ?_, fun g' ge => ?_⟩
  · simp only [setEgroup, egroupReset, setCur]
    by_cases eq : g' = g
    · subst eq
      rw [update_self]
      exact ⟨(I.tight g').2.toTight, (I.tight g').2⟩
    · rw [update_of_ne eq]
      exact I.tight g'
  · simp only [setEgroup, egroupReset, setCur]
    by_cases eq : g' = g
    · subst eq
      rw [update_self]
      exact ⟨(I.lt g').2, (I.lt g').2⟩
    · rw [update_of_ne eq]
      exact I.lt g'
  · simp only [setEgroup, egroupReset, setCur] at ge ⊢
    rw [update_of_ne (by omega)]
    exact I.fresh g' ge

lemma Inv.advance (I : Inv n s) {g : Nat} : Inv n (s.advance g) := by
  unfold Groups.advance
  simp only
  split
  · exact I
  · exact ⟨I.tight, I.lt, I.fresh⟩

/-- What holds after each thing that a call does holds after the call. -/
lemma step_cases {P : GroupCall → Groups → Prop} (h : (groupMachine n).step s c = some s')
    (failed : ∀ es, P (.create es) s)
    (create : ∀ es g, egroupCreate n es = some g → P (.create es) (s.addEgroup g))
    (borrow : ∀ dest src, dest < s.created → src < s.created →
      P (.borrow dest src) (s.setEgroup (egroupBorrow dest src s.egroup)))
    (ret : ∀ dest src, dest < s.created → src < s.created →
      P (.ret dest src) (s.setEgroup (egroupReturn dest src s.egroup)))
    (reset : ∀ g, g < s.created → P (.reset g) (s.setEgroup (egroupReset g s.egroup)))
    (next : ∀ g, P (.getNext g) (s.advance g)) : P c s' := by
  cases c with
  | create es =>
    simp only [groupMachine] at h
    cases hc : egroupCreate n es with
    | none =>
      rw [hc] at h
      cases h
      exact failed es
    | some g =>
      rw [hc] at h
      cases h
      exact create es g hc
  | borrow dest src =>
    obtain ⟨⟨hd, hs⟩, eq⟩ := Option.ite_none_right_eq_some.1 h
    cases eq
    exact borrow dest src hd hs
  | ret dest src =>
    obtain ⟨⟨hd, hs⟩, eq⟩ := Option.ite_none_right_eq_some.1 h
    cases eq
    exact ret dest src hd hs
  | reset g =>
    obtain ⟨hg, eq⟩ := Option.ite_none_right_eq_some.1 h
    cases eq
    exact reset g hg
  | getNext g =>
    obtain ⟨-, eq⟩ := Option.ite_none_right_eq_some.1 h
    cases eq
    exact next g

lemma Inv.step (I : Inv n s) (le : n ≤ executorIdMax) (h : (groupMachine n).step s c = some s') : Inv n s' := by
  refine step_cases (P := fun _ s' => Inv n s') h ?_ ?_ ?_ ?_ ?_ ?_
  · exact fun _ => I
  · exact fun es g hc => I.create le hc
  · exact fun dest src hd hs => I.add le hd hs
  · exact fun dest src hd hs => I.add le hd hs
  · exact fun g hg => I.reset hg
  · exact fun g => I.advance

lemma Inv.start (h : (groupMachine n).init s) : Inv n s := by
  cases h
  exact ⟨fun _ => ⟨EgroupInfo.Exact.empty.toTight, .empty⟩, fun _ =>
    ⟨fun e he => absurd he (notMem_empty e),
    fun e he => absurd he (notMem_empty e)⟩, fun _ _ => rfl⟩

lemma Inv.reach (le : n ≤ executorIdMax) (h : (groupMachine n).Reachable s) : Inv n s :=
  h.inv (fun _ => .start) fun _ _ _ I _ hs => I.step le hs

/-- The spoilt groups are those whose size is more than the number of their members. -/
def Tracks (s : Groups × (Nat → Bool)) : Prop :=
  ∀ g, s.2 g = true ↔ (s.1.egroup g).cur.eidSet.card < (s.1.egroup g).cur.size

lemma Tracks.add {spoilt : Nat → Bool} (T : Tracks (s, spoilt)) (I : Inv n s) {dest src : Nat} :
    Tracks (s.setEgroup (egroupAdd dest src s.egroup), spoil s spoilt (.borrow dest src)) := by
  intro g
  have T : ∀ g, spoilt g = true ↔ (s.egroup g).cur.eidSet.card < (s.egroup g).cur.size := T
  have members g : (s.egroup g).cur.eidSet.card ≤ (s.egroup g).cur.size := (I.tight g).1.ok.card_le
  simp only [spoil, setEgroup, Bool.and_eq_true, Bool.or_eq_true, decide_eq_true_eq, T]
  by_cases zero : (s.egroup src).cur.size = 0
  · have none : (s.egroup src).cur.eidSet = ∅ := card_eq_zero.1 (by have := members src; omega)
    simp only [egroupAdd_none zero, none, zero, card_empty, disjoint_empty_right, not_true,
      lt_irrefl, or_self, and_false, or_false, and_iff_right_iff_imp]
    rintro more rfl
    rw [none, zero] at more
    cases more
  by_cases hs : g = src
  · subst hs
    rw [egroupAdd_src (I.tight g).1.ok zero]
    simp [EgroupInfo.empty]
  by_cases hd : g = dest
  · subst hd
    obtain ⟨set, size, -⟩ := @egroupAdd_dest g src s.egroup zero hs
    have cards := card_union_add_card_inter (s.egroup g).cur.eidSet (s.egroup src).cur.eidSet
    have := members g
    have := members src
    rw [set, size, disjoint_iff_inter_eq_empty, ← card_eq_zero]
    simp only [hs, not_false_eq_true, ne_eq, true_and]
    omega
  · rw [egroupAdd_ne hd hs]
    simp [hs, hd]

/-- In every run the spoilt groups are those that count a member twice. -/
lemma Tracks.reach (le : n ≤ executorIdMax) {s : Groups × (Nat → Bool)} (h : (trackedMachine n).Reachable s) :
    Inv n s.1 ∧ Tracks s := by
  refine h.inv (I := fun s => Inv n s.1 ∧ Tracks s) ?_ ?_
  · rintro ⟨s, _⟩ ⟨init, rfl⟩
    refine ⟨.start init, fun g => ?_⟩
    cases init
    simp [EgroupInfo.empty]
  rintro ⟨s, spoilt⟩ c s' ⟨I, T⟩ - hs
  obtain ⟨s', st, rfl⟩ := Option.map_eq_some_iff.1 hs
  refine ⟨I.step le st, ?_⟩
  refine step_cases (P := fun c s' => Tracks (s', spoil s spoilt c)) st ?_ ?_ ?_ ?_ ?_ ?_
  · exact fun _ => T
  · intro es g made g'
    have exact := (egroupCreate_exact le made).1
    have none : spoilt s.created = true ↔ (s.egroup s.created).cur.eidSet.card < (s.egroup s.created).cur.size :=
      T s.created
    rw [I.fresh _ le_rfl] at none
    simp only [spoil, addEgroup]
    by_cases new : g' = s.created
    · subst new
      rw [update_self, exact.size, none]
      exact iff_of_false (Nat.lt_irrefl 0) (Nat.lt_irrefl _)
    · rw [update_of_ne new]
      exact T g'
  · exact fun dest src _ _ => T.add I
  · exact fun dest src _ _ => T.add I
  · intro g _ g'
    simp only [spoil, setEgroup, egroupReset, setCur]
    by_cases here : g' = g
    · subst here
      rw [update_self, update_self, (I.tight g').2.size]
      simp
    · rw [update_of_ne here, update_of_ne here]
      exact T g'
  · intro g
    unfold Groups.advance
    simp only
    split
    · exact T
    · exact T

/-- An executor that is in the default of one group, or of none, is owned by as many. -/
structure Owned (e : Nat) (s : Groups) : Prop where
  none : (∀ g, e ∉ (s.egroup g).defInfo.eidSet) → ∀ g, e ∉ (s.egroup g).cur.eidSet
  one : (∃! g, e ∈ (s.egroup g).defInfo.eidSet) → ∃! g, e ∈ (s.egroup g).cur.eidSet

lemma mem_egroupAdd {E : Egroups} {dest src e g : Nat} (ok : (E src).cur.Ok) (ne : (E src).cur.size ≠ 0) :
    e ∈ (egroupAdd dest src E g).cur.eidSet ↔ g ≠ src ∧
      (e ∈ (E g).cur.eidSet ∨ g = dest ∧ e ∈ (E src).cur.eidSet) := by
  by_cases hs : g = src
  · subst hs
    rw [egroupAdd_src ok ne]
    simp [EgroupInfo.empty]
  by_cases hd : g = dest
  · subst hd
    rw [(egroupAdd_dest ne hs).1, mem_union]
    simp [hs]
  · rw [egroupAdd_ne hd hs]
    simp [hs, hd]

lemma Owned.add (O : Owned e s) (I : Inv n s) {dest src : Nat}
    (other : dest = src → e ∉ (s.egroup src).cur.eidSet) :
    Owned e (s.setEgroup (egroupAdd dest src s.egroup)) := by
  by_cases zero : (s.egroup src).cur.size = 0
  · refine ⟨?_, ?_⟩ <;> simp only [setEgroup, egroupAdd_none zero]
    · exact O.none
    · exact O.one
  have ok := (I.tight src).1.ok
  refine ⟨?_, ?_⟩ <;> simp only [setEgroup, egroupAdd_defInfo, mem_egroupAdd ok zero]
  · rintro out g ⟨-, mem | ⟨-, mem⟩⟩
    · exact O.none out g mem
    · exact O.none out src mem
  · intro uniq
    obtain ⟨g, mem, same⟩ := O.one uniq
    by_cases hg : g = src
    · subst hg
      refine ⟨dest, ⟨fun self => other self mem, .inr ⟨rfl, mem⟩⟩, ?_⟩
      rintro g' ⟨ne, mem' | ⟨eq, -⟩⟩
      · exact absurd (same g' mem') ne
      · exact eq
    · refine ⟨g, ⟨hg, .inl mem⟩, ?_⟩
      rintro g' ⟨ne, mem' | ⟨-, mem'⟩⟩
      · exact same g' mem'
      · exact absurd (same src mem').symm hg

lemma egroupCreate_same (h : egroupCreate n es = some g) : g.cur = g.defInfo := by
  unfold egroupCreate at h
  split at h
  · cases h
  · obtain ⟨info, -, rfl⟩ := Option.map_eq_some_iff.1 h
    rfl

lemma Owned.create (O : Owned e s) (I : Inv n s) (h : egroupCreate n es = some g) : Owned e (s.addEgroup g) := by
  have fresh := I.fresh s.created le_rfl
  have out : e ∉ (s.egroup s.created).defInfo.eidSet ∧ e ∉ (s.egroup s.created).cur.eidSet := by
    rw [fresh]
    exact ⟨notMem_empty e, notMem_empty e⟩
  have same := egroupCreate_same h
  -- the other groups are as before
  have at_ne : ∀ g', g' ≠ s.created → (s.addEgroup g).egroup g' = s.egroup g' := fun g' ne =>
    update_of_ne ne _ _
  have at_new : (s.addEgroup g).egroup s.created = g := update_self _ _ _
  by_cases he : e ∈ g.defInfo.eidSet
  · refine ⟨fun none => ?_, ?_⟩
    · exact absurd he (at_new ▸ none s.created)
    rintro ⟨h, mem, uniq⟩
    have eq : s.created = h := uniq s.created (by simp only [at_new]; exact he)
    subst eq
    -- nobody had it before
    have none : ∀ g', e ∉ (s.egroup g').defInfo.eidSet := by
      intro g' mem'
      by_cases eq : g' = s.created
      · subst eq
        exact out.1 mem'
      · exact eq (uniq g' (by simp only [at_ne g' eq]; exact mem'))
    refine ⟨s.created, ?_, ?_⟩
    · simp only [at_new, same]
      exact he
    · intro g' mem'
      apply Classical.byContradiction
      intro ne
      simp only [at_ne g' ne] at mem'
      exact O.none none g' mem'
  · have def_iff : ∀ g', e ∈ ((s.addEgroup g).egroup g').defInfo.eidSet ↔
      e ∈ (s.egroup g').defInfo.eidSet := by
      intro g'
      by_cases eq : g' = s.created
      · subst eq
        rw [at_new]
        exact iff_of_false he out.1
      · rw [at_ne g' eq]
    have cur_iff : ∀ g', e ∈ ((s.addEgroup g).egroup g').cur.eidSet ↔ e ∈ (s.egroup g').cur.eidSet := by
      intro g'
      by_cases eq : g' = s.created
      · subst eq
        rw [at_new, same]
        exact iff_of_false he out.2
      · rw [at_ne g' eq]
    refine ⟨?_, ?_⟩ <;> simp only [def_iff, cur_iff]
    · exact O.none
    · exact O.one

lemma Owned.reset {e g : Nat} (O : Owned e s) (spared : e ∈ (s.egroup g).cur.eidSet ↔
    e ∈ (s.egroup g).defInfo.eidSet) :
    Owned e (s.setEgroup (egroupReset g s.egroup)) := by
  have cur_iff : ∀ g', e ∈ (egroupReset g s.egroup g').cur.eidSet ↔ e ∈ (s.egroup g').cur.eidSet := by
    intro g'
    simp only [egroupReset, setCur]
    by_cases eq : g' = g
    · subst eq
      rw [update_self]
      exact spared.symm
    · rw [update_of_ne eq]
  have same : ∀ g', (egroupReset g s.egroup g').defInfo = (s.egroup g').defInfo := fun g' =>
    setCur_defInfo
  refine ⟨?_, ?_⟩ <;> simp only [setEgroup, same, cur_iff]
  · exact O.none
  · exact O.one

lemma Owned.step (O : Owned e s) (I : Inv n s) (spared : Spared e s c)
    (h : (groupMachine n).step s c = some s') : Owned e s' := by
  refine step_cases (P := fun c s' => Spared e s c → Owned e s') h ?_ ?_ ?_ ?_ ?_ ?_ spared
  · exact fun _ _ => O
  · exact fun es g hc _ => O.create I hc
  · exact fun dest src _ _ other => O.add I other
  · exact fun dest src _ _ other => O.add I other
  · exact fun g _ spared => O.reset spared
  · intro g _
    unfold Groups.advance
    simp only
    split
    · exact O
    · exact ⟨O.none, O.one⟩

/-- An executor that is spared has one owner. -/
lemma Owned.reach (le : n ≤ executorIdMax) (h : (groupMachine n).Reach (Spared e) s) : Owned e s := by
  have both : Inv n s ∧ Owned e s := by
    apply h.inv
    · rintro _ rfl
      refine ⟨.start rfl, fun _ g => notMem_empty e, ?_⟩
      rintro ⟨g, mem, -⟩
      exact absurd mem (notMem_empty e)
    · rintro s c s' ⟨I, O⟩ spared hs
      exact ⟨I.step le hs, O.step I spared hs⟩
  exact both.2

end Groups

end Kupl.Group
