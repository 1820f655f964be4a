import Mathlib.Data.Finset.Sort

/-!
# Executor groups

`src/executor/kupl_executor_group.h` and `src/executor/kupl_executor_group.cpp`: a group of executors
with the local number of each member. A group is created from a list of executors, and takes over the
members of another one when it borrows them or gets them back.

C++ → Lean naming: `kupl_egroup_info_t` → `EgroupInfo`; `kupl_egroup_t` → `Egroup`;
`kupl_egroup_create` → `egroupCreate`; `kupl_egroup_add` → `egroupAdd`; `kupl_egroup_borrow`,
`kupl_egroup_return` → `egroupBorrow`, `egroupReturn`; `kupl_egroup_reset` → `egroupReset`.

`none` is the local number `KUPL_EGROUP_ID_NULL`. The groups are a function from handles, so that a
group may be added to itself.
-/

namespace Kupl.Group
open Finset
open Function (update update_of_ne update_self)

/-- C++ `KUPL_EXECUTOR_ID_MAX`. -/
def executorIdMax : Nat := 1024

/-- C++ `kupl_egroup_info_t`. -/
structure EgroupInfo where
  size : Nat
  minEid : Nat
  maxEid : Nat
  eidSet : Finset Nat
  eid2lid : Nat → Option Nat

def EgroupInfo.empty : EgroupInfo := ⟨0, executorIdMax, 0, ∅, fun _ => none⟩

/-- C++ `kupl_egroup_t`. -/
structure Egroup where
  defInfo : EgroupInfo
  cur : EgroupInfo

abbrev Egroups := Nat → Egroup

/-- Enters the executors of a list from the `i`-th on (the loop of C++ `kupl_egroup_create`). -/
def createLoop (numExecutors : Nat) (i : Nat) (info : EgroupInfo) : List Int → Option EgroupInfo
  | [] => some info
  | e :: es =>
    if e ≥ numExecutors ∨ e < 0 then none
    else
      let eid := e.toNat
      if info.eid2lid eid = none then
        createLoop numExecutors (i + 1)
          { size := info.size + 1
            minEid := if eid < info.minEid then eid else info.minEid
            maxEid := if eid > info.maxEid then eid else info.maxEid
            eidSet := insert eid info.eidSet
            eid2lid := update info.eid2lid eid (some i) } es
      else none

/-- C++ `kupl_egroup_create`. -/
def egroupCreate (numExecutors : Nat) (executors : List Int) : Option Egroup :=
  if executors.length > executorIdMax ∨ executors.length > numExecutors then none
  else (createLoop numExecutors 0 .empty executors).map fun info => ⟨info, info⟩

/-- Changes the current members of a group. -/
def setCur (E : Egroups) (h : Nat) (info : EgroupInfo) : Egroups :=
  update E h { E h with cur := info }

@[simp] lemma setCur_defInfo {E h info g} : (setCur E h info g).defInfo = (E g).defInfo := by
  by_cases e : g = h
  · subst e
    simp [setCur]
  · simp [setCur, e]

/-- Moves the local numbers from `src` to `dest` behind the `size` numbers there (the loop of C++
`kupl_egroup_add`); `L` are the local numbers of all groups. -/
def addLids (dest src size : Nat) (L : Nat → Nat → Option Nat) : List Nat → Nat → Nat → Option Nat
  | [] => L
  | eid :: eids =>
    match L src eid with
    | none => addLids dest src size L eids
    | some lid =>
      let L := update L dest (update (L dest) eid (some (lid + size)))
      let L := update L src (update (L src) eid none)
      addLids dest src size L eids

/-- The members of `src` go to `dest` (C++ `kupl_egroup_add`). -/
def egroupAdd (dest src : Nat) (E : Egroups) : Egroups :=
  let s := (E src).cur
  if s.size = 0 then E
  else
    let L := addLids dest src (E dest).cur.size (fun h => (E h).cur.eid2lid)
      (List.range' s.minEid (s.maxEid + 1 - s.minEid))
    let E := setCur E dest
      { size := (E dest).cur.size + s.size
        minEid := if (E dest).cur.minEid > s.minEid then s.minEid else (E dest).cur.minEid
        maxEid := if (E dest).cur.maxEid < s.maxEid then s.maxEid else (E dest).cur.maxEid
        eidSet := (E dest).cur.eidSet ∪ s.eidSet
        eid2lid := L dest }
    setCur E src { EgroupInfo.empty with eid2lid := L src }

/-- C++ `kupl_egroup_borrow`. -/
def egroupBorrow (dest src : Nat) (E : Egroups) : Egroups := egroupAdd dest src E

/-- C++ `kupl_egroup_return`. -/
def egroupReturn (dest src : Nat) (E : Egroups) : Egroups := egroupAdd dest src E

/-- C++ `kupl_egroup_reset`. -/
def egroupReset (h : Nat) (E : Egroups) : Egroups := setCur E h (E h).defInfo

/-- The groups that a program with `n` executors can make. -/
inductive Built (n : Nat) : Egroups → Prop where
  | none : Built n fun _ => ⟨.empty, .empty⟩
  | create {E es g} (h : Nat) : Built n E → egroupCreate n es = some g → Built n (update E h g)
  | borrow {E} (dest src : Nat) : Built n E → Built n (egroupBorrow dest src E)
  | ret {E} (dest src : Nat) : Built n E → Built n (egroupReturn dest src E)
  | reset {E} (h : Nat) : Built n E → Built n (egroupReset h E)

/-- What every group is like: members have local numbers of their own below the size. Where groups
shared members the size may exceed their number. -/
structure EgroupInfo.Ok (g : EgroupInfo) : Prop where
  mem : ∀ e, e ∈ g.eidSet ↔ g.eid2lid e ≠ none
  inj : ∀ e e' l, g.eid2lid e = some l → g.eid2lid e' = some l → e = e'
  lt : ∀ e l, g.eid2lid e = some l → l < g.size
  low : ∀ e ∈ g.eidSet, g.minEid ≤ e
  high : ∀ e ∈ g.eidSet, e ≤ g.maxEid
  nonempty : g.size ≠ 0 → g.eidSet.Nonempty

lemma EgroupInfo.Ok.card_le {g : EgroupInfo} (I : g.Ok) : g.eidSet.card ≤ g.size := by
  have lid : ∀ e ∈ g.eidSet, ∃ l, g.eid2lid e = some l := fun e he =>
    Option.ne_none_iff_exists'.1 ((I.mem e).1 he)
  rw [← card_range g.size]
  apply card_le_card_of_injOn fun e => (g.eid2lid e).getD 0
  · intro e he
    obtain ⟨l, hl⟩ := lid e he
    simpa [hl] using I.lt e l hl
  · intro e he e' he' eq
    obtain ⟨l, hl⟩ := lid e he
    obtain ⟨l', hl'⟩ := lid e' he'
    simp only [hl, hl', Option.getD_some] at eq
    exact I.inj e e' l hl (eq ▸ hl')

lemma EgroupInfo.Ok.empty : EgroupInfo.empty.Ok := by
  refine ⟨?_, ?_, ?_, ?_, ?_, ?_⟩ <;> simp [EgroupInfo.empty]

variable {es : List Int}

lemma createLoop_ok {n i : Nat} {info g : EgroupInfo} (I : info.Ok)
    (hi : info.size = i) (h : createLoop n i info es = some g) : g.Ok := by
  induction es generalizing i info with
  | nil =>
    cases h
    exact I
  | cons e es ih =>
    unfold createLoop at h
    split at h
    · cases h
    · simp only at h
      split at h
      swap
      · cases h
      rename_i none
      refine ih ?_ (by simp [hi]) h
      have fresh : e.toNat ∉ info.eidSet := fun mem => (I.mem _).1 mem none
      refine ⟨?_, ?_, ?_, ?_, ?_, fun _ => insert_nonempty _ _⟩
      · intro u
        by_cases hu : u = e.toNat
        · subst hu
          simp
        · simp [hu, I.mem]
      · intro u u' l hu hu'
        simp only at hu hu'
        by_cases eu : u = e.toNat <;> by_cases eu' : u' = e.toNat
        · rw [eu, eu']
        · subst eu
          rw [update_self] at hu
          rw [update_of_ne eu'] at hu'
          have := I.lt u' l hu'
          cases hu
          omega
        · subst eu'
          rw [update_self] at hu'
          rw [update_of_ne eu] at hu
          have := I.lt u l hu
          cases hu'
          omega
        · rw [update_of_ne eu] at hu
          rw [update_of_ne eu'] at hu'
          exact I.inj u u' l hu hu'
      · intro u l hu
        simp only at hu ⊢
        by_cases eu : u = e.toNat
        · subst eu
          rw [update_self] at hu
          cases hu
          omega
        · rw [update_of_ne eu] at hu
          have := I.lt u l hu
          omega
      · intro u hu
        simp only
        rcases mem_insert.1 hu with rfl | hu
        · split <;> omega
        · have := I.low u hu
          split <;> omega
      · intro u hu
        simp only
        rcases mem_insert.1 hu with rfl | hu
        · split <;> omega
        · have := I.high u hu
          split <;> omega

lemma EgroupInfo.Ok.add {d s g : EgroupInfo} (D : d.Ok) (S : s.Ok) (set : g.eidSet = d.eidSet ∪ s.eidSet)
    (size : g.size = d.size + s.size) (low : g.minEid ≤ d.minEid ∧ g.minEid ≤ s.minEid)
    (high : d.maxEid ≤ g.maxEid ∧ s.maxEid ≤ g.maxEid)
    (lids : ∀ e, g.eid2lid e = match s.eid2lid e with | none => d.eid2lid e | some l => some (l + d.size)) :
      g.Ok := by
  refine ⟨?_, ?_, ?_, ?_, ?_, ?_⟩
  · intro e
    rw [set, mem_union, D.mem, S.mem, lids]
    cases s.eid2lid e <;> simp
  · intro e e' l he he'
    rw [lids] at he he'
    cases hl : s.eid2lid e <;> cases hl' : s.eid2lid e' <;> simp only [hl, hl'] at he he'
    · exact D.inj e e' l he he'
    · have := D.lt e l he
      cases he'
      omega
    · have := D.lt e' l he'
      cases he
      omega
    · rename_i a b
      have same : b = a := by
        have h1 := Option.some.inj he
        have h2 := Option.some.inj he'
        omega
      exact S.inj e e' a hl (by rw [hl', same])
  · intro e l he
    rw [lids] at he
    cases hl : s.eid2lid e <;> simp only [hl] at he
    · have := D.lt e l he
      omega
    · have := S.lt e _ hl
      cases he
      omega
  · intro e he
    rw [set] at he
    rcases mem_union.1 he with he | he
    · exact low.1.trans (D.low e he)
    · exact low.2.trans (S.low e he)
  · intro e he
    rw [set] at he
    rcases mem_union.1 he with he | he
    · exact (D.high e he).trans high.1
    · exact (S.high e he).trans high.2
  · intro ne
    rw [set, union_nonempty]
    by_cases hd : d.size = 0
    · exact .inr (S.nonempty (by omega))
    · exact .inl (D.nonempty hd)

lemma createLoop_size {n i : Nat} {info g : EgroupInfo}
    (h : createLoop n i info es = some g) : g.size = info.size + es.length := by
  induction es generalizing i info with
  | nil =>
    cases h
    rfl
  | cons e es ih =>
    unfold createLoop at h
    split at h
    · cases h
    · simp only at h
      split at h
      · rw [ih h, List.length_cons]
        simp only
        omega
      · cases h

section Add
variable {dest src size h e : Nat} {L : Nat → Nat → Option Nat} {eids : List Nat} {E : Egroups}

lemma addLids_src : addLids dest src size L eids src e = if e ∈ eids then none else L src e := by
  induction eids generalizing L with
  | nil => rfl
  | cons eid eids ih =>
    cases hl : L src eid with
    | none =>
      simp only [addLids, hl]
      rw [ih]
      by_cases he : e = eid
      · subst he
        simp [hl]
      · simp [he]
    | some lid =>
      simp only [addLids, hl]
      rw [ih]
      by_cases he : e = eid
      · subst he
        simp
      · by_cases same : src = dest
        · subst same
          simp [he]
        · simp [he, same]

lemma addLids_ne (ne : h ≠ src) : addLids dest src size L eids h e =
    if h = dest ∧ e ∈ eids then
      match L src e with
      | none => L h e
      | some l => some (l + size)
    else L h e := by
  induction eids generalizing L with
  | nil => simp [addLids]
  | cons eid eids ih =>
    cases hl : L src eid with
    | none =>
      simp only [addLids, hl]
      rw [ih]
      by_cases he : e = eid
      · subst he
        simp [hl]
      · simp [he]
    | some lid =>
      simp only [addLids, hl]
      rw [ih]
      by_cases hd : h = dest
      · subst hd
        by_cases he : e = eid
        · subst he
          simp [hl, ne]
        · simp [he, ne, Ne.symm ne]
      · by_cases same : src = dest
        · subst same
          simp [ne]
        · simp [hd, ne]

lemma egroupAdd_ok (I : ∀ h, (E h).cur.Ok) : ∀ h, (egroupAdd dest src E h).cur.Ok := by
  intro h
  unfold egroupAdd
  split
  · exact I h
  have S := I src
  -- every local number of the group taken over is in the range of the loop
  have inRange : ∀ e l, (E src).cur.eid2lid e = some l → e ∈ List.range' (E src).cur.minEid
      ((E src).cur.maxEid + 1 - (E src).cur.minEid) := by
    intro e l hl
    have mem := (S.mem e).2 (by simp [hl])
    have := S.low e mem
    have := S.high e mem
    rw [List.mem_range'_1]
    omega
  generalize List.range' (E src).cur.minEid
      ((E src).cur.maxEid + 1 - (E src).cur.minEid) = eids at inRange
  by_cases hs : h = src
  · subst hs
    have none : ∀ e, addLids dest h (E dest).cur.size (fun h => (E h).cur.eid2lid) eids h e =
        Option.none := by
      intro e
      rw [addLids_src]
      cases hl : (E h).cur.eid2lid e with
      | none => simp
      | some l => simp [inRange e l hl]
    simp only [setCur, update_self]
    refine ⟨?_, ?_, ?_, ?_, ?_, ?_⟩ <;> simp [none, EgroupInfo.empty]
  · by_cases hd : h = dest
    · subst hd
      simp only [setCur, update_of_ne hs, update_self]
      refine (I h).add S rfl rfl (by simp only; split <;> omega) (by simp only; split <;> omega)
        fun e => ?_
      simp only [addLids_ne hs]
      cases hl : (E src).cur.eid2lid e with
      | none => simp
      | some l => simp [inRange e l hl]
    · simp only [setCur, update_of_ne hs, update_of_ne hd]
      exact I h

end Add

lemma egroupCreate_ok {n : Nat} {g : Egroup} (h : egroupCreate n es = some g) : g.cur.Ok ∧ g.defInfo.Ok := by
  unfold egroupCreate at h
  split at h
  · cases h
  · obtain ⟨info, hi, rfl⟩ := Option.map_eq_some_iff.1 h
    exact ⟨createLoop_ok .empty rfl hi, createLoop_ok .empty rfl hi⟩

lemma egroupCreate_size {n : Nat} {g : Egroup} (h : egroupCreate n es = some g) : g.cur.size = es.length := by
  unfold egroupCreate at h
  split at h
  · cases h
  · obtain ⟨info, hi, rfl⟩ := Option.map_eq_some_iff.1 h
    simpa [EgroupInfo.empty] using createLoop_size hi

lemma Built.ok {n : Nat} {E : Egroups} (h : Built n E) : ∀ g, (E g).cur.Ok ∧ (E g).defInfo.Ok := by
  -- adding members leaves the default of every group
  have add : ∀ (dest src : Nat) (E : Egroups), (∀ g, (E g).cur.Ok ∧ (E g).defInfo.Ok) →
      ∀ g, (egroupAdd dest src E g).cur.Ok ∧ (egroupAdd dest src E g).defInfo.Ok := by
    intro dest src E I g
    refine ⟨egroupAdd_ok (fun g => (I g).1) g, ?_⟩
    unfold egroupAdd
    split
    · exact (I g).2
    · simpa only [setCur_defInfo] using (I g).2
  induction h with
  | none => exact fun _ => ⟨.empty, .empty⟩
  | create g _ hc ih =>
    intro h
    by_cases e : h = g
    · subst e
      rw [update_self]
      exact egroupCreate_ok hc
    · rw [update_of_ne e]
      exact ih h
  | borrow dest src _ ih | ret dest src _ ih => exact add dest src _ ih
  | reset g _ ih =>
    intro h
    by_cases e : h = g
    · subst e
      simpa [egroupReset, setCur] using (ih h).2
    · simpa [egroupReset, setCur, e] using ih h

section Members
variable {n : Nat} {E : Egroups} {dest src : Nat}

lemma createLoop_lt {i : Nat} {info g : EgroupInfo} {es : List Int}
    (I : ∀ e ∈ info.eidSet, e < n) (h : createLoop n i info es = some g) : ∀ e ∈ g.eidSet, e < n := by
  induction es generalizing i info with
  | nil =>
    cases h
    exact I
  | cons e es ih =>
    unfold createLoop at h
    split at h
    · cases h
    · simp only at h
      split at h
      · refine ih (fun u hu => ?_) h
        rcases mem_insert.1 hu with rfl | hu
        · omega
        · exact I u hu
      · cases h

lemma egroupCreate_lt {es : List Int} {g : Egroup} (h : egroupCreate n es = some g) :
    (∀ e ∈ g.cur.eidSet, e < n) ∧ ∀ e ∈ g.defInfo.eidSet, e < n := by
  unfold egroupCreate at h
  split at h
  · cases h
  · obtain ⟨info, hi, rfl⟩ := Option.map_eq_some_iff.1 h
    have lt := createLoop_lt (fun e he => absurd he (notMem_empty e)) hi
    exact ⟨lt, lt⟩

lemma egroupAdd_lt (I : ∀ h, (∀ e ∈ (E h).cur.eidSet, e < n) ∧ ∀ e ∈ (E h).defInfo.eidSet, e < n) :
    ∀ h, (∀ e ∈ (egroupAdd dest src E h).cur.eidSet, e < n) ∧
      ∀ e ∈ (egroupAdd dest src E h).defInfo.eidSet, e < n := by
  intro h
  unfold egroupAdd
  split
  · exact I h
  · simp only [setCur_defInfo]
    refine ⟨fun e he => ?_, (I h).2⟩
    by_cases hs : h = src
    · subst hs
      simp only [setCur, update_self] at he
      cases he
    · by_cases hd : h = dest
      · subst hd
        simp only [setCur, update_of_ne hs, update_self] at he
        rcases mem_union.1 he with he | he
        · exact (I h).1 e he
        · exact (I src).1 e he
      · simp only [setCur, update_of_ne hs, update_of_ne hd] at he
        exact (I h).1 e he

lemma Built.lt (h : Built n E) : ∀ g, (∀ e ∈ (E g).cur.eidSet, e < n) ∧
    ∀ e ∈ (E g).defInfo.eidSet, e < n := by
  induction h with
  | none => exact fun _ => ⟨fun e he => absurd he (notMem_empty e),
      fun e he => absurd he (notMem_empty e)⟩
  | create g _ hc ih =>
    intro h
    by_cases e : h = g
    · subst e
      rw [update_self]
      exact egroupCreate_lt hc
    · rw [update_of_ne e]
      exact ih h
  | borrow _ _ _ ih | ret _ _ _ ih => exact egroupAdd_lt ih
  | reset g _ ih =>
    intro h
    by_cases e : h = g
    · subst e
      simpa [egroupReset, setCur] using (ih h).2
    · simpa [egroupReset, setCur, e] using ih h

end Members
end Kupl.Group
