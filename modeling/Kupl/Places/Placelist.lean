import Kupl.Places.Sets

/-!
# The list of places

What `kupl_process_placelist` stores for a place list: the sets that the places of the grammar give,
in order, unless there are more than `CPU_SETSIZE` of them. `set_size` counts the processors set, and it
tells whether a place is empty as long as it does not wrap: `Place.Counted` bounds the numbers that the
subplaces of a place set, repetitions included, by `INT_MAX`.
-/

namespace Kupl.Places
open Text List

/-- The processors set for the subplaces of a place, repetitions included, are no more than `INT_MAX`. -/
def Place.Counted (avail : Finset Nat) : Place → Prop
  | .num _ => True
  | .shift p _ _ => p.Counted avail
  | .subplaces l => (l.map fun p => hitsOf avail p.read.numbers).sum ≤ 2147483647
  | .compl p => p.Counted avail

/-- The state holds a set, and its size tells whether the set is empty. -/
structure St.Holds (s : St) (S : Finset Nat) : Prop where
  mask : procs s.mask = S
  nonneg : 0 ≤ s.size
  empty : s.size = 0 ↔ S = ∅

section Places

variable {f : CpuSet} {s : St} {S : Finset Nat} {L : List Int} {ts : List Token} {stride : Int}

lemma St.Holds.fresh {places : List CpuSet} {log : List Access} : St.Holds ⟨0, 0, places, log⟩ ∅ :=
  ⟨procs_zero, Int.le_refl 0, fun _ => rfl, fun _ => rfl⟩

lemma St.Holds.visit (H : s.Holds S) (fits : ∀ cpu ∈ L, InInt cpu)
    (room : s.size + hitsOf (procs f) L ≤ 2147483647) :
    (Places.visit f L s).Holds (S ∪ availableOf (procs f) L) ∧
      (Places.visit f L s).size = s.size + hitsOf (procs f) L ∧ (Places.visit f L s).places = s.places := by
  have nonneg := H.nonneg
  obtain ⟨mask, size, places⟩ := visit_spec (f := f) fits (s := s) ⟨by omega, by omega⟩
  rw [wrap_eq ⟨by omega, by omega⟩] at size
  refine ⟨⟨?_, by omega, ?_⟩, size, places⟩
  · rw [mask, H.mask]
  · rw [Finset.union_eq_empty, ← H.empty, ← hitsOf_eq_zero]
    omega

lemma holds_execAll {l : List Subplace} (P : ∀ p ∈ l, ∃ ts, IsSubplace ts p) (H : s.Holds S)
    (room : s.size + (l.map fun p => hitsOf (procs f) p.read.numbers).sum ≤ 2147483647) :
    ∃ sets, List.Forall₂ (Subplace.Denotes (procs f)) l sets ∧
      (execAll f (l.map Subplace.read) s).Holds (S ∪ sets.foldr (· ∪ ·) ∅) ∧
      (execAll f (l.map Subplace.read) s).places = s.places := by
  induction l generalizing s S with
  | nil =>
    refine ⟨[], .nil, ?_, rfl⟩
    rw [foldr_nil, Finset.union_empty]
    exact H
  | cons p l ih =>
    obtain ⟨ts, isP⟩ := P p mem_cons_self
    have hits := isP.hits_le (f := f)
    rw [map_cons, sum_cons] at room
    obtain ⟨H', size, places⟩ := H.visit (f := f) (L := p.read.visits f) (fun cpu mem => isP.fits mem) (by omega)
    rw [← Subplace.exec_eq] at H' size places
    obtain ⟨sets, D, H'', places'⟩ := ih (fun q mem => P q (mem_cons_of_mem p mem)) H' (by omega)
    refine ⟨_ :: sets, .cons isP.denotes D, ?_, places'.trans places⟩
    rw [foldr_cons, ← Finset.union_assoc]
    exact H''

lemma IsSubplaceList.all {l : List Subplace} (L : IsSubplaceList ts l) : ∀ p ∈ l, ∃ ts, IsSubplace ts p := by
  induction L with
  | one P =>
    intro p mem
    cases mem_singleton.1 mem
    exact ⟨_, P⟩
  | cons P _ ih =>
    intro p mem
    cases mem with
    | head => exact ⟨_, P⟩
    | tail _ mem => exact ih p mem

lemma IsPlace.holds {p : Place} (P : IsPlace ts p) (plain : p.Plain) (counted : p.Counted (procs f)) (H : s.Holds ∅)
    : ∃ S, p.Denotes (procs f) S ∧ (p.read.exec f s).Holds S ∧ (p.read.exec f s).places = s.places := by
  have zero : s.size = 0 := H.empty.2 rfl
  induction P generalizing s with
  | num k =>
    have isOne := IsSubplace.one k
    have few : hitsOf (procs f) [clamp k] ≤ 1 := countP_le_length
    obtain ⟨H', -, places⟩ := H.visit (f := f) (L := [clamp k]) (fun cpu mem => isOne.fits (f := f) mem) (by omega)
    have same : availableOf (procs f) [clamp k] = availableOf (procs f) [(k : Int)] :=
      (isOne.denotes (f := f)).2 nofun
    rw [Finset.empty_union, same] at H'
    exact ⟨_, .num _, H', places⟩
  | shift | strided => exact plain.elim
  | subplaces L =>
    obtain ⟨sets, D, H', places⟩ := holds_execAll (f := f) L.all H
      (by rw [zero, Int.zero_add]; exact Int.ofNat_le.2 counted)
    rw [Finset.empty_union] at H'
    exact ⟨_, .subplaces D, H', places⟩
  | compl P ih =>
    obtain ⟨S, D, H', places⟩ := ih plain counted H zero
    refine ⟨_, .compl D, ⟨?_, Int.natCast_nonneg _, ?_⟩, places⟩
    · rw [← H'.mask]
      exact procs_complement
    · rw [← H'.mask, ← procs_complement, ← cpuCount_eq_zero]
      exact Int.natCast_eq_zero

/-! ## Shifts -/

lemma St.Holds.shiftCpu {b : CpuSet} {j : Nat} (H : s.Holds S) (lt : j < cpuSetsize) (low : -intMax ≤ stride)
    (high : stride ≤ intMax) (room : s.size + 1 ≤ 2147483647) :
    (Places.shiftCpu f b stride s j).Holds
        (S ∪ (procs f).filter fun (k : Nat) => j ∈ procs b ∧ (k : Int) = j + stride) ∧
      (Places.shiftCpu f b stride s j).size ≤ s.size + 1 ∧
      (Places.shiftCpu f b stride s j).places = s.places := by
  have top : intMax = 2147483647 := rfl
  have lt : j < 1024 := lt
  have tested : (s.test j).Holds S := ⟨H.mask, H.nonneg, H.empty⟩
  have same (none : ∀ k ∈ procs f, ¬ (j ∈ procs b ∧ (k : Int) = j + stride)) :
      (s.test j).Holds (S ∪ (procs f).filter fun (k : Nat) => j ∈ procs b ∧ (k : Int) = j + stride) := by
    rw [Finset.filter_eq_empty_iff.2 none, Finset.union_empty]
    exact tested
  have isPre : isset j b ↔ j ∈ procs b := by
    rw [isset_iff ⟨by omega, by omega⟩]
    constructor
    · rintro ⟨k, mem, is⟩
      cases Int.natCast_inj.1 is
      exact mem
    · exact fun mem => ⟨j, mem, rfl⟩
  have wrapped : wrap (j + stride) = j + stride ∨ wrap (j + stride) < 0 ∧ 1024 ≤ (j : Int) + stride := by
    by_cases fits : (j : Int) + stride < 2147483648
    · exact .inl (wrap_eq ⟨by omega, by omega⟩)
    · rw [wrap_high (by omega) (by omega)]
      omega
  unfold Places.shiftCpu
  by_cases inPre : j ∈ procs b
  · dsimp only
    rw [if_pos (isPre.2 inPre)]
    split
    · -- the number is outside of the set
      rename_i outside
      have outside : 1024 ≤ wrap (j + stride) ∨ wrap (j + stride) < 0 := outside
      refine ⟨same fun k mem is => ?_, by show s.size ≤ _; omega, rfl⟩
      have lt_k : k < 1024 := lt_of_mem_procs mem
      omega
    · rename_i inside
      have inside : ¬ (1024 ≤ wrap (j + stride) ∨ wrap (j + stride) < 0) := inside
      have moved : wrap (j + stride) = j + stride := by omega
      have few : hitsOf (procs f) [wrap (j + stride)] ≤ 1 := countP_le_length
      have noWrap : (s.test j).size = s.size := rfl
      obtain ⟨H', size, places⟩ := tested.visit (f := f) (L := [wrap (j + stride)])
        (fun cpu mem => by rw [mem_singleton.1 mem]; exact wrap_inInt) (by omega)
      have marked : availableOf (procs f) [wrap (j + stride)] =
          (procs f).filter fun (k : Nat) => j ∈ procs b ∧ (k : Int) = j + stride := by
        ext k
        rw [mem_availableOf, mem_singleton, moved, Finset.mem_filter, and_iff_right inPre]
      rw [marked] at H'
      refine ⟨H', ?_, places⟩
      have size : (markCpu f (wrap (j + stride)) (s.test j)).size = _ := size
      rw [size]
      omega
  · rw [if_neg (fun is => inPre (isPre.1 is))]
    exact ⟨same fun k _ is => inPre is.1, by show s.size ≤ _; omega, rfl⟩

lemma St.Holds.shiftAll {b : CpuSet} {l : List Nat} (H : s.Holds S) (lt : ∀ j ∈ l, j < cpuSetsize)
    (low : -intMax ≤ stride) (high : stride ≤ intMax) (room : s.size + l.length ≤ 2147483647) :
    (l.foldl (Places.shiftCpu f b stride) s).Holds
        (S ∪ (procs f).filter fun (k : Nat) => ∃ j ∈ l, j ∈ procs b ∧ (k : Int) = j + stride) ∧
      (l.foldl (Places.shiftCpu f b stride) s).places = s.places := by
  induction l generalizing s S with
  | nil =>
    rw [Finset.filter_eq_empty_iff.2 (fun _ _ ⟨_, mem, _⟩ => nomatch mem), Finset.union_empty]
    exact ⟨H, rfl⟩
  | cons j l ih =>
    rw [length_cons] at room
    obtain ⟨H', size, places⟩ := H.shiftCpu (f := f) (b := b) (lt j mem_cons_self) low high (by omega)
    obtain ⟨H'', places'⟩ := ih H' (fun i mem => lt i (mem_cons_of_mem j mem)) (by omega)
    refine ⟨?_, places'.trans places⟩
    have both : ((procs f).filter fun (k : Nat) => ∃ i ∈ j :: l, i ∈ procs b ∧ (k : Int) = i + stride) =
        ((procs f).filter fun (k : Nat) => j ∈ procs b ∧ (k : Int) = j + stride) ∪
          (procs f).filter fun (k : Nat) => ∃ i ∈ l, i ∈ procs b ∧ (k : Int) = i + stride := by
      rw [← Finset.filter_or]
      apply Finset.filter_congr
      intro k _
      rw [exists_mem_cons_iff]
    rw [both, ← Finset.union_assoc]
    exact H''

lemma St.Holds.next (H : s.Holds S) (low : -intMax ≤ stride) (high : stride ≤ intMax) :
    ((List.range cpuSetsize).foldl (Places.shiftCpu f s.mask stride) s.store.clear).Holds
    (shifted (procs f) stride S) ∧
      ((List.range cpuSetsize).foldl (Places.shiftCpu f s.mask stride) s.store.clear).places =
        s.places ++ [s.mask] := by
  have clean : s.store.clear.Holds ∅ := .fresh
  obtain ⟨H', places⟩ := clean.shiftAll (f := f) (b := s.mask) (l := List.range cpuSetsize)
    (fun j mem => mem_range.1 mem) low high (by
      have zero : s.store.clear.size = 0 := rfl
      rw [zero, length_range]
      decide)
  refine ⟨?_, places⟩
  have same : ((procs f).filter fun (k : Nat) => ∃ j ∈ List.range cpuSetsize, j ∈ procs s.mask ∧
    (k : Int) = j + stride) =
      shifted (procs f) stride S := by
    apply Finset.filter_congr
    intro k _
    rw [H.mask]
    constructor
    · rintro ⟨j, -, mem, eq⟩
      exact ⟨j, mem, eq⟩
    · rintro ⟨j, mem, eq⟩
      rw [← H.mask] at mem
      exact ⟨j, mem_range.2 (lt_of_mem_procs mem), H.mask ▸ mem, eq⟩
  rw [Finset.empty_union, same] at H'
  exact H'

end Places

section Iterates

variable {F : Finset Nat → Finset Nat} {S : Finset Nat} {n m : Nat}

lemma nonempty_one (ne : S ≠ ∅) : nonempty [S] = [S] := filter_cons_of_pos (decide_eq_true ne)

lemma nonempty_empty : nonempty [∅] = [] := filter_cons_of_neg (by decide)

lemma nonempty_append {l l' : List (Finset Nat)} : nonempty (l ++ l') = nonempty l ++ nonempty l' := filter_append ..

lemma iterates_succ : nonempty ((List.range (n + 1)).map fun i => F^[i] S) =
    nonempty [S] ++ nonempty ((List.range n).map fun i => F^[i] (F S)) := by
  rw [range_succ_eq_map, map_cons, map_map, ← nonempty_append]
  rfl

lemma iterates_empty (none : F ∅ = ∅) : nonempty ((List.range n).map fun i => F^[i] ∅) = [] := by
  induction n with
  | zero => rfl
  | succ n ih => rw [iterates_succ, none, ih, nonempty_empty, append_nil]

lemma iterates_stop (none : F ∅ = ∅) (stop : F^[m] S = ∅) (le : m ≤ n) :
    nonempty ((List.range n).map fun i => F^[i] S) = nonempty ((List.range m).map fun i => F^[i] S) := by
  induction m generalizing S n with
  | zero =>
    have isEmpty : S = ∅ := stop
    rw [isEmpty, iterates_empty none, iterates_empty none]
  | succ m ih =>
    obtain ⟨n, rfl⟩ := Nat.exists_eq_succ_of_ne_zero (Nat.ne_of_gt (Nat.zero_lt_of_lt le))
    rw [iterates_succ, iterates_succ, ih stop (Nat.le_of_succ_le_succ le)]

lemma iterates_long (none : F ∅ = ∅) (goesOn : F^[m] S ≠ ∅) (lt : m < n) :
    m < (nonempty ((List.range n).map fun i => F^[i] S)).length := by
  induction m generalizing S n with
  | zero =>
    obtain ⟨n, rfl⟩ := Nat.exists_eq_succ_of_ne_zero (Nat.ne_of_gt lt)
    have ne : S ≠ ∅ := goesOn
    rw [iterates_succ, nonempty_one ne]
    exact Nat.zero_lt_succ _
  | succ m ih =>
    obtain ⟨n, rfl⟩ := Nat.exists_eq_succ_of_ne_zero (Nat.ne_of_gt (Nat.zero_lt_of_lt lt))
    have ne : S ≠ ∅ := by
      rintro rfl
      refine goesOn ?_
      clear ih goesOn lt
      induction m with
      | zero => exact none
      | succ m ih => rw [Function.iterate_succ_apply, none, ih]
    have := ih goesOn (Nat.lt_of_succ_lt_succ lt)
    rw [iterates_succ, nonempty_one ne, length_append, length_singleton]
    omega

end Iterates

/-! ## What is stored -/

/-- A list of sets is stored behind the places there are, unless that makes too many. -/
structure Stores (before : List CpuSet) (sets : List (Finset Nat)) (result : Except St St) : Prop where
  fits : before.length + sets.length ≤ cpuSetsize → ∃ s, result = .ok s ∧
    s.places.map procs = before.map procs ++ sets
  many : cpuSetsize < before.length + sets.length → ∃ s, result = .error s

section Stores

variable {f : CpuSet} {s s' : St} {S : Finset Nat} {ts : List Token} {n : Nat} {stride : Int} {avail : Finset Nat}
  {before : List CpuSet} {sets sets' : List (Finset Nat)} {result : Except St St} {p : Place}

lemma Stores.congr (h : Stores before sets result)
    (same : sets = sets' ∨ cpuSetsize < sets.length ∧ cpuSetsize < sets'.length) : Stores before sets' result := by
  obtain rfl | ⟨many, many'⟩ := same
  · exact h
  · constructor
    · omega
    · exact fun _ => h.many (by omega)

lemma Stores.map_clear (h : Stores before sets result) : Stores before sets (result.map St.clear) := by
  constructor
  · intro fits
    obtain ⟨s, rfl, places⟩ := h.fits fits
    exact ⟨s.clear, rfl, places⟩
  · intro many
    obtain ⟨s, rfl⟩ := h.many many
    exact ⟨s, rfl⟩

lemma shifted_empty : shifted avail stride ∅ = ∅ :=
  Finset.filter_eq_empty_iff.2 fun _ _ ⟨_, mem, _⟩ => nomatch mem

lemma shifted_subset : shifted avail stride S ⊆ avail := Finset.filter_subset ..

lemma Stores.nil (few : s.places.length ≤ cpuSetsize) : Stores s.places [] (.ok s) := by
  constructor
  · exact fun _ => ⟨s, rfl, (append_nil _).symm⟩
  · exact fun many => absurd few (Nat.not_le.2 many)

lemma St.Holds.shifts (H : s.Holds S) (few : s.places.length ≤ cpuSetsize) (low : -intMax ≤ stride)
    (high : stride ≤ intMax) :
    Stores s.places (nonempty ((List.range n).map fun i => (shifted (procs f) stride)^[i] S))
      (Places.shifts f stride n s) := by
  induction n generalizing s S with
  | zero => exact .nil few
  | succ n ih =>
    unfold Places.shifts
    by_cases isEmpty : S = ∅
    · rw [if_pos (H.empty.2 isEmpty), isEmpty, iterates_empty shifted_empty]
      exact .nil few
    · have one : nonempty [S] = [procs s.mask] := by rw [nonempty_one isEmpty, H.mask]
      rw [if_neg (fun zero => isEmpty (H.empty.1 zero)), iterates_succ, one]
      split
      · constructor
        · intro fits
          rw [length_append, length_singleton] at fits
          omega
        · exact fun _ => ⟨s, rfl⟩
      · obtain ⟨H', places⟩ := H.next (f := f) low high
        have length : (s.places ++ [s.mask]).length = s.places.length + 1 := length_append
        have rest := ih H' (by rw [places, length]; omega)
        rw [places] at rest
        constructor
        · intro fits
          rw [length_append, length_singleton] at fits
          obtain ⟨s', done, stored⟩ := rest.fits (by rw [length]; omega)
          refine ⟨s', done, ?_⟩
          rw [stored, map_append, append_assoc]
          rfl
        · intro many
          rw [length_append, length_singleton] at many
          exact rest.many (by rw [length]; omega)

lemma St.Holds.keep (H : s.Holds S) (few : s.places.length ≤ cpuSetsize) : Stores s.places (nonempty [S]) s.keep := by
  have nonneg := H.nonneg
  unfold St.keep
  by_cases isEmpty : S = ∅
  · have zero := H.empty.2 isEmpty
    rw [if_neg (by omega), isEmpty, nonempty_empty]
    exact (Stores.nil few).map_clear
  · have pos : s.size ≠ 0 := fun zero => isEmpty (H.empty.1 zero)
    have one : nonempty [S] = [procs s.mask] := by rw [nonempty_one isEmpty, H.mask]
    rw [if_pos (by omega), one]
    constructor
    · intro fits
      rw [length_singleton] at fits
      rw [if_neg (by omega)]
      exact ⟨_, rfl, map_append⟩
    · intro many
      rw [length_singleton] at many
      exact ⟨s, if_pos (by omega)⟩

lemma shifted_read (lt : ∀ j ∈ S, j < cpuSetsize) :
    shifted (procs f) (clamp stride) S = shifted (procs f) stride S := by
  have top : intMax = 2147483647 := rfl
  apply Finset.filter_congr
  intro k mem
  have lt_k : k < 1024 := lt_of_mem_procs mem
  apply exists_congr
  intro j
  apply and_congr_right
  intro mem
  have lt_j : j < 1024 := lt j mem
  obtain ⟨_, _⟩ | ⟨_, _⟩ | ⟨_, _⟩ := @clamp_cases stride <;> omega

lemma iterate_read (lt : ∀ j ∈ S, j < cpuSetsize) :
    (shifted (procs f) (clamp stride))^[n] S = (shifted (procs f) stride)^[n] S := by
  induction n generalizing S with
  | zero => rw [Function.iterate_zero_apply, Function.iterate_zero_apply]
  | succ n ih =>
    rw [Function.iterate_succ_apply, Function.iterate_succ_apply, shifted_read lt]
    exact ih fun j mem => lt_of_mem_procs (shifted_subset mem)

lemma count_read {F : Finset Nat → Finset Nat} (none : F ∅ = ∅) {c : Nat} :
    nonempty ((List.range (clamp c).toNat).map fun i => F^[i] S) = nonempty ((List.range c).map fun i => F^[i] S) ∨
      cpuSetsize < (nonempty ((List.range (clamp c).toNat).map fun i => F^[i] S)).length ∧
        cpuSetsize < (nonempty ((List.range c).map fun i => F^[i] S)).length := by
  have top : intMax = 2147483647 := rfl
  have size : cpuSetsize = 1024 := rfl
  obtain ⟨is, _⟩ | ⟨is, large⟩ | ⟨_, _⟩ := @clamp_cases c
  · left
    rw [is, Int.toNat_natCast]
  · by_cases stop : F^[cpuSetsize] S = ∅
    · left
      exact (iterates_stop none stop (by omega)).trans (iterates_stop none stop (by omega)).symm
    · right
      exact ⟨iterates_long none stop (by omega), iterates_long none stop (by omega)⟩
  · omega

lemma IsPlace.stores (P : IsPlace ts p) (one : p.OneSuffix) (counted : p.Counted (procs f)) (H : s.Holds ∅)
    (few : s.places.length ≤ cpuSetsize) : ∃ sets, p.Gives (procs f) sets ∧
      Stores s.places sets (p.read.store f s) := by
  have plainly (plain : p.Plain) : ∃ sets, p.Gives (procs f) sets ∧ Stores s.places sets (p.read.store f s) := by
    obtain ⟨S, D, H', places⟩ := P.holds plain counted H
    rw [Place.store_plain (Place.plain_read.2 plain), ← places]
    exact ⟨_, .one D, H'.keep (by rw [places]; exact few)⟩
  have suffixed {ts : List Token} {q : Place} {c : Nat} {d : Int} (Q : IsPlace ts q) (plain : q.Plain)
      (counted : q.Counted (procs f)) : ∃ sets, (Place.shift q c d).Gives (procs f) sets ∧
        Stores s.places sets ((Place.shift q c d).read.store f s) := by
    have top : intMax = 2147483647 := rfl
    obtain ⟨S, D, H', places⟩ := Q.holds plain counted H
    have lt : ∀ j ∈ S, j < cpuSetsize := by
      intro j mem
      rw [← H'.mask] at mem
      exact lt_of_mem_procs mem
    have low : -intMax ≤ clamp d := by
      obtain ⟨_, _⟩ | ⟨_, _⟩ | ⟨_, _⟩ := @clamp_cases d <;> omega
    have high : clamp d ≤ intMax := by
      obtain ⟨_, _⟩ | ⟨_, _⟩ | ⟨_, _⟩ := @clamp_cases d <;> omega
    have stored := H'.shifts (f := f) (n := (clamp c).toNat) (by rw [places]; exact few) low high
    rw [places] at stored
    simp only [iterate_read lt] at stored
    exact ⟨_, .shift c d D, (stored.congr (count_read shifted_empty)).map_clear⟩
  cases P with
  | num | subplaces => exact plainly trivial
  | compl => exact plainly one
  | shift c Q | strided c Q => exact suffixed Q one counted

lemma Place.store_fresh (stored : p.store f s = .ok s') : s'.Holds ∅ := by
  have clear {x : Except St St} (is : x.map St.clear = .ok s') : s'.Holds ∅ := by
    cases x with
    | error => cases is
    | ok s =>
      cases is
      exact .fresh
  have keep {s : St} (is : s.keep = .ok s') : s'.Holds ∅ := by
    unfold St.keep at is
    split at is
    · split at is <;> cases is
      exact .fresh
    · cases is
      exact .fresh
  cases p with
  | shift => exact clear stored
  | num | subplaces | compl => exact keep stored

lemma storeAll_stores {l : List Place} (P : ∀ p ∈ l, ∃ ts, IsPlace ts p) (ones : ∀ p ∈ l, p.OneSuffix)
    (counted : ∀ p ∈ l, p.Counted (procs f)) (H : s.Holds ∅) (few : s.places.length ≤ cpuSetsize) :
    ∃ ls, List.Forall₂ (Place.Gives (procs f)) l ls ∧
      Stores s.places ls.flatten (storeAll f (l.map Place.read) s) := by
  induction l generalizing s with
  | nil => exact ⟨[], .nil, .nil few⟩
  | cons p l ih =>
    have rest {s : St} := @ih s (fun q mem => P q (mem_cons_of_mem p mem))
      (fun q mem => ones q (mem_cons_of_mem p mem)) (fun q mem => counted q (mem_cons_of_mem p mem))
    obtain ⟨ts, isP⟩ := P p mem_cons_self
    obtain ⟨sets, G, stored⟩ := isP.stores (ones p mem_cons_self) (counted p mem_cons_self) H few
    rw [map_cons, storeAll]
    by_cases fits : s.places.length + sets.length ≤ cpuSetsize
    · obtain ⟨s', is, places⟩ := stored.fits fits
      have length : s'.places.length = s.places.length + sets.length := by
        rw [← length_map (f := procs), places, length_append, length_map]
      obtain ⟨ls, Gs, all⟩ := rest (Place.store_fresh is) (by omega)
      rw [is]
      refine ⟨sets :: ls, .cons G Gs, fun fits => ?_, fun many => ?_⟩
      · rw [flatten_cons, length_append] at fits
        obtain ⟨s'', done, places'⟩ := all.fits (by omega)
        refine ⟨s'', done, ?_⟩
        rw [places', places, flatten_cons, append_assoc]
      · rw [flatten_cons, length_append] at many
        exact all.many (by omega)
    · obtain ⟨ls, Gs, -⟩ := rest (s := ⟨0, 0, [], []⟩) .fresh (Nat.zero_le _)
      obtain ⟨s', is⟩ := stored.many (Nat.lt_of_not_le fits)
      rw [is]
      refine ⟨sets :: ls, .cons G Gs, fun fits => ?_, fun _ => ⟨s', rfl⟩⟩
      rw [flatten_cons, length_append] at fits
      omega

lemma IsPlaceList.all {l : List Place} (L : IsPlaceList ts l) : ∀ p ∈ l, ∃ ts, IsPlace ts p := by
  induction L with
  | one P =>
    intro p mem
    cases mem_singleton.1 mem
    exact ⟨_, P⟩
  | cons P _ ih =>
    intro p mem
    cases mem with
    | head => exact ⟨_, P⟩
    | tail _ mem => exact ih p mem

end Stores

end Kupl.Places
