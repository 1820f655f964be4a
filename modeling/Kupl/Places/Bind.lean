import Mathlib.Order.Interval.Finset.Nat

/-!
# More executors than places (`kupl_places.cpp`)

| source | here |
|---|---|
| `kupl_executor_set_place_id` | `Globals.setPlaceId` |
| the loops of `kupl_set_insufficient_places` | `evenNext`, `next`, `Globals.bind` |
| `kupl_set_insufficient_places` | `Globals.setInsufficientPlaces` |

The executors are put in places one after the other. Every place gets `placesPerExe` of them, and where `extra` says so
one more: `begins` is where a place begins.
-/

namespace Kupl.Places

/-- The numbers of places and of executors, those of the library and those added later (C++ `g_num_places`,
`g_real_executor_count`, `g_executor_count`). -/
structure Globals where
  numPlaces : Nat
  realExecutorCount : Nat
  added : Nat

/-- (C++ `KUPL_PLACES_DEFAULT`). -/
def placesDefault : Int := -1

structure Counters where
  placeId : Nat
  placesCount : Nat
  remPlaces : Nat
  gapCount : Nat

/-- Behind an executor, where all places get the same number. -/
def evenNext (placesPerExe : Nat) (c : Counters) : Counters :=
  let c := { c with placesCount := c.placesCount + 1 }
  if c.placesCount = placesPerExe then { c with placeId := c.placeId + 1, placesCount := 0 } else c

/-- Behind an executor, where some places get one more. -/
def next (placesPerExe gap : Nat) (c : Counters) : Counters :=
  let c := { c with placesCount := c.placesCount + 1 }
  if c.placesCount = placesPerExe ∧ c.remPlaces ≠ 0 ∧ c.gapCount = gap then c
  else if c.placesCount = placesPerExe + 1 ∧ c.remPlaces ≠ 0 ∧ c.gapCount = gap then
    { placeId := c.placeId + 1, placesCount := 0, remPlaces := c.remPlaces - 1, gapCount := 1 }
  else if c.placesCount = placesPerExe then
    { c with placeId := c.placeId + 1, placesCount := 0, gapCount := c.gapCount + 1 }
  else c

namespace Globals
variable (g : Globals)

/-- (C++ `g_executor_count`). -/
def executorCount : Nat := g.realExecutorCount + g.added

def setPlaceId (placeId geid : Nat) (place : Nat → Int) : Nat → Int :=
  if geid ≥ g.executorCount then place
  else if placeId ≥ g.numPlaces then Function.update place geid placesDefault
  else Function.update place geid placeId

/-- The counters and the places behind the first executors. -/
def bind (next : Counters → Counters) (c : Counters) (place : Nat → Int) : Nat → Counters × (Nat → Int)
  | 0 => (c, place)
  | i + 1 =>
    let (c, place) := bind next c place i
    (next c, g.setPlaceId c.placeId i place)

/-- The places of the executors, which are more than the places. -/
def setInsufficientPlaces (place : Nat → Int) : Nat → Int :=
  let placesPerExe := g.realExecutorCount / g.numPlaces
  let remPlaces := g.realExecutorCount - placesPerExe * g.numPlaces
  if remPlaces = 0 then (g.bind (evenNext placesPerExe) ⟨0, 0, 0, 0⟩ place g.realExecutorCount).2
  else
    let gap := g.numPlaces / remPlaces
    (g.bind (next placesPerExe gap) ⟨0, 0, remPlaces, gap⟩ place g.realExecutorCount).2

end Globals

/-! ### Where the places begin -/

section Begins
variable (q gap r : Nat)

/-- The places with one more executor: one in each gap. -/
def Extra (k : Nat) : Prop := k % gap = 0 ∧ k / gap < r

instance (k : Nat) : Decidable (Extra gap r k) := inferInstanceAs (Decidable (_ ∧ _))

/-- The executors of a place. -/
def size (k : Nat) : Nat := q + if Extra gap r k then 1 else 0

/-- The places with one more executor before a place. -/
def extras (k : Nat) : Nat := min r ((k + (gap - 1)) / gap)

/-- The first executor of a place. -/
def begins (k : Nat) : Nat := q * k + extras gap r k

end Begins

variable {q gap r k n i : Nat}

lemma extras_succ (pos : 0 < gap) : extras gap r (k + 1) = extras gap r k + if Extra gap r k then 1 else 0 := by
  have parts := Nat.div_add_mod k gap
  have low := Nat.mod_lt k pos
  obtain ⟨a, isA⟩ : ∃ a, a = k / gap := ⟨_, rfl⟩
  obtain ⟨b, isB⟩ : ∃ b, b = k % gap := ⟨_, rfl⟩
  have later : (k + 1 + (gap - 1)) / gap = a + 1 := by
    have sum : k + 1 + (gap - 1) = k + gap := by omega
    rw [sum, Nat.add_div_right k pos, isA]
  have before : (k + (gap - 1)) / gap = if b = 0 then a else a + 1 := by
    rw [← isA, ← isB] at parts
    rw [← isB] at low
    split
    · have sum : k + (gap - 1) = gap - 1 + gap * a := by omega
      rw [sum, Nat.add_mul_div_left _ _ pos, Nat.div_eq_of_lt (by omega), Nat.zero_add]
    · have sum : k + (gap - 1) = b - 1 + gap * (a + 1) := by
        rw [Nat.mul_add, Nat.mul_one]
        omega
      rw [sum, Nat.add_mul_div_left _ _ pos, Nat.div_eq_of_lt (by omega), Nat.zero_add]
  have isExtra : Extra gap r k ↔ b = 0 ∧ a < r := by
    rw [isA, isB]
    rfl
  rw [extras, extras, later, before]
  by_cases zero : b = 0
  · rw [if_pos zero]
    by_cases lt : a < r
    · rw [if_pos (isExtra.2 ⟨zero, lt⟩)]
      omega
    · rw [if_neg fun h => lt (isExtra.1 h).2]
      omega
  · rw [if_neg zero, if_neg fun h => zero (isExtra.1 h).1]
    rfl

lemma begins_succ (pos : 0 < gap) : begins q gap r (k + 1) = begins q gap r k + size q gap r k := by
  rw [begins, begins, extras_succ pos, size, Nat.mul_succ]
  omega

lemma extras_zero (pos : 0 < gap) : extras gap r 0 = 0 := by
  rw [extras, Nat.zero_add, Nat.div_eq_of_lt (by omega), Nat.min_zero]

lemma begins_zero (pos : 0 < gap) : begins q gap r 0 = 0 := by
  rw [begins, extras_zero pos]
  rfl

lemma begins_mono (pos : 0 < gap) : Monotone (begins q gap r) := by
  refine monotone_nat_of_le_succ fun k => ?_
  rw [begins_succ pos]
  exact Nat.le_add_right _ _

/-! ### The loops -/

/-- The counters behind some executors: the next one is so far behind where its place begins, and while some executors
remain, so far behind the last gap. -/
structure At (q gap r n : Nat) (c : Counters) : Prop where
  here : n = begins q gap r c.placeId + c.placesCount
  room : c.placesCount < size q gap r c.placeId
  rem : c.remPlaces = r - extras gap r c.placeId
  gap : c.remPlaces ≠ 0 → c.placeId + gap = gap * extras gap r c.placeId + c.gapCount ∧ c.gapCount ≤ gap

variable {c : Counters}

lemma extras_mul {a : Nat} (pos : 0 < gap) (lt : a < r) : extras gap r (gap * a) = a := by
  have behind : (gap * a + (gap - 1)) / gap = a := by
    rw [Nat.mul_add_div pos, Nat.div_eq_of_lt (by omega), Nat.add_zero]
  rw [extras, behind]
  omega

lemma At.gap_iff (A : At q gap r n c) (pos : 0 < gap) :
    c.remPlaces ≠ 0 ∧ c.gapCount = gap ↔ Extra gap r c.placeId := by
  have rem := A.rem
  constructor
  · rintro ⟨some, past⟩
    have place : c.placeId = gap * extras gap r c.placeId := by
      have far := (A.gap some).1
      omega
    rw [Extra, place, Nat.mul_mod_right, Nat.mul_div_cancel_left _ pos]
    exact ⟨rfl, by omega⟩
  · rintro ⟨whole, lt⟩
    have place : c.placeId = gap * (c.placeId / gap) := (Nat.mul_div_cancel' (Nat.dvd_of_mod_eq_zero whole)).symm
    have before : extras gap r c.placeId = c.placeId / gap := by
      rw [place, extras_mul pos lt, ← place]
    have some : c.remPlaces ≠ 0 := by omega
    have far := (A.gap some).1
    rw [before, ← place] at far
    exact ⟨some, by omega⟩

lemma At.leave (A : At q gap r n c) (pos : 0 < gap) (some : 0 < q) (full : c.placesCount + 1 = size q gap r c.placeId)
    {rem gapCount : Nat} (isRem : rem = r - extras gap r (c.placeId + 1))
    (isGap : rem ≠ 0 → c.placeId + 1 + gap = gap * extras gap r (c.placeId + 1) + gapCount ∧ gapCount ≤ gap) :
    At q gap r (n + 1) ⟨c.placeId + 1, 0, rem, gapCount⟩ := by
  refine ⟨?_, Nat.lt_of_lt_of_le some (Nat.le_add_right _ _), isRem, isGap⟩
  rw [begins_succ pos, ← full, A.here]
  rfl

lemma At.stay (A : At q gap r n c) (room : c.placesCount + 1 < size q gap r c.placeId) :
    At q gap r (n + 1) { c with placesCount := c.placesCount + 1 } :=
  ⟨congrArg (· + 1) A.here, room, A.rem, A.gap⟩

lemma At.next (A : At q gap r n c) (pos : 0 < gap) (some : 0 < q) : At q gap r (n + 1) (next q gap c) := by
  have iff := A.gap_iff pos
  have room := A.room
  have rem := A.rem
  have later := extras_succ (r := r) (k := c.placeId) pos
  rw [Places.next]
  dsimp only
  by_cases extra : Extra gap r c.placeId
  · obtain ⟨rest, past⟩ := iff.2 extra
    have isSize : size q gap r c.placeId = q + 1 := by rw [size, if_pos extra]
    rw [if_pos extra] at later
    by_cases last : c.placesCount = q
    · rw [if_neg (by omega), if_pos ⟨by omega, rest, past⟩]
      refine A.leave pos some (by omega) (by omega) fun _ => ?_
      obtain ⟨far, -⟩ := A.gap rest
      rw [later, Nat.mul_succ]
      omega
    · have more : At q gap r (n + 1) { c with placesCount := c.placesCount + 1 } := A.stay (by omega)
      split
      · exact more
      · rw [if_neg fun h => last (Nat.succ.inj h.1)]
        rename_i not
        rw [if_neg fun h => not ⟨h, rest, past⟩]
        exact more
  · have isSize : size q gap r c.placeId = q := by rw [size, if_neg extra, Nat.add_zero]
    replace later : extras gap r (c.placeId + 1) = extras gap r c.placeId := by rw [later, if_neg extra, Nat.add_zero]
    rw [if_neg fun h => extra (iff.1 h.2), if_neg fun h => extra (iff.1 h.2)]
    split
    · refine A.leave pos some (by omega) (by omega) fun rest => ?_
      obtain ⟨far, le⟩ := A.gap rest
      have within : c.gapCount ≠ gap := fun past => extra (iff.1 ⟨rest, past⟩)
      rw [later]
      omega
    · exact A.stay (by omega)

lemma At.evenNext (A : At q 1 0 n c) (some : 0 < q) : At q 1 0 (n + 1) (evenNext q c) := by
  have room := A.room
  have isSize : size q 1 0 c.placeId = q := by
    have none : ¬ Extra 1 0 c.placeId := fun extra => Nat.not_lt_zero _ extra.2
    rw [size, if_neg none, Nat.add_zero]
  rw [Places.evenNext]
  dsimp only
  split
  · exact A.leave Nat.one_pos some (by omega) (by rw [A.rem]; omega) fun rest => absurd rest (by rw [A.rem]; omega)
  · exact A.stay (by omega)

/-! ### The places of the executors -/

def Placed (q gap r n : Nat) (place : Nat → Int) : Prop :=
  ∀ i < n, ∃ k : Nat, place i = k ∧ begins q gap r k ≤ i ∧ i < begins q gap r (k + 1)

lemma bind_placed {g : Globals} {next : Counters → Counters} {place : Nat → Int} (pos : 0 < gap)
    (step : ∀ {n c}, At q gap r n c → At q gap r (n + 1) (next c)) (start : At q gap r 0 c)
    (ends : begins q gap r g.numPlaces = g.realExecutorCount) (le : n ≤ g.realExecutorCount) :
    At q gap r n (g.bind next c place n).1 ∧ Placed q gap r n (g.bind next c place n).2 := by
  induction n with
  | zero => exact ⟨start, fun i lt => absurd lt (Nat.not_lt_zero i)⟩
  | succ n ih =>
    obtain ⟨A, placed⟩ := ih (Nat.le_of_succ_le le)
    refine ⟨step A, fun i lt => ?_⟩
    rw [Globals.bind]
    dsimp only
    generalize (g.bind next c place n).1 = c at A
    have here := A.here
    have room := A.room
    have within : c.placeId < g.numPlaces := by
      refine Nat.lt_of_not_le fun beyond => ?_
      have least := begins_mono (q := q) (r := r) pos beyond
      omega
    have known : ¬ n ≥ g.executorCount := by
      rw [Globals.executorCount]
      omega
    rw [Globals.setPlaceId, if_neg known, if_neg (Nat.not_le_of_lt within)]
    obtain lt | rfl := Nat.lt_or_eq_of_le (Nat.le_of_lt_succ lt)
    · rw [Function.update_of_ne (Nat.ne_of_lt lt)]
      exact placed i lt
    · refine ⟨c.placeId, Function.update_self .., by omega, ?_⟩
      rw [begins_succ pos]
      omega

/-! ### The numbers of the executors -/

/-- The executors of a place. -/
def load (executors : Nat) (place : Nat → Int) (k : Nat) : Finset Nat :=
  (Finset.range executors).filter (place · = k)

structure Spread (places executors : Nat) (place : Nat → Int) : Prop where
  inside : ∀ i < executors, 0 ≤ place i ∧ place i < places
  ascending : ∀ i j, i ≤ j → j < executors → place i ≤ place j
  load : ∀ k < places, (load executors place k).card = executors / places ∨
    (load executors place k).card = executors / places + 1
  larger : ((Finset.range places).filter fun k => (Places.load executors place k).card = executors / places + 1).card
    = executors % places

lemma extras_card (pos : 0 < gap) : ((Finset.range k).filter (Extra gap r)).card = extras gap r k := by
  induction k with
  | zero => exact (extras_zero pos).symm
  | succ k ih =>
    rw [Finset.range_add_one, Finset.filter_insert, extras_succ pos]
    split
    · rw [Finset.card_insert_of_notMem (by simp), ih]
    · exact ih

lemma extras_end (pos : 0 < gap) (le : r * gap ≤ k) : extras gap r k = r := by
  have enough : r ≤ (k + (gap - 1)) / gap := (Nat.le_div_iff_mul_le pos).2 (Nat.le_add_right_of_le le)
  exact Nat.min_eq_left enough

variable {place : Nat → Int} {P E : Nat}

lemma begins_le {i j k l : Nat} (pos : 0 < gap) (le : i ≤ j) (first : begins q gap r k ≤ i)
    (last : j < begins q gap r (l + 1)) : k ≤ l := by
  refine Nat.le_of_not_lt fun lt => ?_
  have least := begins_mono (q := q) (r := r) pos (show l + 1 ≤ k from lt)
  omega

lemma Placed.load_card (placed : Placed q gap r E place) (pos : 0 < gap) (ends : begins q gap r P = E) (lt : k < P) :
    (load E place k).card = size q gap r k := by
  have all : load E place k = Finset.Ico (begins q gap r k) (begins q gap r (k + 1)) := by
    ext i
    rw [load, Finset.mem_filter, Finset.mem_range, Finset.mem_Ico]
    constructor
    · rintro ⟨lt, is⟩
      obtain ⟨l, isL, first, last⟩ := placed i lt
      obtain rfl : l = k := Int.ofNat_inj.1 (isL.symm.trans is)
      exact ⟨first, last⟩
    · rintro ⟨first, last⟩
      have within : i < E := Nat.lt_of_lt_of_le last (ends ▸ begins_mono pos lt)
      obtain ⟨l, isL, firstL, lastL⟩ := placed i within
      obtain rfl : l = k := Nat.le_antisymm (begins_le pos le_rfl firstL last) (begins_le pos le_rfl first lastL)
      exact ⟨within, isL⟩
  rw [all, Nat.card_Ico, begins_succ pos, Nat.add_sub_cancel_left]

lemma Placed.spread (placed : Placed q gap r E place) (pos : 0 < gap) (isQ : q = E / P) (isR : r = E % P)
    (le : r * gap ≤ P) : Spread P E place := by
  have all : extras gap r P = r := extras_end pos le
  have ends : begins q gap r P = E := by
    rw [begins, all, isQ, isR, Nat.mul_comm, Nat.div_add_mod]
  refine ⟨fun i lt => ?_, fun i j le lt => ?_, fun k lt => ?_, ?_⟩
  · obtain ⟨k, isK, first, -⟩ := placed i lt
    have within : k < P := by
      refine Nat.lt_of_not_le fun beyond => ?_
      have least := begins_mono (q := q) (r := r) pos beyond
      omega
    omega
  · obtain ⟨k, isK, first, -⟩ := placed i (Nat.lt_of_le_of_lt le lt)
    obtain ⟨l, isL, -, last⟩ := placed j lt
    have := begins_le pos le first last
    omega
  · rw [placed.load_card pos ends lt, size, isQ]
    split
    · exact .inr rfl
    · exact .inl rfl
  · have same : ((Finset.range P).filter fun k => (Places.load E place k).card = E / P + 1)
        = (Finset.range P).filter (Extra gap r) := by
      refine Finset.filter_congr fun k mem => ?_
      rw [placed.load_card pos ends (Finset.mem_range.1 mem), size, isQ]
      split
      · exact ⟨fun _ => by assumption, fun _ => rfl⟩
      · exact ⟨fun eq => absurd eq (by omega), fun extra => absurd extra (by assumption)⟩
    rw [same, extras_card pos, all, isR]

lemma At.start {gapCount : Nat} (pos : 0 < gap) (some : 0 < q) (isGap : r ≠ 0 → gapCount = gap) :
    At q gap r 0 ⟨0, 0, r, gapCount⟩ := by
  refine ⟨(begins_zero pos).symm, Nat.lt_of_lt_of_le some (Nat.le_add_right _ _), ?_, fun rest => ?_⟩
  · rw [extras_zero pos]
    rfl
  · rw [extras_zero pos, Nat.mul_zero]
    exact ⟨congrArg _ (isGap rest).symm, Nat.le_of_eq (isGap rest)⟩

lemma bind_spread {g : Globals} {next : Counters → Counters} {place : Nat → Int} (pos : 0 < gap)
    (step : ∀ {n c}, At q gap r n c → At q gap r (n + 1) (next c)) (start : At q gap r 0 c)
    (isQ : q = g.realExecutorCount / g.numPlaces) (isR : r = g.realExecutorCount % g.numPlaces)
    (le : r * gap ≤ g.numPlaces) :
    Spread g.numPlaces g.realExecutorCount (g.bind next c place g.realExecutorCount).2 := by
  have ends : begins q gap r g.numPlaces = g.realExecutorCount := by
    rw [begins, extras_end pos le, isQ, isR, Nat.mul_comm, Nat.div_add_mod]
  exact (bind_placed pos step start ends le_rfl).2.spread pos isQ isR le

/-- More executors than places are spread over the places: in ascending order, as many in a place as in another one or
one more, and what the division leaves is the number of the places with one more. -/
theorem setInsufficientPlaces_spread (g : Globals) (some : 0 < g.numPlaces) (more : g.numPlaces < g.realExecutorCount)
    (place : Nat → Int) : Spread g.numPlaces g.realExecutorCount (g.setInsufficientPlaces place) := by
  have isRem : g.realExecutorCount - g.realExecutorCount / g.numPlaces * g.numPlaces
      = g.realExecutorCount % g.numPlaces := by
    rw [Nat.mul_comm, ← Nat.mod_eq_sub]
  have many : 0 < g.realExecutorCount / g.numPlaces := Nat.div_pos (Nat.le_of_lt more) some
  rw [Globals.setInsufficientPlaces]
  rw [isRem]
  split
  · rename_i even
    have start : At (g.realExecutorCount / g.numPlaces) 1 0 0 ⟨0, 0, 0, 0⟩ :=
      At.start Nat.one_pos many fun rest => absurd rfl rest
    exact bind_spread Nat.one_pos (fun A => A.evenNext many) start rfl even.symm (by omega)
  · rename_i uneven
    have lt := Nat.mod_lt g.realExecutorCount some
    have pos : 0 < g.numPlaces / (g.realExecutorCount % g.numPlaces) :=
      Nat.div_pos (Nat.le_of_lt lt) (Nat.pos_of_ne_zero uneven)
    exact bind_spread pos (fun A => A.next pos many) (At.start pos many fun _ => rfl) rfl rfl (Nat.mul_div_le _ _)

/-- Eight executors on three places. -/
theorem setInsufficientPlaces_spread_eight :
    Spread 3 8 (Globals.setInsufficientPlaces ⟨3, 8, 0⟩ fun _ => placesDefault) :=
  setInsufficientPlaces_spread ⟨3, 8, 0⟩ (by decide) (by decide) fun _ => placesDefault

end Kupl.Places
