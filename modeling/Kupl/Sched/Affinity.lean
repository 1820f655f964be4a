import Kupl.Text.Strtol
import Mathlib.Order.Interval.Finset.Nat

/-!
# The place queues of the scheduler mq (`mt/scheduler/plugin/mq/kupl_sched_mq.cpp`)

| source | here |
|---|---|
| `strtok_r` from its first call to the end | `strtok` |
| `parse_eid`, `KUPL_EIDCID_INIT` | `parseEid`, `eidcidInit` |
| the loop of `parse_place_scatter` | `scatterLoop` |
| `parse_place_range`, `parse_place_single` | `parsePlaceRange`, `parsePlaceSingle` |
| `parse_place` | `parsePlace` |
| `cal_place_queue_cnt` | `calPlaceQueueCnt` |
| `place_queue_create` | `placeQueueCreate` |
| `kupl_create_place_queue_list` | `createPlaceQueueList` |

`errno` is the flag `erange`: no call sets it back. A loop that has used its fuel up gives `none`, and a set that
`kupl_malloc_inner` gave and nobody wrote is `none`. Allocations succeed; the queues behind the sets are left out.
-/

namespace Kupl.Sched
open Kupl.Text
open Function (update update_of_ne update_self)

/-- (`CPU_SETSIZE`). -/
def cpuSetsize : Int := 1024

/-- (C++ `KUPL_EIDCID_INIT`). -/
def eidcidInit : Int := -1

/-- (C++ `max_len` of `parse_place`). -/
def maxLen : Nat := 20

/-- The parts of a text between separators that are not empty. -/
def strtok (sep : Char) (s : List Char) : List (List Char) := (s.splitOn sep).filter fun t => !t.isEmpty

/-- The number of an executor, and `errno` (C++ `parse_eid`). -/
def parseEid (erange : Bool) (token : List Char) : Int × Bool :=
  let r := strtol token
  let erange := erange || r.erange
  if r.rest = token ∨ r.rest ≠ [] ∨ erange = true then (eidcidInit, erange)
  else if r.value < 0 ∨ r.value ≥ cpuSetsize then (eidcidInit, erange)
  else (r.value, erange)

/-- The loop of C++ `parse_place_scatter`: it stays at a token that names no executor. -/
def scatterLoop : Nat → List (List Char) → Finset Nat → Bool → Option (Finset Nat × Bool)
  | 0, _, _, _ => none
  | _ + 1, [], set, erange => some (set, erange)
  | fuel + 1, token :: tokens, set, erange =>
    let eid := parseEid erange token
    if eid.1 = eidcidInit then scatterLoop fuel (token :: tokens) set eid.2
    else scatterLoop fuel tokens (insert eid.1.toNat set) eid.2

/-- (C++ `parse_place_range`): `CPU_SET` for the numbers from `range_start` to `range_end`, except `-1`. -/
def parsePlaceRange (s : List Char) (erange : Bool) : Finset Nat × Bool :=
  let tokens := strtok '-' s
  let start := match tokens with
    | [] => (0, erange)
    | token :: _ => parseEid erange token
  let stop := match tokens with
    | _ :: token :: _ => parseEid start.2 token
    | _ => (0, start.2)
  (if start.1 < stop.1 then (Finset.range (stop.1 + 1).toNat).filter fun eid => start.1 ≤ (eid : Int)
    else ∅, stop.2)

/-- (C++ `parse_place_single`). -/
def parsePlaceSingle (s : List Char) (erange : Bool) : Finset Nat × Bool :=
  let eid := parseEid erange s
  (if eid.1 = eidcidInit then ∅ else {eid.1.toNat}, eid.2)

/-- The set that is written, `none` where nothing is, and `errno` (C++ `parse_place`, with `n` executors). It returns
`true` for a set that is not empty. -/
def parsePlace (n fuel : Nat) (s : List Char) (erange : Bool) : Option (Option (Finset Nat) × Bool) :=
  if s.length + 1 > maxLen then some (none, erange)
  else
    (if ',' ∈ s then scatterLoop fuel (strtok ',' s) ∅ erange
      else if '-' ∈ s then some (parsePlaceRange s erange)
      else some (parsePlaceSingle s erange)).map fun r => (some (r.1 ∩ Finset.range n), r.2)

/-- The loop of C++ `cal_place_queue_cnt`. -/
def placeCntLoop : Int → List Char → Int
  | cnt, [] => cnt
  | cnt, c :: s =>
    if c.isDigit then placeCntLoop cnt s
    else if c = '|' then placeCntLoop (cnt + 1) s
    else if c = ',' ∨ c = '-' then placeCntLoop cnt s
    else -1

/-- (C++ `cal_place_queue_cnt`). -/
def calPlaceQueueCnt (affinity : List Char) : Int := if affinity = [] then 0 else placeCntLoop 1 affinity

/-- (C++ `place_queue_t`). -/
structure PlaceQueue where
  queueCnt : Int
  eidSet : Nat → Option (Finset Nat)

/-- The loop of C++ `place_queue_create` over the tokens; `k` is the place of the pointer `eid_set`. -/
def placeLoop (n fuel : Nat) : List (List Char) → Bool → (Nat → Option (Finset Nat)) → Nat →
    Option (Nat → Option (Finset Nat))
  | [], _, sets, _ => some sets
  | token :: tokens, erange, sets, k =>
    match parsePlace n fuel token erange with
    | none => none
    | some (none, erange) => placeLoop n fuel tokens erange sets k
    | some (some set, erange) =>
      placeLoop n fuel tokens erange (update sets k (some set)) (if set = ∅ then k else k + 1)

/-- (C++ `place_queue_create`). -/
def placeQueueCreate (n fuel : Nat) (affinity : List Char) (erange : Bool) : Option PlaceQueue :=
  let cnt := calPlaceQueueCnt affinity
  if cnt ≤ 0 then some ⟨cnt, fun _ => none⟩
  else (placeLoop n fuel (strtok '|' affinity) erange (fun _ => none) 0).map fun sets => ⟨cnt, sets⟩

/-- The queues of an executor (C++ `kupl_create_place_queue_list`); `memory` is what stands in the sets that nobody
wrote. -/
def createPlaceQueueList (index : Nat) (pq : PlaceQueue) (memory : Nat → Finset Nat) : List Nat :=
  (List.range pq.queueCnt.toNat).foldr
    (fun j link => if index ∈ (pq.eidSet j).getD (memory j) then j :: link else link) []

/-! ### What a group names -/

/-- A text is the number of an executor that a set can hold. -/
def IsEid (s : List Char) : Prop := ∃ e, numeral s = some (e, []) ∧ 0 ≤ e ∧ e < cpuSetsize

/-- The number. -/
def eidOf (s : List Char) : Nat := (strtol s).value.toNat

/-- The executors a group names: a list of numbers, two numbers in ascending order, or a number. -/
inductive Names : List Char → Finset Nat → Prop
  | list {g : List Char} : ',' ∈ g → (∀ p ∈ strtok ',' g, IsEid p) →
      Names g ((strtok ',' g).map eidOf).toFinset
  | range {g a b : List Char} : ',' ∉ g → '-' ∈ g → strtok '-' g = [a, b] → IsEid a → IsEid b →
      eidOf a < eidOf b →
    Names g (Finset.Icc (eidOf a) (eidOf b))
  | single {g : List Char} : ',' ∉ g → '-' ∉ g → IsEid g → Names g {eidOf g}

/-- A group without a list has a number that is no `long` where `parse_place` reads one. -/
def Overflows (g : List Char) : Prop :=
  g.length + 1 ≤ maxLen ∧ ',' ∉ g ∧ ∃ p ∈ if '-' ∈ g then (strtok '-' g).take 2 else [g], OutOfRange p

section Parse
variable {n fuel k : Nat} {s t g p affinity : List Char} {tokens : List (List Char)} {set : Finset Nat}
  {erange erange' : Bool} {sets : Nat → Option (Finset Nat)} {r : Finset Nat × Bool}

lemma parseEid_erange : (parseEid erange p).2 = true ↔ erange = true ∨ OutOfRange p := by
  rw [← strtol_erange, ← Bool.or_eq_true]
  unfold parseEid
  dsimp only
  split
  · rfl
  · split <;> rfl

lemma IsEid.parse (is : IsEid p) : parseEid false p = ((eidOf p : Int), false) ∧ (eidOf p : Int) ≠ eidcidInit := by
  obtain ⟨e, isE, low, high⟩ := is
  unfold cpuSetsize at high
  have long := strtol_long isE (by unfold longMin; omega) (by unfold longMax; omega)
  have ne := (numeral_iff.1 isE).rest_ne
  have same : (eidOf p : Int) = e := by
    rw [eidOf, long]
    exact Int.toNat_of_nonneg low
  rw [same]
  refine ⟨?_, by unfold eidcidInit; omega⟩
  simp only [parseEid, long, Bool.or_false]
  rw [if_neg (by simp [ne]), if_neg (by unfold cpuSetsize; omega)]

lemma isEid_of_parse (is : (parseEid erange p).1 ≠ eidcidInit) : IsEid p ∧ erange = false := by
  unfold parseEid at is
  dsimp only at is
  split at is
  · exact absurd rfl is
  · rename_i fine
    split at is
    · exact absurd rfl is
    · simp only [not_or, not_not, Bool.or_eq_true] at fine
      have whole := strtol_whole fine.1 fine.2.1 fine.2.2.2
      exact ⟨⟨_, whole, by omega, by omega⟩, by simpa using fine.2.2.1⟩

lemma parseEid_none (bad : ¬ (IsEid p ∧ erange = false)) : (parseEid erange p).1 = eidcidInit := by
  by_contra is
  exact bad (isEid_of_parse is)

lemma scatterLoop_some (h : scatterLoop fuel tokens set erange = some r) : (∀ p ∈ tokens, IsEid p) ∧
    (tokens ≠ [] → erange = false) ∧ r = (set ∪ (tokens.map eidOf).toFinset, erange) := by
  induction fuel generalizing tokens set erange with
  | zero => cases h
  | succ fuel ih =>
    cases tokens with
    | nil =>
      cases h
      simp
    | cons p tokens =>
      rw [scatterLoop] at h
      split at h
      · -- the same token again, with `errno` as it is by now
        rename_i bad
        obtain ⟨all, clear, -⟩ := ih h
        have clear := clear (List.cons_ne_nil _ _)
        have free : erange = false := by
          by_contra set
          rw [Bool.not_eq_false] at set
          rw [parseEid_erange.2 (.inl set)] at clear
          cases clear
        have is := all p List.mem_cons_self
        rw [free, is.parse.1] at bad
        exact absurd bad is.parse.2
      · rename_i is
        obtain ⟨isEid, rfl⟩ := isEid_of_parse is
        rw [isEid.parse.1, Int.toNat_natCast] at h
        obtain ⟨all, -, eq⟩ := ih h
        refine ⟨List.forall_mem_cons.2 ⟨isEid, all⟩, fun _ => rfl, ?_⟩
        rw [eq, List.map_cons, List.toFinset_cons, Finset.insert_union, Finset.union_insert]

lemma scatterLoop_ends (all : ∀ p ∈ tokens, IsEid p) (clear : tokens ≠ [] → erange = false)
    (enough : tokens.length < fuel) : (scatterLoop fuel tokens set erange).isSome := by
  induction tokens generalizing fuel set with
  | nil =>
    obtain ⟨fuel, rfl⟩ := Nat.exists_eq_add_of_lt enough
    rfl
  | cons p tokens ih =>
    cases fuel with
    | zero => cases enough
    | succ fuel =>
      have is := all p List.mem_cons_self
      rw [clear (List.cons_ne_nil _ _), scatterLoop, is.parse.1, if_neg is.parse.2]
      have rest := @ih fuel (insert (eidOf p : Int).toNat set) (fun q hq => all q (List.mem_cons_of_mem _ hq))
        (fun _ => clear (List.cons_ne_nil _ _)) (Nat.lt_of_succ_lt_succ enough)
      rwa [clear (List.cons_ne_nil _ _)] at rest

lemma length_splitOn {c : Char} : (s.splitOn c).length = s.count c + 1 := by
  induction s with
  | nil => rfl
  | cons d s ih =>
    rw [List.splitOn_cons_eq_if_modifyHead, List.count_cons]
    split
    · rw [List.length_cons, ih]
    · rw [List.length_modifyHead, ih]

lemma placeCntLoop_eq {cnt : Int} (start : 0 ≤ cnt) (pos : 0 < placeCntLoop cnt s) :
    placeCntLoop cnt s = cnt + s.count '|' := by
  induction s generalizing cnt with
  | nil => simp [placeCntLoop]
  | cons c s ih =>
    have other (ne : c ≠ '|') : (c :: s).count '|' = s.count '|' := List.count_cons_of_ne ne
    unfold placeCntLoop at pos ⊢
    split at pos
    · rename_i digit
      rw [if_pos digit, ih start pos, other (by rintro rfl; cases digit)]
    · rename_i digit
      rw [if_neg digit]
      split at pos
      · rename_i bar
        rw [if_pos bar, ih (by omega) pos, bar, List.count_cons_self]
        omega
      · rename_i bar
        rw [if_neg bar]
        split at pos
        · rename_i sign
          rw [if_pos sign, ih start pos, other bar]
        · omega

lemma calPlaceQueueCnt_eq (pos : 0 < calPlaceQueueCnt affinity) :
    calPlaceQueueCnt affinity = (affinity.splitOn '|').length := by
  unfold calPlaceQueueCnt at pos ⊢
  split
  · rename_i none
    rw [if_pos none] at pos
    omega
  · rename_i some
    rw [if_neg some] at pos
    rw [placeCntLoop_eq (by decide) pos, length_splitOn]
    omega

lemma length_strtok_le {c : Char} : (strtok c s).length ≤ s.length + 1 := by
  have filtered := List.length_filter_le (fun t : List Char => !t.isEmpty) (s.splitOn c)
  rw [length_splitOn] at filtered
  have count : s.count c ≤ s.length := List.count_le_length
  unfold strtok
  omega

/-- The parts of a group with a comma are numbers of executors, and `errno` is clear when they are read. -/
def ListOk (clear : Prop) (g : List Char) : Prop :=
  g.length + 1 ≤ maxLen → ',' ∈ g → (strtok ',' g ≠ [] → clear) ∧ ∀ p ∈ strtok ',' g, IsEid p

lemma parsePlace_listOk (h : (parsePlace n fuel s erange).isSome) : ListOk (erange = false) s := by
  intro short comma
  rw [parsePlace, if_neg (by omega), if_pos comma, Option.isSome_map] at h
  obtain ⟨r, hr⟩ := Option.isSome_iff_exists.1 h
  obtain ⟨all, clear, -⟩ := scatterLoop_some hr
  exact ⟨clear, all⟩

lemma ListOk.parsePlace (ok : ListOk (erange = false) s) : (parsePlace n (maxLen + 1) s erange).isSome := by
  unfold Sched.parsePlace
  split
  · rfl
  · rw [Option.isSome_map]
    split
    · rename_i comma
      obtain ⟨clear, all⟩ := ok (by omega) comma
      have le := length_strtok_le (c := ',') (s := s)
      exact scatterLoop_ends all clear (by omega)
    · split <;> rfl

lemma parsePlaceRange_erange : (parsePlaceRange s erange).2 = true ↔
    erange = true ∨ ∃ p ∈ (strtok '-' s).take 2, OutOfRange p := by
  unfold parsePlaceRange
  obtain none | ⟨a, _ | ⟨b, tokens⟩⟩ := strtok '-' s
  · simp
  · simp [parseEid_erange]
  · simp [parseEid_erange, or_assoc]

lemma parsePlace_erange {x} (h : parsePlace n fuel s erange = some x) :
    x.2 = false ↔ erange = false ∧ ¬ Overflows s := by
  rw [← Bool.not_eq_true, ← Bool.not_eq_true, ← not_or, not_iff_not]
  unfold parsePlace at h
  split at h
  · cases h
    exact ⟨.inl, fun is => is.resolve_right fun far => absurd far.1 (by omega)⟩
  · rename_i short
    obtain ⟨r, hr, rfl⟩ := Option.map_eq_some_iff.1 h
    unfold Overflows
    split at hr
    · rename_i comma
      obtain ⟨-, -, rfl⟩ := scatterLoop_some hr
      simp [comma]
    · rename_i comma
      split at hr
      · rename_i minus
        cases hr
        rw [parsePlaceRange_erange, if_pos minus]
        simp [comma, Nat.le_of_not_lt short]
      · rename_i minus
        cases hr
        rw [if_neg minus]
        simp [comma, Nat.le_of_not_lt short, parsePlaceSingle, parseEid_erange]

lemma placeLoop_listOk (h : (placeLoop n fuel tokens erange sets k).isSome) {ts us : List (List Char)}
    (split : tokens = ts ++ t :: us) : ListOk (erange = false ∧ ∀ u ∈ ts, ¬ Overflows u) t := by
  induction ts generalizing tokens erange sets k with
  | nil =>
    subst split
    intro short comma
    have parsed : (parsePlace n fuel t erange).isSome := by
      rw [List.nil_append, placeLoop] at h
      split at h
      · cases h
      all_goals
        rename_i is
        rw [is]
        rfl
    obtain ⟨clear, all⟩ := parsePlace_listOk parsed short comma
    exact ⟨fun some => ⟨clear some, by simp⟩, all⟩
  | cons u ts ih =>
    subst split
    rw [List.cons_append, placeLoop] at h
    intro short comma
    split at h
    · cases h
    all_goals
      rename_i is
      obtain ⟨clear, all⟩ := ih h rfl short comma
      refine ⟨fun some => ?_, all⟩
      obtain ⟨free, rest⟩ := clear some
      obtain ⟨free, first⟩ := (parsePlace_erange is).1 free
      exact ⟨free, List.forall_mem_cons.2 ⟨first, rest⟩⟩

lemma placeLoop_ends (ok : ∀ ts t us, tokens = ts ++ t :: us →
    ListOk (erange = false ∧ ∀ u ∈ ts, ¬ Overflows u) t) :
    (placeLoop n (maxLen + 1) tokens erange sets k).isSome := by
  induction tokens generalizing erange sets k with
  | nil => rfl
  | cons t tokens ih =>
    have first : ListOk (erange = false) t := fun short comma =>
      (ok [] t tokens rfl short comma).imp_left fun clear some => (clear some).1
    obtain ⟨x, hx⟩ := Option.isSome_iff_exists.1 (first.parsePlace (n := n))
    have rest : ∀ ts u us, tokens = ts ++ u :: us → ListOk (x.2 = false ∧ ∀ u ∈ ts, ¬ Overflows u) u := by
      rintro ts u us rfl short comma
      refine (ok (t :: ts) u us rfl short comma).imp_left fun clear some => ?_
      obtain ⟨free, all⟩ := clear some
      obtain ⟨first, rest⟩ := List.forall_mem_cons.1 all
      exact ⟨(parsePlace_erange hx).2 ⟨free, first⟩, rest⟩
    obtain ⟨set, erange'⟩ := x
    rw [placeLoop, hx]
    cases set with
    | none | some set => exact ih rest

end Parse

/-- Creating the place queues comes to an end for the texts that are refused at once, and for those whose lists have
numbers of executors only, with no number before them that is no `long`. -/
theorem placeQueueCreate_ends_iff {n : Nat} {affinity : List Char} {erange : Bool} :
    (∃ fuel, (placeQueueCreate n fuel affinity erange).isSome) ↔ calPlaceQueueCnt affinity ≤ 0 ∨
      ∀ ts t us, strtok '|' affinity = ts ++ t :: us →
        ListOk (erange = false ∧ ∀ u ∈ ts, ¬ Overflows u) t := by
  constructor
  · rintro ⟨fuel, h⟩
    by_cases none : calPlaceQueueCnt affinity ≤ 0
    · exact .inl none
    · rw [placeQueueCreate, if_neg none, Option.isSome_map] at h
      exact .inr fun ts t us => placeLoop_listOk h
  · intro ok
    refine ⟨maxLen + 1, ?_⟩
    unfold placeQueueCreate
    dsimp only
    split
    · rfl
    · rename_i some
      rw [Option.isSome_map]
      exact placeLoop_ends (ok.resolve_left some)

/-- The number of an executor that no set can hold, in a list. -/
theorem placeQueueCreate_not_ends : ¬ ∀ (n : Nat) (affinity : List Char) (erange : Bool),
    ∃ fuel, (placeQueueCreate n fuel affinity erange).isSome := by
  intro ends
  obtain ⟨fuel, h⟩ := ends 4 ['0', ',', '1', '0', '2', '4'] false
  have some : ¬ calPlaceQueueCnt ['0', ',', '1', '0', '2', '4'] ≤ 0 := by decide +kernel
  have tokens : strtok '|' ['0', ',', '1', '0', '2', '4'] = [['0', ',', '1', '0', '2', '4']] := by decide +kernel
  have parts : strtok ',' ['0', ',', '1', '0', '2', '4'] = [['0'], ['1', '0', '2', '4']] := by decide +kernel
  rw [placeQueueCreate, if_neg some, Option.isSome_map, tokens] at h
  obtain ⟨-, all⟩ := placeLoop_listOk h (List.nil_append _).symm (by decide +kernel) (by decide +kernel)
  rw [parts] at all
  obtain ⟨e, is, -, lt⟩ := all ['1', '0', '2', '4'] (by decide +kernel)
  have number : numeral ['1', '0', '2', '4'] = Option.some (1024, []) := by decide +kernel
  cases number.symm.trans is
  exact absurd lt (by decide)

/-! ### The sets of the queues -/

/-- A group that `parse_place` takes, and what it names of `n` executors. -/
def Place (n : Nat) (g : List Char) (set : Finset Nat) : Prop :=
  (∃ whole, Names g whole ∧ set = whole ∩ Finset.range n) ∧ set.Nonempty

/-- The sets of the queues are those of groups, in their order, and an executor has the queues that name it. -/
structure PlaceQueue.Right (n : Nat) (groups : List (List Char)) (memory : Nat → Finset Nat) (pq : PlaceQueue) :
    Prop where
  sets : ∃ gs : List (List Char), gs.Sublist groups ∧ gs.length = pq.queueCnt.toNat ∧
    ∀ j g, gs[j]? = some g → ∃ set, Place n g set ∧ pq.eidSet j = some set
  lists : ∀ e < n, ∀ j, j ∈ createPlaceQueueList e pq memory ↔
    j < pq.queueCnt.toNat ∧ ∃ set, pq.eidSet j = some set ∧ e ∈ set

section Sets
variable {n fuel k : Nat} {s t g p affinity : List Char} {tokens : List (List Char)} {set set' : Finset Nat}
  {erange erange' : Bool} {sets out : Nat → Option (Finset Nat)} {pq : PlaceQueue} {memory : Nat → Finset Nat}

lemma mem_createPlaceQueueList {e j : Nat} : j ∈ createPlaceQueueList e pq memory ↔
    j < pq.queueCnt.toNat ∧ e ∈ (pq.eidSet j).getD (memory j) := by
  rw [← List.mem_range]
  unfold createPlaceQueueList
  induction List.range pq.queueCnt.toNat with
  | nil => simp
  | cons i js ih =>
    rw [List.foldr_cons, List.mem_cons]
    split
    · rename_i named
      rw [List.mem_cons, ih]
      constructor
      · rintro (rfl | h)
        · exact ⟨.inl rfl, named⟩
        · exact ⟨.inr h.1, h.2⟩
      · exact fun h => h.1.imp_right fun hj => ⟨hj, h.2⟩
    · rename_i named
      rw [ih]
      constructor
      · exact fun h => ⟨.inr h.1, h.2⟩
      · rintro ⟨rfl | hj, h⟩
        · exact absurd h named
        · exact ⟨hj, h⟩

lemma Names.ne_nil (N : Names g set) : g ≠ [] := by
  rintro rfl
  cases N with
  | list comma => cases comma
  | range _ minus => cases minus
  | single _ _ is =>
    obtain ⟨e, is, -⟩ := is
    cases is

lemma parsePlaceRange_erange_empty {a b : List Char} (two : strtok '-' s = [a, b]) :
    (parsePlaceRange s true).1 = ∅ := by
  have bad (p) : (parseEid true p).1 = eidcidInit := parseEid_none fun is => Bool.noConfusion is.2
  have still : (parseEid true a).2 = true := parseEid_erange.2 (.inl rfl)
  simp only [parsePlaceRange, two, still, bad, lt_irrefl, if_false]

lemma Names.parse (N : Names s set) (short : s.length + 1 ≤ maxLen) {x}
    (h : parsePlace n fuel s false = some x) : x = (some (set ∩ Finset.range n), false) := by
  rw [parsePlace, if_neg (by omega)] at h
  obtain ⟨r, hr, rfl⟩ := Option.map_eq_some_iff.1 h
  cases N with
  | list comma =>
    rw [if_pos comma] at hr
    obtain ⟨-, -, rfl⟩ := scatterLoop_some hr
    rw [Finset.empty_union]
  | @range a b comma minus two isA isB lt =>
    rw [if_neg comma, if_pos minus] at hr
    cases hr
    simp only [parsePlaceRange, two, isA.parse.1, isB.parse.1]
    rw [if_pos (by omega)]
    congr 3
    ext e
    simp only [Finset.mem_filter, Finset.mem_range, Finset.mem_Icc]
    omega
  | single comma minus is =>
    rw [if_neg comma, if_neg minus] at hr
    cases hr
    simp only [parsePlaceSingle, is.parse.1, if_neg is.parse.2, Int.toNat_natCast]

lemma Names.found (N : Names s set) (h : parsePlace n fuel s erange = some (some set', erange'))
    (some : set'.Nonempty) : s.length + 1 ≤ maxLen ∧ erange = false := by
  unfold parsePlace at h
  split at h
  · cases h
  · refine ⟨by omega, ?_⟩
    by_contra isSet
    rw [Bool.not_eq_false] at isSet
    subst isSet
    obtain ⟨r, hr, eq⟩ := Option.map_eq_some_iff.1 h
    cases eq
    obtain ⟨e, he⟩ := some
    have he := Finset.mem_of_mem_inter_left he
    cases N with
    | list comma =>
      rw [if_pos comma] at hr
      obtain ⟨-, clear, rfl⟩ := scatterLoop_some hr
      have none : strtok ',' s = [] := by
        by_contra some
        cases clear some
      rw [none] at he
      cases he
    | range comma minus two =>
      rw [if_neg comma, if_pos minus] at hr
      cases hr
      rw [parsePlaceRange_erange_empty two] at he
      cases he
    | single comma minus =>
      rw [if_neg comma, if_neg minus] at hr
      cases hr
      have bad : (parseEid true s).1 = eidcidInit := parseEid_none fun is => Bool.noConfusion is.2
      simp only [parsePlaceSingle, bad, if_true] at he
      cases he

lemma placeLoop_rest (h : placeLoop n fuel tokens erange sets k = some out)
    (fresh : ∀ j, k ≤ j → ∀ set, sets j = some set → set = ∅) :
    ∀ j, k + tokens.length ≤ j → ∀ set, out j = some set → set = ∅ := by
  induction tokens generalizing erange sets k with
  | nil =>
    cases h
    exact fresh
  | cons t tokens ih =>
    intro j hj
    rw [List.length_cons] at hj
    rw [placeLoop] at h
    split at h
    · cases h
    · exact ih h fresh j (by omega)
    · rename_i set _ _
      by_cases none : set = ∅
      · rw [if_pos none] at h
        refine ih h (fun j hj set' is => ?_) j (by omega)
        by_cases here : j = k
        · rw [here, update_self] at is
          exact (Option.some.inj is).symm.trans none
        · rw [update_of_ne here] at is
          exact fresh j hj set' is
      · rw [if_neg none] at h
        refine ih h (fun j hj set' is => ?_) j (by omega)
        rw [update_of_ne (by omega)] at is
        exact fresh j (by omega) set' is

lemma placeLoop_full (h : placeLoop n fuel tokens erange sets k = some out)
    (fresh : ∀ j, k ≤ j → ∀ set, sets j = some set → set = ∅)
    (names : ∀ t ∈ tokens, ∃ set, Names t set)
    (full : ∀ j, k ≤ j → j < k + tokens.length → ∃ set, out j = some set ∧ set.Nonempty) :
    (tokens ≠ [] → erange = false) ∧ ∀ t ∈ tokens, t.length + 1 ≤ maxLen := by
  induction tokens generalizing erange sets k with
  | nil => exact ⟨fun some => absurd rfl some, by simp⟩
  | cons t tokens ih =>
    rw [List.length_cons] at full
    rw [placeLoop] at h
    obtain ⟨last, isLast, some⟩ := full (k + tokens.length) (by omega) (by omega)
    split at h
    · cases h
    · exact absurd (placeLoop_rest h fresh _ (Nat.le_refl _) _ isLast) some.ne_empty
    · rename_i set _ parsed
      have fresh' (j) (hj : k + 1 ≤ j) (set') (is : update sets k (.some set) j = .some set') : set' = ∅ := by
        rw [update_of_ne (by omega)] at is
        exact fresh j (by omega) set' is
      by_cases none : set = ∅
      · rw [if_pos none] at h
        refine absurd (placeLoop_rest h (fun j hj set' is => ?_) _ (Nat.le_refl _) _ isLast) some.ne_empty
        by_cases here : j = k
        · rw [here, update_self] at is
          exact (Option.some.inj is).symm.trans none
        · exact fresh' j (by omega) set' is
      · rw [if_neg none] at h
        obtain ⟨named, N⟩ := names t List.mem_cons_self
        obtain ⟨short, clear⟩ := N.found parsed (Finset.nonempty_iff_ne_empty.2 none)
        obtain ⟨-, rest⟩ := ih h fresh' (fun u hu => names u (List.mem_cons_of_mem _ hu))
          fun j hj lt => full j (by omega) (by omega)
        exact ⟨fun _ => clear, List.forall_mem_cons.2 ⟨short, rest⟩⟩

lemma placeLoop_places (h : placeLoop n fuel tokens false sets k = some out)
    (all : ∀ t ∈ tokens, t.length + 1 ≤ maxLen ∧ ∃ set, Place n t set) :
    (∀ j < k, out j = sets j) ∧ ∀ j t, tokens[j]? = some t → ∃ set, Place n t set ∧
      out (k + j) = some set := by
  induction tokens generalizing sets k with
  | nil =>
    cases h
    exact ⟨fun _ _ => rfl, by simp⟩
  | cons t tokens ih =>
    obtain ⟨short, set, P⟩ := all t List.mem_cons_self
    obtain ⟨⟨whole, N, eq⟩, some⟩ := P
    rw [placeLoop] at h
    split at h
    · cases h
    all_goals
      rename_i parsed
      cases N.parse short parsed
    rw [← eq, if_neg some.ne_empty] at h
    obtain ⟨before, rest⟩ := ih h fun u hu => all u (List.mem_cons_of_mem _ hu)
    refine ⟨fun j hj => ?_, fun j u hu => ?_⟩
    · rw [before j (by omega), update_of_ne (by omega)]
    · cases j with
      | zero =>
        cases hu
        refine ⟨set, ⟨⟨whole, N, eq⟩, some⟩, ?_⟩
        rw [Nat.add_zero, before k (Nat.lt_succ_self k), update_self]
      | succ j =>
        obtain ⟨set', P', is⟩ := rest j u hu
        exact ⟨set', P', by rwa [← Nat.add_assoc, Nat.add_right_comm]⟩

lemma placeQueueCreate_cnt (returns : placeQueueCreate n fuel affinity erange = some pq) :
    pq.queueCnt = calPlaceQueueCnt affinity := by
  unfold placeQueueCreate at returns
  dsimp only at returns
  split at returns
  · cases returns
    rfl
  · obtain ⟨_, -, rfl⟩ := Option.map_eq_some_iff.1 returns
    rfl

end Sets

/-- The place queues are those of the groups for the texts that are refused at once, and for those whose groups all
name executors there are, each of fewer than 20 characters, when `errno` is clear. -/
theorem placeQueueCreate_right_iff {n fuel : Nat} {affinity : List Char} {erange : Bool} {pq : PlaceQueue}
    {memory : Nat → Finset Nat} (returns : placeQueueCreate n fuel affinity erange = some pq) :
    pq.Right n (affinity.splitOn '|') memory ↔ calPlaceQueueCnt affinity ≤ 0 ∨
      erange = false ∧ ∀ g ∈ affinity.splitOn '|', g.length + 1 ≤ maxLen ∧ ∃ set, Place n g set := by
  have cnt := placeQueueCreate_cnt returns
  by_cases none : calPlaceQueueCnt affinity ≤ 0
  · refine ⟨fun _ => .inl none, fun _ => ⟨⟨[], List.nil_sublist _, ?_, by simp⟩, fun e _ j => ?_⟩⟩
    · rw [List.length_nil]
      omega
    · rw [mem_createPlaceQueueList]
      exact ⟨fun h => absurd h.1 (by omega), fun h => absurd h.1 (by omega)⟩
  have many := @calPlaceQueueCnt_eq affinity (by omega)
  rw [placeQueueCreate, if_neg none] at returns
  obtain ⟨out, loop, rfl⟩ := Option.map_eq_some_iff.1 returns
  have whole (named : ∀ g ∈ affinity.splitOn '|', ∃ set, Place n g set) :
      strtok '|' affinity = affinity.splitOn '|' := by
    refine List.filter_eq_self.2 fun g hg => ?_
    obtain ⟨_, ⟨_, N, -⟩, -⟩ := named g hg
    simp [N.ne_nil]
  constructor
  · rintro ⟨⟨gs, sub, length, sets⟩, -⟩
    have all : gs = affinity.splitOn '|' := sub.eq_of_length (by rw [length]; omega)
    subst all
    have named (g) (hg : g ∈ affinity.splitOn '|') : ∃ set, Place n g set := by
      obtain ⟨j, hj⟩ := List.mem_iff_getElem?.1 hg
      obtain ⟨set, P, -⟩ := sets j g hj
      exact ⟨set, P⟩
    rw [whole named] at loop
    obtain ⟨clear, short⟩ := placeLoop_full loop (fun _ _ _ is => by cases is)
      (fun g hg => by obtain ⟨_, ⟨whole, N, -⟩, -⟩ := named g hg; exact ⟨whole, N⟩) fun j _ lt => by
        obtain ⟨set, P, is⟩ := sets j _ (List.getElem?_eq_getElem (by omega))
        exact ⟨set, is, P.2⟩
    exact .inr ⟨clear (List.splitOn_ne_nil _ _), fun g hg => ⟨short g hg, named g hg⟩⟩
  · intro ok
    obtain ⟨rfl, all⟩ := ok.resolve_left none
    rw [whole fun g hg => (all g hg).2] at loop
    obtain ⟨-, sets⟩ := placeLoop_places loop all
    have sets (j g) (hj : (affinity.splitOn '|')[j]? = some g) : ∃ set, Place n g set ∧ out j = some set := by
      have found := sets j g hj
      rwa [Nat.zero_add] at found
    refine ⟨⟨_, List.Sublist.refl _, by dsimp only; omega, sets⟩, fun e _ j => ?_⟩
    rw [mem_createPlaceQueueList]
    refine and_congr_right fun lt => ?_
    obtain ⟨set, -, is⟩ := sets j _ (List.getElem?_eq_getElem (by dsimp only at lt; omega))
    dsimp only
    rw [is, Option.getD_some]
    exact ⟨fun mem => ⟨set, rfl, mem⟩, fun ⟨_, eq, mem⟩ => Option.some.inj eq ▸ mem⟩

/-- A queue for the executors 0 to 2 and one for the executor 1. -/
theorem placeQueueCreate_right_iff_two : ∃ pq, placeQueueCreate 4 21 ['0', '-', '2', '|', '1'] false = some pq ∧
    pq.Right 4 (['0', '-', '2', '|', '1'].splitOn '|') (fun _ => ∅) := by
  have returns : (placeQueueCreate 4 21 ['0', '-', '2', '|', '1'] false).isSome := by decide +kernel
  obtain ⟨pq, hpq⟩ := Option.isSome_iff_exists.1 returns
  have isEid (c : Char) (e : Int) (is : numeral [c] = some (e, [])) (low : 0 ≤ e) (high : e < cpuSetsize) :
      IsEid [c] := ⟨e, is, low, high⟩
  have zero := isEid '0' 0 (by decide +kernel) (by decide) (by decide)
  have one := isEid '1' 1 (by decide +kernel) (by decide) (by decide)
  have two := isEid '2' 2 (by decide +kernel) (by decide) (by decide)
  refine ⟨pq, hpq, (placeQueueCreate_right_iff hpq).2 (.inr ⟨rfl, fun g mem => ?_⟩)⟩
  have groups : g ∈ [['0', '-', '2'], ['1']] := mem
  obtain rfl | rfl : g = ['0', '-', '2'] ∨ g = ['1'] := by simpa using groups
  · exact ⟨by decide, _, ⟨_, .range (by decide) (by decide) rfl zero two (by decide +kernel), rfl⟩,
      by decide +kernel⟩
  · exact ⟨by decide, _, ⟨_, .single (by decide) (by decide) one, rfl⟩, by decide +kernel⟩

/-- Nothing behind the last separator: two queues are made, and the second has a set that nobody wrote. -/
theorem placeQueueCreate_not_right : ¬ ∀ (n fuel : Nat) (affinity : List Char) (pq : PlaceQueue)
    (memory : Nat → Finset Nat), placeQueueCreate n fuel affinity false = some pq →
      pq.Right n (affinity.splitOn '|') memory := by
  intro right
  have unwritten : (placeQueueCreate 4 21 ['0', '|'] false).any fun pq =>
      decide (pq.queueCnt = 2) && (pq.eidSet 1).isNone := by decide +kernel
  obtain ⟨pq, hpq, is⟩ := (Option.any_eq_true _ _).1 unwritten
  obtain ⟨two, none⟩ := Bool.and_eq_true_iff.1 is
  obtain ⟨⟨gs, -, length, sets⟩, -⟩ := right 4 21 ['0', '|'] pq (fun _ => ∅) hpq
  rw [of_decide_eq_true two] at length
  obtain ⟨set, -, some⟩ := sets 1 _ (List.getElem?_eq_getElem (by rw [length]; decide))
  rw [some] at none
  cases none

end Kupl.Sched
