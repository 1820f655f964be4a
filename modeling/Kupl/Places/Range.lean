import Kupl.Places.Placelist

/-!
# The processor numbers of a run

Every processor number that a run of the parsers sets is one of the `CPU_SETSIZE` numbers of a set, and
none is tested from `CPU_SETSIZE` on, whether the run succeeds or not. A negative number is only tested
where the numbers of a subplace leave the non-negative values of `int`. The proofs are about both at
once: `neg` says whether negative numbers may be tested.
-/

namespace Kupl.Places
open Text List

def Access.InRange (neg : Prop) : Access → Prop
  | .test cpu => (0 ≤ cpu ∨ neg) ∧ cpu < cpuSetsize
  | .set cpu => 0 ≤ cpu ∧ cpu < cpuSetsize

/-- The accesses so far are in range, and there are no more places than `g_places` has room for. -/
structure St.InRange (neg : Prop) (s : St) : Prop where
  log : ∀ a ∈ s.log, a.InRange neg
  few : s.places.length ≤ cpuSetsize

/-- A run ends in a state with a property, with success or with an error. -/
def Ends {α : Type} (state : α → St) (P : St → Prop) : Except St α → Prop
  | .ok a => P (state a)
  | .error s => P s

def Visitable (neg : Prop) (cpu : Int) : Prop := InInt cpu ∧ (0 ≤ cpu ∨ neg)

def Place.Visitable (f : CpuSet) (neg : Prop) : Place → Prop
  | .num n => Places.Visitable neg n
  | .shift p _ _ => p.Visitable f neg
  | .subplaces l => ∀ q ∈ l, ∀ cpu ∈ q.visits f, Places.Visitable neg cpu
  | .compl p => p.Visitable f neg

section Ranges

variable {f : CpuSet} {neg : Prop} {s : St} {cpu stride : Int} {L : List Int} {n : Nat} {p : Place} {scan : List Char}

section
variable (I : s.InRange neg)
include I

lemma St.InRange.test (low : 0 ≤ cpu ∨ neg) (high : cpu < cpuSetsize) : (s.test cpu).InRange neg := by
  refine ⟨fun a mem => ?_, I.few⟩
  cases mem with
  | head => exact ⟨low, high⟩
  | tail _ mem => exact I.log a mem

lemma St.InRange.set (low : 0 ≤ cpu) (high : cpu < cpuSetsize) : (s.set cpu).InRange neg := by
  refine ⟨fun a mem => ?_, I.few⟩
  cases mem with
  | head => exact ⟨low, high⟩
  | tail _ mem => exact I.log a mem

lemma St.InRange.markCpu (V : Visitable neg cpu) : (Places.markCpu f cpu s).InRange neg := by
  unfold Places.markCpu
  split
  · exact I
  · rename_i inside
    have high := Int.not_le.1 inside
    split
    · rename_i is
      have A := (isset_iff V.1).1 is
      exact (I.test V.2 high).set A.bounds.1 high
    · exact I.test V.2 high

lemma St.InRange.visit (V : ∀ cpu ∈ L, Visitable neg cpu) : (Places.visit f L s).InRange neg := by
  induction L generalizing s with
  | nil => exact I
  | cons cpu L ih =>
    rw [visit_cons]
    exact ih (I.markCpu (V cpu mem_cons_self)) fun c mem => V c (mem_cons_of_mem cpu mem)

lemma St.InRange.execAll {l : List Subplace} (V : ∀ q ∈ l, ∀ cpu ∈ q.visits f, Visitable neg cpu) :
    (Places.execAll f l s).InRange neg := by
  induction l generalizing s with
  | nil => exact I
  | cons q l ih =>
    have I' := I.visit (f := f) (V q mem_cons_self)
    rw [← Subplace.exec_eq] at I'
    exact ih I' fun r mem => V r (mem_cons_of_mem q mem)

lemma St.InRange.exec (V : p.Visitable f neg) : (p.exec f s).InRange neg := by
  induction p generalizing s with
  | num n => exact I.markCpu V
  | shift p _ _ ih => exact ih I V
  | subplaces l => exact I.execAll V
  | compl p ih =>
    have I' := ih I V
    exact ⟨I'.log, I'.few⟩

lemma St.InRange.clear : s.clear.InRange neg := ⟨I.log, I.few⟩

lemma St.InRange.store (room : ¬ cpuSetsize ≤ s.places.length) : s.store.InRange neg := by
  refine ⟨I.log, ?_⟩
  show (s.places ++ [s.mask]).length ≤ cpuSetsize
  rw [length_append, length_singleton]
  omega

lemma St.InRange.shiftCpu {b : CpuSet} {j : Nat} (lt : j < cpuSetsize) :
    (Places.shiftCpu f b stride s j).InRange neg := by
  have tested := I.test (.inl (Int.natCast_nonneg j)) (Int.ofNat_lt.2 lt)
  unfold Places.shiftCpu
  dsimp only
  split
  · split
    · exact tested
    · rename_i inside
      exact tested.markCpu ⟨wrap_inInt, .inl (Int.not_lt.1 fun neg => inside (.inr neg))⟩
  · exact tested

lemma St.InRange.shiftAll {b : CpuSet} {l : List Nat} (lt : ∀ j ∈ l, j < cpuSetsize) :
    (l.foldl (Places.shiftCpu f b stride) s).InRange neg := by
  induction l generalizing s with
  | nil => exact I
  | cons j l ih => exact ih (I.shiftCpu (lt j mem_cons_self)) fun i mem => lt i (mem_cons_of_mem j mem)

lemma St.InRange.shifts : Ends id (St.InRange neg) (Places.shifts f stride n s) := by
  induction n generalizing s with
  | zero => exact I
  | succ n ih =>
    unfold Places.shifts
    split
    · exact I
    split
    · exact I
    · rename_i room
      have next : ((List.range cpuSetsize).foldl (Places.shiftCpu f s.mask stride) s.store.clear).InRange neg :=
        (I.store room).clear.shiftAll fun j mem => mem_range.1 mem
      exact ih next

lemma St.InRange.keep : Ends id (St.InRange neg) s.keep := by
  unfold St.keep
  split
  · split
    · exact I
    · rename_i room
      exact (I.store room).clear
  · exact I.clear

omit I in
lemma Ends.map {α β : Type} {state : α → St} {state' : β → St} {P : St → Prop} {f : α → β}
    {x : Except St α}
    (E : Ends state P x) (keeps : ∀ a, P (state a) → P (state' (f a))) : Ends state' P (x.map f) := by
  cases x with
  | ok a => exact keeps a E
  | error s => exact E

lemma St.InRange.place (V : p.Visitable f neg) : Ends id (St.InRange neg) (p.store f s) := by
  have I' := I.exec V
  cases p with
  | shift p c d => exact (St.InRange.shifts I').map fun s J => J.clear
  | num | subplaces => exact I'.keep
  | compl p =>
    have kept : (Place.compl p).store f s = ((Place.compl p).exec f s).keep := rfl
    rw [kept]
    generalize (Place.compl p).exec f s = x at I' ⊢
    exact I'.keep

lemma St.InRange.storeAll {l : List Place} (V : ∀ p ∈ l, p.Visitable f neg) :
    Ends id (St.InRange neg) (Places.storeAll f l s) := by
  induction l generalizing s with
  | nil => exact I
  | cons p l ih =>
    have stored := I.place (V p mem_cons_self)
    rw [Places.storeAll]
    cases is : p.store f s with
    | error s' =>
      rw [is] at stored
      exact stored
    | ok s' =>
      rw [is] at stored
      exact ih stored fun q mem => V q (mem_cons_of_mem p mem)

end

/-! ## Any text -/

lemma visitable_clamp {m : Int} : Visitable True (clamp m) := ⟨clamp_inInt, .inr trivial⟩

lemma St.InRange.processSubplaceList (I : s.InRange True) :
    Ends Prod.snd (St.InRange True) (Places.processSubplaceList f n scan s) := by
  induction n generalizing scan s with
  | zero => exact I
  | succ n ih =>
    unfold Places.processSubplaceList
    split
    · exact I
    rename_i p m first
    obtain ⟨ts, q, m', isQ, -, -, -, rfl⟩ := readSubplace_iff.1 first
    have I' := I.visit (f := f) (L := q.read.visits f) fun cpu mem => ⟨isQ.fits mem, .inr trivial⟩
    rw [← Subplace.exec_eq] at I'
    split
    · exact I'
    · exact ih I'

lemma St.InRange.processPlace (I : s.InRange True) :
    Ends Prod.snd (St.InRange True) (Places.processPlace f n scan s) := by
  induction n generalizing scan with
  | zero => exact I
  | succ n ih =>
    unfold Places.processPlace
    dsimp only
    split
    · have list : Ends Prod.snd (St.InRange True)
          (Places.processSubplaceList f (skipWs scan).length (skipWs scan).tail s) := I.processSubplaceList
      split
      · rename_i is
        rw [is] at list
        exact list
      · rename_i is
        rw [is] at list
        split
        · exact list
        · exact list
    split
    · have inner : Ends Prod.snd (St.InRange True) (Places.processPlace f n (skipWs scan).tail s) := ih
      split
      · rename_i is
        rw [is] at inner
        exact inner
      · rename_i is
        rw [is] at inner
        exact ⟨inner.log, inner.few⟩
    split
    · exact I
    · rename_i num m isNum
      obtain ⟨k, -, rfl⟩ := readNum_iff.1 isNum
      split
      · exact I
      · exact I.markCpu visitable_clamp

lemma St.InRange.processItem (I : s.InRange True) : Ends Prod.snd (St.InRange True) (Places.processItem f scan s) := by
  have place : Ends Prod.snd (St.InRange True) (Places.processPlace f (scan.length + 1) scan s) := I.processPlace
  unfold Places.processItem
  dsimp only
  split
  · rename_i is
    rw [is] at place
    exact place
  rename_i m s' is
  rw [is] at place
  have I' : s'.InRange True := place
  split
  · exact I'.keep.map fun s J => J
  split
  · exact I'
  split
  · exact I'
  split
  · exact I'
  split
  · exact I'
  · exact (St.InRange.shifts I').map fun s J => J.clear

lemma St.InRange.placelistFrom (I : s.InRange True) : Ends id (St.InRange True) (Places.placelistFrom f n scan s) := by
  induction n generalizing scan s with
  | zero => exact I
  | succ n ih =>
    have item : Ends Prod.snd (St.InRange True) (Places.processItem f scan s) := I.processItem
    unfold Places.placelistFrom
    dsimp only
    split
    · rename_i is
      rw [is] at item
      exact item
    rename_i m s' is
    rw [is] at item
    split
    · exact item
    split
    · exact ih item
    · exact item

/-! ## Texts of the grammar -/

/-- The numbers read for the subplaces of a place stay in the non-negative values of `int`. -/
def Place.Within : Place → Prop
  | .num _ => True
  | .shift p _ _ => p.Within
  | .subplaces l => ∀ q ∈ l, ∀ cpu ∈ q.read.numbers, 0 ≤ cpu ∧ cpu ≤ intMax
  | .compl p => p.Within

lemma runNumbers_within (fits : InInt cpu) (within : ∀ c ∈ progression cpu n 1, 0 ≤ c ∧ c ≤ intMax) :
    ∀ c ∈ runNumbers n cpu, 0 ≤ c := by
  have top : intMax = 2147483647 := rfl
  intro c mem
  rw [runNumbers_eq fits, mem_map] at mem
  obtain ⟨c', mem', rfl⟩ := mem
  obtain ⟨low, high⟩ := within c' mem'
  rw [wrap_eq ⟨by omega, by omega⟩]
  exact low

lemma stridedNumbers_within (within : ∀ c ∈ progression cpu n stride, 0 ≤ c ∧ c ≤ intMax) :
    ∀ c ∈ stridedNumbers f stride n cpu, 0 ≤ c := by
  have top : intMax = 2147483647 := rfl
  induction n generalizing cpu with
  | zero => nofun
  | succ n ih =>
    intro c mem
    have first := within cpu (by rw [progression_succ]; exact mem_cons_self)
    cases mem with
    | head => exact first.1
    | tail _ mem =>
      have rest : ∀ c ∈ progression (cpu + stride) n stride, 0 ≤ c ∧ c ≤ intMax := fun c mem =>
        within c (by rw [progression_succ]; exact mem_cons_of_mem cpu mem)
      split at mem
      · cases n with
        | zero => cases mem
        | succ n =>
          have second := rest (cpu + stride) (by rw [progression_succ]; exact mem_cons_self)
          rw [wrap_eq ⟨by omega, by omega⟩] at mem
          exact ih rest c mem
      · refine ih (fun c mem => within c ?_) c mem
        obtain ⟨i, lt, is⟩ := mem_progression.1 mem
        exact mem_progression.2 ⟨i, Nat.lt_succ_of_lt lt, is⟩

lemma IsSubplace.within {ts : List Token} {q : Subplace} (Q : IsSubplace ts q)
    (within : ∀ cpu ∈ q.read.numbers, 0 ≤ cpu ∧ cpu ≤ intMax) : ∀ cpu ∈ q.read.visits f, 0 ≤ cpu := by
  cases Q with
  | one k => exact fun c mem => (within c mem).1
  | run k c => exact runNumbers_within clamp_inInt within
  | strided k c S => exact stridedNumbers_within within

lemma IsPlace.visitable {ts : List Token} (P : IsPlace ts p) (within : p.Within) : p.read.Visitable f False := by
  induction P with
  | num k => exact ⟨clamp_inInt, .inl (clamp_nonneg (Int.natCast_nonneg k))⟩
  | shift c _ ih | strided c _ _ ih | compl _ ih => exact ih within
  | subplaces L =>
    intro q mem cpu visited
    obtain ⟨q, isIn, rfl⟩ := mem_map.1 mem
    obtain ⟨us, Q⟩ := L.all q isIn
    exact ⟨Q.fits visited, .inl (Q.within (within q isIn) cpu visited)⟩

end Ranges

/-- Every run keeps to the processor numbers of a set and to the room of `g_places`; a run that succeeds has
read a place list with one suffix at most to a place; on such a list, whose places set no more than
`INT_MAX` processors each, it stores the sets that the list gives, or fails if they are too many. -/
theorem placelist_right (full : CpuSet) (text : List Char) : Ends id (St.InRange True) (processPlacelist full text) ∧
    (∀ s, processPlacelist full text = .ok s → ∃ ts l, IsPlaceList ts l ∧ (∀ p ∈ l, p.OneSuffix) ∧
      Spells text ts) ∧
    ∀ ts l, IsPlaceList ts l → (∀ p ∈ l, p.OneSuffix) → Spells text ts →
      ((∀ p ∈ l, p.Within) → Ends id (St.InRange False) (processPlacelist full text)) ∧
      ((∀ p ∈ l, p.Counted (procs full)) → ∃ ls, List.Forall₂ (Place.Gives (procs full)) l ls ∧
        (ls.flatten.length ≤ cpuSetsize → ∃ s, processPlacelist full text = .ok s ∧
          s.places.map procs = ls.flatten) ∧
        (cpuSetsize < ls.flatten.length → ∃ s, processPlacelist full text = .error s)) := by
  have start {neg : Prop} : St.InRange neg ⟨0, 0, [], []⟩ := ⟨nofun, Nat.zero_le _⟩
  refine ⟨start.placelistFrom, fun s is => ?_, fun ts l L ones spells => ?_⟩
  · obtain ⟨ts, l, L, ones, spells, -⟩ := of_placelistFrom is
    exact ⟨ts, l, L, ones, spells⟩
  · rw [processPlacelist_of L ones spells]
    refine ⟨fun within => ?_, fun counted => ?_⟩
    · apply start.storeAll
      intro p mem
      obtain ⟨q, isIn, rfl⟩ := mem_map.1 mem
      obtain ⟨us, P⟩ := L.all q isIn
      exact P.visitable (within q isIn)
    · obtain ⟨ls, G, stored⟩ := storeAll_stores (f := full) (s := ⟨0, 0, [], []⟩) L.all ones counted .fresh
        (Nat.zero_le _)
      refine ⟨ls, G, fun fits => ?_, fun many => ?_⟩
      · exact stored.fits (by rwa [length_nil, Nat.zero_add])
      · exact stored.many (by rwa [length_nil, Nat.zero_add])

section Texts
variable {text : List Char}

lemma spells_readAll {ts : List Token} {n : Nat} (is : readAll token n text = (ts, [])) : Spells text ts := by
  have R := @reads_readAll _ _ token text n
  rw [is] at R
  exact ⟨[], R, rfl⟩

/-- `{0:2:2},1` -/
def twoPlaces : List Char := ['{', '0', ':', '2', ':', '2', '}', ',', '1']

lemma twoPlaces_spells : Spells twoPlaces
    ((.lbrace :: (.num 0 :: .colon :: .num 2 :: .colon :: [.num 2] ++ [.rbrace])) ++ .comma :: [.num 1]) :=
  spells_readAll (n := 9) (by decide +kernel)

lemma twoPlaces_list : IsPlaceList
    ((.lbrace :: (.num 0 :: .colon :: .num 2 :: .colon :: [.num 2] ++ [.rbrace])) ++ .comma :: [.num 1])
    [.subplaces [.strided (0 : Nat) (2 : Nat) (2 : Nat)], .num (1 : Nat)] :=
  .cons (.subplaces (.one (.strided 0 2 (.num 2)))) (.one (.num 1))

/-- A place of two processors, and one of one. -/
theorem placelist_right_two : ∃ ls, List.Forall₂ (Place.Gives (procs 7))
      [.subplaces [.strided (0 : Nat) (2 : Nat) (2 : Nat)], .num (1 : Nat)] ls ∧
    (ls.flatten.length ≤ cpuSetsize → ∃ s, processPlacelist 7 twoPlaces = .ok s ∧
      s.places.map procs = ls.flatten) ∧
    (cpuSetsize < ls.flatten.length → ∃ s, processPlacelist 7 twoPlaces = .error s) := by
  have ones : ∀ p ∈ [Place.subplaces [.strided (0 : Nat) (2 : Nat) (2 : Nat)], .num (1 : Nat)], p.OneSuffix := by
    intro p mem
    simp only [mem_cons, not_mem_nil, or_false] at mem
    obtain rfl | rfl := mem <;> trivial
  refine ((placelist_right 7 twoPlaces).2.2 _ _ twoPlaces_list ones twoPlaces_spells).2 fun p mem => ?_
  simp only [mem_cons, not_mem_nil, or_false] at mem
  obtain rfl | rfl := mem
  · show (List.map _ _).sum ≤ _
    decide +kernel
  · trivial

/-- `0:1:1:1`, a place with two suffixes. -/
def twoSuffixes : List Char := ['0', ':', '1', ':', '1', ':', '1']

/-- `{0:3:2}` -/
def threeStrided : List Char := ['{', '0', ':', '3', ':', '2', '}']

/-- `{0:2:-1}` -/
def belowZero : List Char := ['{', '0', ':', '2', ':', '-', '1', '}']

/-- `{0:2147483647:0,0}` -/
def setsMany : List Char :=
  ['{', '0', ':', '2', '1', '4', '7', '4', '8', '3', '6', '4', '7', ':', '0', ',', '0', '}']

/-- `0:1025:0` -/
def tooMany : List Char := ['0', ':', '1', '0', '2', '5', ':', '0']

lemma exists_error {α : Type} {x : Except St α} (fails : x.toBool = false) : ∃ s, x = .error s := by
  cases x with
  | error s => exact ⟨s, rfl⟩
  | ok => cases fails

lemma available_zero : Available (procs 1) 0 := ⟨0, mem_procs.2 (by decide +kernel), rfl⟩

lemma hits_still {f : CpuSet} {n : Nat} {cpu : Int} (A : Available (procs f) cpu) :
    hitsOf (procs f) (stridedNumbers f 0 n cpu) = n := by
  have bounds := A.bounds
  have fits : InInt cpu := ⟨by omega, by omega⟩
  induction n with
  | zero => rfl
  | succ n ih =>
    have still : wrap (cpu + 0) = cpu := by rw [Int.add_zero, wrap_eq fits]
    rw [stridedNumbers, if_pos ((usable_iff fits).2 A), still, hitsOf_cons A, ih]

lemma wraps_empty {c : Nat} (small : clamp c = c) (wraps : wrap (wrap c + 1) < 0)
    (spells : Spells text (.lbrace :: ((.num 0 :: .colon :: .num c :: .colon :: [.num 0]) ++ .comma :: [.num 0] ++
      [.rbrace]))) :
    ∃ s, processPlacelist 1 text = .ok s ∧ s.places = [] := by
  have list : IsPlaceList _ [.subplaces [.strided (0 : Nat) c (0 : Nat), .one (0 : Nat)]] :=
    .one (.subplaces (.cons (.strided 0 c (.num 0)) (.one (.one 0))))
  have ones : ∀ p ∈ [Place.subplaces [.strided (0 : Nat) c (0 : Nat), .one (0 : Nat)]], p.OneSuffix := by
    intro p mem
    cases mem_singleton.1 mem
    trivial
  have zero : InInt 0 := ⟨by decide, by decide⟩
  have read : Subplace.read (.strided (0 : Nat) c (0 : Nat)) = .strided 0 c 0 := by
    rw [Subplace.read, small]
    rfl
  have done : ([Place.subplaces [.strided (0 : Nat) c (0 : Nat), .one (0 : Nat)]].map Place.read) =
      [.subplaces [.strided 0 c 0, .one 0]] := by
    rw [map_singleton, Place.read, map_cons, read]
    rfl
  obtain ⟨-, size, places⟩ := visit_spec (f := 1) (L := stridedNumbers 1 0 c 0) (s := ⟨0, 0, [], []⟩)
    (fun cpu mem => stridedNumbers_fits zero mem) zero
  obtain ⟨-, size', places'⟩ := visit_spec (f := 1) (L := [0])
    (s := visit 1 (stridedNumbers 1 0 c 0) ⟨0, 0, [], []⟩)
    (fun cpu mem => by rw [mem_singleton.1 mem]; exact zero) (by rw [size]; exact wrap_inInt)
  have first : Subplace.exec 1 (.strided 0 c 0) ⟨0, 0, [], []⟩ =
    visit 1 (stridedNumbers 1 0 c 0) ⟨0, 0, [], []⟩ := markStrided_eq
  rw [hits_still available_zero, Int.zero_add] at size
  rw [size, hitsOf_cons available_zero] at size'
  have second x : Subplace.exec 1 (.one 0) x = visit 1 [0] x := by rw [Subplace.exec_eq, Subplace.visits]
  have plainly : (Place.subplaces [.strided 0 c 0, .one 0]).store 1 ⟨0, 0, [], []⟩ =
      ((Place.subplaces [.strided 0 c 0, .one 0]).exec 1 ⟨0, 0, [], []⟩).keep := Place.store_plain trivial
  rw [processPlacelist_of list ones spells, done, storeAll, plainly, Place.exec, execAll, foldl_cons, first,
    foldl_cons, second, foldl_nil]
  have negative : ¬ 0 < (visit 1 [0] (visit 1 (stridedNumbers 1 0 c 0) ⟨0, 0, [], []⟩)).size := by
    rw [size']
    exact Int.not_lt.2 (Int.le_of_lt wraps)
  have stored := places'.trans places
  generalize visit 1 [0] (visit 1 (stridedNumbers 1 0 c 0) ⟨0, 0, [], []⟩) = s at negative stored ⊢
  refine ⟨s.clear, ?_, stored⟩
  rw [St.keep, if_neg negative]
  rfl

lemma still_fails {c : Nat} (small : clamp c = c) (many : cpuSetsize < c)
    (spells : Spells text ([.num 0] ++ .colon :: .num c :: .colon :: [.num 0])) :
      ∃ s, processPlacelist 1 text = .error s := by
  have list : IsPlaceList _ [.shift (.num (0 : Nat)) c (0 : Nat)] := .one (.strided c (.num 0) (.num 0))
  have ones : ∀ p ∈ [Place.shift (.num (0 : Nat)) c (0 : Nat)], p.OneSuffix := by
    intro p mem
    cases mem_singleton.1 mem
    trivial
  have goesOn : (shifted (procs 1) 0)^[cpuSetsize] (availableOf (procs 1) [0]) ≠ ∅ := by
    have still : shifted (procs 1) 0 (availableOf (procs 1) [0]) = availableOf (procs 1) [0] := by
      ext k
      unfold shifted
      simp only [Finset.mem_filter, mem_availableOf, mem_singleton]
      constructor
      · rintro ⟨inAvail, j, ⟨-, isZero⟩, eq⟩
        exact ⟨inAvail, by omega⟩
      · rintro ⟨inAvail, isZero⟩
        exact ⟨inAvail, k, ⟨inAvail, isZero⟩, by omega⟩
    rw [Function.iterate_fixed still]
    intro none
    exact availableOf_eq_empty.1 none 0 mem_cons_self available_zero
  have long := iterates_long (n := c) shifted_empty goesOn many
  obtain ⟨S, D, H, places⟩ := (IsPlace.num 0).holds (f := 1) (s := ⟨0, 0, [], []⟩) trivial trivial .fresh
  cases D
  have stored : Stores _ (nonempty ((List.range c).map fun i => (shifted (procs 1) 0)^[i] (availableOf (procs 1) [0])))
      (shifts 1 0 c _) := H.shifts (by rw [places]; exact Nat.zero_le _) (by decide) (by decide)
  obtain ⟨s, fails⟩ := stored.many (Nat.lt_of_lt_of_le long (Nat.le_add_left _ _))
  refine ⟨s, ?_⟩
  have read : Place.read (.shift (.num (0 : Nat)) c (0 : Nat)) = .shift (Place.read (.num (0 : Nat))) c 0 := by
    show Place.shift _ (clamp c) (clamp (0 : Nat)) = _
    rw [small]
    rfl
  rw [processPlacelist_of list ones spells, map_singleton, storeAll, read, Place.store, Int.toNat_natCast, fails]
  rfl

/-- Texts of the grammar that are refused, that store other places than theirs, and that test a negative number. -/
theorem placelist_not_right :
    (∃ ts p, IsPlaceList ts [p] ∧ Spells twoSuffixes ts ∧ ∃ s, processPlacelist 1 twoSuffixes = .error s) ∧
    (∃ ts p, IsPlaceList ts [.subplaces [p]] ∧ Spells threeStrided ts ∧ availableOf (procs 4) p.numbers = {2} ∧
      ∃ s, processPlacelist 4 threeStrided = .ok s ∧ s.places = []) ∧
    (∃ s, processPlacelist 1 belowZero = .ok s ∧ .test (-1) ∈ s.log) ∧
    (∃ ts p q, IsPlaceList ts [.subplaces [p, q]] ∧ Spells setsMany ts ∧ availableOf (procs 1) p.numbers = {0} ∧
      ∃ s, processPlacelist 1 setsMany = .ok s ∧ s.places = []) ∧
    (∃ ts p, IsPlaceList ts [p] ∧ Spells tooMany ts ∧ ∃ s, processPlacelist 1 tooMany = .error s) := by
  refine ⟨⟨_, _, .one (.shift 1 (.strided 1 (.num 0) (.num 1))), ?_, ?_⟩, ?_, ?_, ?_, ?_⟩
  · exact spells_readAll (n := 7) (by decide +kernel)
  · exact exists_error (by decide +kernel)
  · refine ⟨_, .strided (0 : Nat) (3 : Nat) (2 : Nat),
      .one (.subplaces (.one (.strided 0 3 (.num 2)))), ?_, ?_, ?_⟩
    · exact spells_readAll (n := 7) (by decide +kernel)
    · decide +kernel
    · exact ⟨⟨0, 0, [], [.test 0, .test 0, .test 0]⟩, by decide +kernel, rfl⟩
  · exact ⟨⟨0, 0, [1], [.test (-1), .set 0, .test 0]⟩, by decide +kernel, by decide⟩
  · refine ⟨_, .strided (0 : Nat) (2147483647 : Nat) (0 : Nat), .one (0 : Nat),
      .one (.subplaces (.cons (.strided 0 2147483647 (.num 0)) (.one (.one 0)))), ?_, ?_, ?_⟩
    · exact spells_readAll (n := 11) (by decide +kernel)
    · ext k
      rw [mem_availableOf, Finset.mem_singleton]
      constructor
      · rintro ⟨-, mem⟩
        obtain ⟨i, -, eq⟩ := mem_progression.1 mem
        omega
      · rintro rfl
        exact ⟨mem_procs.2 (by decide +kernel), mem_progression.2 ⟨0, by decide, rfl⟩⟩
    · exact wraps_empty (c := 2147483647) (by decide) (by decide) (spells_readAll (n := 11) (by decide +kernel))
  · refine ⟨_, _, .one (.strided 1025 (.num 0) (.num 0)), ?_, ?_⟩
    · exact spells_readAll (n := 5) (by decide +kernel)
    · exact still_fails (c := 1025) (by decide) (by decide) (spells_readAll (n := 5) (by decide +kernel))

end Texts

end Kupl.Places
