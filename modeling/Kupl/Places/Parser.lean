import Kupl.Places.Scan
import Mathlib.Data.BitVec

/-!
# The place list parser

The model of `kupl_process_subplace_list`, `kupl_process_place` and `kupl_process_placelist`
(`kupl_places.cpp`). The state holds what the parsers write: `current_mask`, `set_size`, the places
stored so far, and a record of the processor numbers given to `CPU_ISSET` and `CPU_SET`. A run ends
with `KUPL_OK` or `KUPL_ERROR` in some state. The loops over the text have a bound on their turns, which
the length of the text is enough for.

A run that succeeds has read a derivation of the grammar, and a text with a derivation is processed as
`storeAll` of its places.
-/

namespace Kupl.Places
open Text List

/-- `CPU_SETSIZE` -/
def cpuSetsize : Nat := 1024

/-- `cpu_set_t` -/
abbrev CpuSet : Type := BitVec cpuSetsize

/-- A processor number as the macros take it, a `size_t`. -/
def cpuIndex (cpu : Int) : Nat := (cpu % 2 ^ 64).toNat

/-- `CPU_ISSET`; no number outside of the set is in it. -/
def isset (cpu : Int) (set : CpuSet) : Bool := set.getLsbD (cpuIndex cpu)

/-- `CPU_SET`; a number outside of the set is ignored. -/
def setCpu (cpu : Int) (set : CpuSet) : CpuSet := set ||| BitVec.twoPow cpuSetsize (cpuIndex cpu)

/-- `CPU_COUNT` -/
def cpuCount (set : CpuSet) : Nat := (List.range cpuSetsize).countP set.getLsbD

/-- The result of an operation on `int`. -/
def wrap (n : Int) : Int := n.bmod (2 ^ 32)

/-- A processor number is given to a macro. -/
inductive Access
  | test (cpu : Int)
  | set (cpu : Int)
  deriving DecidableEq

/-- The state of the parsers. -/
structure St where
  /-- `current_mask` -/
  mask : CpuSet
  /-- `set_size` -/
  size : Int
  /-- `g_places`, up to `g_num_places` -/
  places : List CpuSet
  log : List Access
  deriving DecidableEq

variable (full : CpuSet)

/-! ## The sets -/

/-- `CPU_ISSET(cpu, &full_mask)` -/
def St.test (s : St) (cpu : Int) : St := { s with log := .test cpu :: s.log }

/-- `CPU_SET(cpu, current_mask); (*set_size)++` -/
def St.set (s : St) (cpu : Int) : St :=
  { s with mask := setCpu cpu s.mask, size := wrap (s.size + 1), log := .set cpu :: s.log }

/-- `CPU_ZERO(&current_mask); set_size = 0` -/
def St.clear (s : St) : St := { s with mask := 0, size := 0 }

/-- `(cpu < CPU_SETSIZE) && CPU_ISSET(cpu, &full_mask)` -/
def usable (cpu : Int) : Bool := decide (cpu < cpuSetsize) && isset cpu full

/-- A usable processor is put into the set, another one is skipped with a warning. -/
def markCpu (cpu : Int) (s : St) : St :=
  if cpuSetsize ≤ cpu then s
  else if isset cpu full then (s.test cpu).set cpu else s.test cpu

/-- The loop of a subplace `start : count`. -/
def markRun : Nat → Int → St → St
  | 0, _, s => s
  | n + 1, start, s => markRun n (wrap (start + 1)) (markCpu full start s)

/-- The loop of a subplace `start : count : stride`: the start moves on where it is usable. -/
def markStrided (stride : Int) : Nat → Int → St → St
  | 0, _, s => s
  | n + 1, start, s =>
    markStrided stride n (if usable full start then wrap (start + stride) else start) (markCpu full start s)

def Subplace.exec : Subplace → St → St
  | .one start, s => markCpu full start s
  | .run start count, s => markRun full count.toNat start s
  | .strided start count stride, s => markStrided full stride count.toNat start s

/-- `CPU_XOR`, `CPU_AND` with the full mask, and `CPU_COUNT`. -/
def St.complement (s : St) : St :=
  let mask := (s.mask ^^^ full) &&& full
  { s with mask := mask, size := cpuCount mask }

/-- One processor of the place before is moved by the stride. -/
def shiftCpu (pre : CpuSet) (stride : Int) (s : St) (j : Nat) : St :=
  let s := s.test j
  if isset j pre then
    let cpu := wrap (j + stride)
    if cpuSetsize ≤ cpu ∨ cpu < 0 then s else markCpu full cpu s
  else s

def St.store (s : St) : St := { s with places := s.places ++ [s.mask] }

/-- The places of `place : count : stride`. -/
def shifts (stride : Int) : Nat → St → Except St St
  | 0, s => .ok s
  | n + 1, s =>
    if s.size = 0 then .ok s
    else if cpuSetsize ≤ s.places.length then .error s
    else shifts stride n ((List.range cpuSetsize).foldl (shiftCpu full s.mask stride) s.store.clear)

/-- The place without a suffix. -/
def St.keep (s : St) : Except St St :=
  if 0 < s.size then
    if cpuSetsize ≤ s.places.length then .error s else .ok s.store.clear
  else .ok s.clear

/-! ## The parsers -/

/-- One subplace, up to the `}` or `,` behind it (C++ `kupl_process_subplace_list`, one turn). -/
def readSubplace (scan : List Char) : Option (Subplace × List Char) :=
  match readNum scan with
  | none => none
  | some (start, scan) =>
    let scan := skipWs scan
    if start < 0 then none
    else if peek scan = '}' ∨ peek scan = ',' then some (.one start, scan)
    else if peek scan ≠ ':' then none
    else match readNum scan.tail with
      | none => none
      | some (count, scan) =>
        let scan := skipWs scan
        if count < 0 then none
        else if peek scan = '}' ∨ peek scan = ',' then some (.run start count, scan)
        else if peek scan ≠ ':' then none
        else match readSigned scan.tail with
          | none => none
          | some (stride, scan) =>
            let scan := skipWs scan
            if peek scan = '}' ∨ peek scan = ',' then some (.strided start count stride, scan) else none

/-- C++ `kupl_process_subplace_list` -/
def processSubplaceList : Nat → List Char → St → Except St (List Char × St)
  | 0, _, s => .error s
  | turns + 1, scan, s =>
    match readSubplace scan with
    | none => .error s
    | some (p, scan) =>
      if peek scan = '}' then .ok (scan, p.exec full s)
      else processSubplaceList turns scan.tail (p.exec full s)

/-- C++ `kupl_process_place` -/
def processPlace : Nat → List Char → St → Except St (List Char × St)
  | 0, _, s => .error s
  | turns + 1, scan, s =>
    let scan := skipWs scan
    if peek scan = '{' then
      match processSubplaceList full scan.length scan.tail s with
      | .error s => .error s
      | .ok (scan, s) => if peek scan ≠ '}' then .error s else .ok (scan.tail, s)
    else if peek scan = '!' then
      match processPlace turns scan.tail s with
      | .error s => .error s
      | .ok (scan, s) => .ok (scan, s.complement full)
    else match readNum scan with
      | none => .error s
      | some (num, scan) => if num < 0 then .error s else .ok (scan, markCpu full num s)

/-- The stride of a place, `1` if there is none. -/
def readStride (scan : List Char) : Option (Int × List Char) :=
  let scan := skipWs scan
  if scan = [] ∨ peek scan = ',' then some (1, scan)
  else if peek scan ≠ ':' then none
  else readSigned scan.tail

/-- One place of the list with its suffix (C++ `kupl_process_placelist`, one turn). -/
def processItem (scan : List Char) (s : St) : Except St (List Char × St) :=
  match processPlace full (scan.length + 1) scan s with
  | .error s => .error s
  | .ok (scan, s) =>
    let scan := skipWs scan
    if scan = [] ∨ peek scan = ',' then s.keep.map fun s => (scan, s)
    else if peek scan ≠ ':' then .error s
    else match readNum scan.tail with
      | none => .error s
      | some (count, scan) =>
        if count < 0 then .error s
        else match readStride scan with
          | none => .error s
          | some (stride, scan) => (shifts full stride count.toNat s).map fun s => (scan, s.clear)

/-- The loop of `kupl_process_placelist`. -/
def placelistFrom : Nat → List Char → St → Except St St
  | 0, _, s => .error s
  | turns + 1, scan, s =>
    match processItem full scan s with
    | .error s => .error s
    | .ok (scan, s) =>
      let scan := skipWs scan
      if scan = [] then .ok s
      else if peek scan = ',' then placelistFrom turns scan.tail s
      else .error s

/-- C++ `kupl_process_placelist` -/
def processPlacelist (placelist : List Char) : Except St St :=
  placelistFrom full (placelist.length + 1) placelist ⟨0, 0, [], []⟩

/-! ## What is read -/

def Subplace.read : Subplace → Subplace
  | .one start => .one (clamp start)
  | .run start count => .run (clamp start) (clamp count)
  | .strided start count stride => .strided (clamp start) (clamp count) (clamp stride)

def Place.read : Place → Place
  | .num n => .num (clamp n)
  | .shift p count stride => .shift p.read (clamp count) (clamp stride)
  | .subplaces l => .subplaces (l.map Subplace.read)
  | .compl p => .compl p.read

section Reading

variable {f : CpuSet} {s m r : List Char} {st st' : St} {p : Subplace} {ts us : List Token} {n : Nat}

lemma peek_cons {c : Char} (is : skipWs s = c :: r) : peek (skipWs s) = c ∧ (skipWs s).tail = r := by
  rw [is]
  exact ⟨rfl, rfl⟩

lemma readSubplace_iff : readSubplace s = some (p, r) ↔
    ∃ ts q m, IsSubplace ts q ∧ Reads token s ts m ∧ r = skipWs m ∧ (peek r = '}' ∨ peek r = ',') ∧
      p = q.read := by
  constructor
  · intro is
    unfold readSubplace at is
    dsimp only at is
    split at is
    · cases is
    rename_i start m isStart
    obtain ⟨n, first, rfl⟩ := readNum_iff.1 isStart
    split at is
    · cases is
    split at is
    · rename_i follows
      cases is
      exact ⟨_, _, m, .one n, .one first, rfl, follows, rfl⟩
    split at is
    · cases is
    rename_i isColon
    have colon := (peek_mark (c := ':') rfl).1 (Decidable.of_not_not isColon)
    split at is
    · cases is
    rename_i count m' isCount
    obtain ⟨c, second, rfl⟩ := readNum_iff.1 isCount
    split at is
    · cases is
    split at is
    · rename_i follows
      cases is
      exact ⟨_, _, m', .run n c, .cons first (.cons colon (.one second)), rfl, follows, rfl⟩
    split at is
    · cases is
    rename_i isColon'
    have colon' := (peek_mark (c := ':') rfl).1 (Decidable.of_not_not isColon')
    split at is
    · cases is
    rename_i stride m'' third
    obtain ⟨us, w, S, R, rfl⟩ := readSigned_iff.1 third
    split at is
    · rename_i follows
      cases is
      exact ⟨_, _, m'', .strided n c S, .cons first (.cons colon (.cons second (.cons colon' R))), rfl,
        follows, rfl⟩
    · cases is
  · intro ⟨ts, q, m, isQ, R, eq, follows, eq'⟩
    subst eq eq'
    have number {m m' : List Char} {k : Nat} (first : token m = some (.num k, m')) : readNum m = some (clamp k, m') :=
      readNum_iff.2 ⟨k, first, rfl⟩
    have notNeg (k : Nat) : ¬ clamp k < 0 := Int.not_lt.2 (clamp_nonneg (Int.natCast_nonneg k))
    unfold readSubplace
    cases isQ with
    | one n =>
      obtain ⟨m', first, R⟩ := Reads.cons_iff.1 R
      cases R.nil_eq
      simp only [number first, notNeg, if_false, if_pos follows]
      rfl
    | run n c =>
      obtain ⟨m₁, first, R⟩ := Reads.cons_iff.1 R
      obtain ⟨m₂, colon, R⟩ := Reads.cons_iff.1 R
      obtain ⟨m₃, second, R⟩ := Reads.cons_iff.1 R
      cases R.nil_eq
      obtain ⟨isColon, rest⟩ := peek_cons ((token_mark (c := ':') rfl).1 colon)
      simp only [number first, notNeg, isColon, rest, number second, if_pos follows, if_false]
      rfl
    | strided n c S =>
      obtain ⟨m₁, first, R⟩ := Reads.cons_iff.1 R
      obtain ⟨m₂, colon, R⟩ := Reads.cons_iff.1 R
      obtain ⟨m₃, second, R⟩ := Reads.cons_iff.1 R
      obtain ⟨m₄, colon', R⟩ := Reads.cons_iff.1 R
      obtain ⟨isColon, rest⟩ := peek_cons ((token_mark (c := ':') rfl).1 colon)
      obtain ⟨isColon', rest'⟩ := peek_cons ((token_mark (c := ':') rfl).1 colon')
      have third := readSigned_iff.2 ⟨_, _, S, R, rfl⟩
      simp only [number first, notNeg, isColon, rest, number second, isColon', rest', third, if_pos follows, if_false]
      rfl

/-- What is done for the subplaces of a list. -/
def execAll (full : CpuSet) (l : List Subplace) (st : St) : St := l.foldl (fun st p => p.exec full st) st

lemma of_processSubplaceList (is : processSubplaceList f n s st = .ok (r, st')) :
    ∃ ts l m, IsSubplaceList ts l ∧ Reads token s ts m ∧ r = skipWs m ∧ peek r = '}' ∧
      st' = execAll f (l.map Subplace.read) st := by
  induction n generalizing s st with
  | zero => cases is
  | succ n ih =>
    unfold processSubplaceList at is
    split at is
    · cases is
    rename_i p m first
    obtain ⟨ts, q, m, isQ, R, rfl, follows, rfl⟩ := readSubplace_iff.1 first
    split at is
    · rename_i closes
      cases is
      exact ⟨ts, [q], m, .one isQ, R, rfl, closes, rfl⟩
    · rename_i goesOn
      have comma := (peek_mark (c := ',') rfl).1 (follows.resolve_left goesOn)
      obtain ⟨us, l, m', L, R', eq, closes, done⟩ := ih is
      exact ⟨_, q :: l, m', .cons isQ L, R.append (.cons comma R'), eq, closes, done⟩

lemma processSubplaceList_of {l : List Subplace} (st : St) (L : IsSubplaceList ts l) (R : Reads token s ts m)
    (closes : peek (skipWs m) = '}') (turns : l.length ≤ n) :
    processSubplaceList f n s st = .ok (skipWs m, execAll f (l.map Subplace.read) st) := by
  induction L generalizing s st n with
  | one isQ =>
    cases n with
    | zero => cases turns
    | succ n =>
      unfold processSubplaceList
      rw [readSubplace_iff.2 ⟨_, _, _, isQ, R, rfl, .inl closes, rfl⟩]
      exact if_pos closes
  | cons isQ _ ih =>
    cases n with
    | zero => cases turns
    | succ n =>
      obtain ⟨m', R, R'⟩ := R.split
      obtain ⟨m'', comma, R'⟩ := Reads.cons_iff.1 R'
      obtain ⟨isComma, rest⟩ := peek_cons ((token_mark (c := ',') rfl).1 comma)
      unfold processSubplaceList
      rw [readSubplace_iff.2 ⟨_, _, _, isQ, R, rfl, .inr isComma, rfl⟩]
      simp only [isComma, rest]
      exact ih _ R' (Nat.le_of_succ_le_succ turns)

/-- What is done for a place, without its suffix. -/
def Place.exec (full : CpuSet) : Place → St → St
  | .num n, st => markCpu full n st
  | .shift p _ _, st => p.exec full st
  | .subplaces l, st => execAll full l st
  | .compl p, st => (p.exec full st).complement full

def Place.store (full : CpuSet) : Place → St → Except St St
  | .shift p count stride, st => (shifts full stride count.toNat (p.exec full st)).map St.clear
  | p, st => (p.exec full st).keep

/-- What is done for the places of a list. -/
def storeAll (full : CpuSet) : List Place → St → Except St St
  | [], st => .ok st
  | p :: l, st => (p.store full st).bind (storeAll full l)

lemma of_processPlace (is : processPlace f n s st = .ok (r, st')) :
    ∃ ts p, IsPlace ts p ∧ p.Plain ∧ Reads token s ts r ∧ st' = p.read.exec f st := by
  induction n generalizing s r st' with
  | zero => cases is
  | succ n ih =>
    unfold processPlace at is
    dsimp only at is
    split at is
    · rename_i opens
      have brace := (peek_mark (c := '{') rfl).1 opens
      split at is
      · cases is
      rename_i m st₁ list
      obtain ⟨ts, l, m', L, R, rfl, closes, rfl⟩ := of_processSubplaceList list
      have brace' := (peek_mark (c := '}') rfl).1 closes
      rw [if_neg (Decidable.not_not.2 closes)] at is
      cases is
      exact ⟨_, .subplaces l, .subplaces L, trivial, .cons brace (R.append (.one brace')), rfl⟩
    split at is
    · rename_i isBang
      have bang := (peek_mark (c := '!') rfl).1 isBang
      split at is
      · cases is
      rename_i m st₁ inner
      cases is
      obtain ⟨ts, p, P, plain, R, rfl⟩ := ih inner
      exact ⟨_, .compl p, .compl P, plain, .cons bang R, rfl⟩
    split at is
    · cases is
    rename_i num m isNum
    obtain ⟨k, first, rfl⟩ := readNum_iff.1 isNum
    split at is
    · cases is
    cases is
    rw [token_skipWs] at first
    exact ⟨_, .num k, .num k, trivial, .one first, rfl⟩

lemma IsSubplaceList.length_le {l : List Subplace} (L : IsSubplaceList ts l) : l.length ≤ ts.length := by
  have pos {ts q} (isQ : IsSubplace ts q) : 0 < ts.length := by
    cases isQ <;> exact Nat.zero_lt_succ _
  induction L with
  | one isQ => exact pos isQ
  | cons isQ _ ih =>
    rw [length_append, length_cons, length_cons]
    omega

lemma processPlace_of {p : Place} (st : St) (P : IsPlace ts p) (plain : p.Plain) (R : Reads token s ts r)
    (turns : ts.length ≤ n) :
    processPlace f n s st = .ok (r, p.read.exec f st) := by
  induction P generalizing s n r with
  | num k =>
    cases n with
    | zero => cases turns
    | succ n =>
      obtain ⟨m, first, R⟩ := Reads.cons_iff.1 R
      cases R.nil_eq
      rw [← token_skipWs] at first
      have reads := readNum_iff.2 ⟨k, first, rfl⟩
      have digit : (peek (skipWs s)).isDigit := by
        unfold readNum at reads
        rw [skipWs_skipWs] at reads
        dsimp only at reads
        split at reads
        · assumption
        · cases reads
      have noBrace : peek (skipWs s) ≠ '{' := fun is => by rw [is] at digit; cases digit
      have noBang : peek (skipWs s) ≠ '!' := fun is => by rw [is] at digit; cases digit
      have notNeg : ¬ clamp k < 0 := Int.not_lt.2 (clamp_nonneg (Int.natCast_nonneg k))
      simp only [processPlace, noBrace, noBang, reads, notNeg, if_false]
      rfl
  | shift | strided => exact plain.elim
  | subplaces L =>
    cases n with
    | zero => cases turns
    | succ n =>
      obtain ⟨m, first, R⟩ := Reads.cons_iff.1 R
      obtain ⟨m', R, R'⟩ := R.split
      obtain ⟨m'', last, R'⟩ := Reads.cons_iff.1 R'
      cases R'.nil_eq
      have skipped := (token_mark (c := '{') rfl).1 first
      obtain ⟨opens, rest⟩ := peek_cons skipped
      obtain ⟨closes, rest'⟩ := peek_cons ((token_mark (c := '}') rfl).1 last)
      have fits := R.length_le token_shrinks
      have few := L.length_le
      have list := processSubplaceList_of (f := f) st L R closes (n := (skipWs s).length)
        (by rw [skipped, length_cons]; omega)
      simp only [processPlace, opens, rest, list, closes, rest', ne_eq, not_true, if_true, if_false]
      rfl
  | compl _ ih =>
    cases n with
    | zero => cases turns
    | succ n =>
      obtain ⟨m, first, R⟩ := Reads.cons_iff.1 R
      obtain ⟨isBang, rest⟩ := peek_cons ((token_mark (c := '!') rfl).1 first)
      have noBrace : peek (skipWs s) ≠ '{' := by
        rw [isBang]
        decide
      unfold processPlace
      rw [if_neg noBrace, if_pos isBang, rest, ih plain R (Nat.le_of_succ_le_succ turns)]
      rfl

lemma Place.plain_read {p : Place} : p.read.Plain ↔ p.Plain := by
  induction p with
  | num | shift | subplaces => exact Iff.rfl
  | compl p ih => exact ih

lemma Place.store_plain {p : Place} (plain : p.Plain) : p.store f st = (p.exec f st).keep := by
  cases p with
  | shift => exact plain.elim
  | num | subplaces | compl => rfl

lemma Place.oneSuffix_plain {p : Place} (plain : p.Plain) : p.OneSuffix := by
  cases p with
  | shift => exact plain.elim
  | num | subplaces => trivial
  | compl => exact plain

lemma of_processItem (is : processItem f s st = .ok (r, st')) :
    ∃ ts p m, IsPlace ts p ∧ p.OneSuffix ∧ Reads token s ts m ∧ skipWs r = skipWs m ∧
      p.read.store f st = .ok st' := by
  unfold processItem at is
  dsimp only at is
  split at is
  · cases is
  rename_i m st₁ place
  obtain ⟨ts, p, P, plain, R, rfl⟩ := of_processPlace place
  split at is
  · refine ⟨ts, p, m, P, Place.oneSuffix_plain plain, R, ?_⟩
    rw [Place.store_plain (Place.plain_read.2 plain)]
    cases kept : (p.read.exec f st).keep with
    | error st => rw [kept] at is; cases is
    | ok st =>
      rw [kept] at is
      cases is
      exact ⟨skipWs_skipWs, rfl⟩
  split at is
  · cases is
  rename_i isColon
  have colon := (peek_mark (c := ':') rfl).1 (Decidable.of_not_not isColon)
  split at is
  · cases is
  rename_i count m' isCount
  obtain ⟨c, second, rfl⟩ := readNum_iff.1 isCount
  split at is
  · cases is
  split at is
  · cases is
  rename_i stride m'' isStride
  unfold readStride at isStride
  dsimp only at isStride
  cases done : shifts f stride (clamp c).toNat (p.read.exec f st) with
  | error st => rw [done] at is; cases is
  | ok st₂ =>
    rw [done] at is
    cases is
    split at isStride
    · cases isStride
      refine ⟨_, .shift p c 1, m', .shift c P, plain, R.append (.cons colon (.one second)), skipWs_skipWs, ?_⟩
      exact congrArg (Except.map St.clear) done
    split at isStride
    · cases isStride
    rename_i isColon'
    have colon' := (peek_mark (c := ':') rfl).1 (Decidable.of_not_not isColon')
    obtain ⟨us, w, S, R', rfl⟩ := readSigned_iff.1 isStride
    refine ⟨_, .shift p c w, r, .strided c P S, plain,
      R.append (.cons colon (.cons second (.cons colon' R'))), rfl, ?_⟩
    exact congrArg (Except.map St.clear) done

lemma processItem_of {p : Place} (st : St) (P : IsPlace ts p) (one : p.OneSuffix) (R : Reads token s ts m)
    (follows : skipWs m = [] ∨ peek (skipWs m) = ',') :
    ∃ r, skipWs r = skipWs m ∧ processItem f s st = (p.read.store f st).map fun st => (r, st) := by
  have suffix {us : List Token} {q : Place} {k : Nat} {m₁ m₂ m₃ : List Char} (Q : IsPlace us q) (plain : q.Plain)
      (R : Reads token s us m₁) (colon : token m₁ = some (.colon, m₂)) (second : token m₂ = some (.num k, m₃))
      {d : Int} {r : List Char} (stride : readStride m₃ = some (d, r)) : processItem f s st =
        (shifts f d (clamp k).toNat (q.read.exec f st)).map fun st => (r, st.clear) := by
    have fits := R.length_le token_shrinks
    have place := processPlace_of (f := f) st Q plain R (n := s.length + 1) (by omega)
    obtain ⟨isColon, rest⟩ := peek_cons ((token_mark (c := ':') rfl).1 colon)
    have notEnd : skipWs m₁ ≠ [] := fun is => by rw [is] at isColon; cases isColon
    have notNeg : ¬ clamp k < 0 := Int.not_lt.2 (clamp_nonneg (Int.natCast_nonneg k))
    simp only [processItem, place, isColon, rest, notEnd, readNum_iff.2 ⟨k, second, rfl⟩, notNeg, stride,
      ne_eq, not_true,
      false_or, if_false]
    rfl
  have mapped {x : Except St St} {r : List Char} : (x.map fun st => (r, st.clear)) =
    (x.map St.clear).map fun st => (r, st) := by
    cases x <;> rfl
  have bare (plain : p.Plain) : processItem f s st = (p.read.store f st).map fun st => (skipWs m, st) := by
    have fits := R.length_le token_shrinks
    have place := processPlace_of (f := f) st P plain R (n := s.length + 1) (by omega)
    rw [Place.store_plain (Place.plain_read.2 plain)]
    simp only [processItem, place, if_pos follows]
  cases P with
  | num | subplaces => exact ⟨_, skipWs_skipWs, bare trivial⟩
  | compl => exact ⟨_, skipWs_skipWs, bare one⟩
  | shift k Q =>
    obtain ⟨m₁, R, R'⟩ := R.split
    obtain ⟨m₂, colon, R'⟩ := Reads.cons_iff.1 R'
    obtain ⟨m₃, second, R'⟩ := Reads.cons_iff.1 R'
    cases R'.nil_eq
    refine ⟨skipWs m, skipWs_skipWs, ?_⟩
    rw [suffix Q one R colon second (if_pos follows), mapped]
    rfl
  | strided k Q S =>
    obtain ⟨m₁, R, R'⟩ := R.split
    obtain ⟨m₂, colon, R'⟩ := Reads.cons_iff.1 R'
    obtain ⟨m₃, second, R'⟩ := Reads.cons_iff.1 R'
    obtain ⟨m₄, colon', R'⟩ := Reads.cons_iff.1 R'
    obtain ⟨isColon, rest⟩ := peek_cons ((token_mark (c := ':') rfl).1 colon')
    have notEnd : skipWs m₃ ≠ [] := fun is => by rw [is] at isColon; cases isColon
    have stride : readStride m₃ = readSigned m₄ := by
      simp only [readStride, notEnd, isColon, rest, ne_eq, not_true, false_or, if_false]
      rfl
    refine ⟨m, rfl, ?_⟩
    rw [suffix Q one R colon second (stride.trans (readSigned_iff.2 ⟨_, _, S, R', rfl⟩)), mapped]
    rfl

lemma of_placelistFrom (is : placelistFrom f n s st = .ok st') :
    ∃ ts l, IsPlaceList ts l ∧ (∀ p ∈ l, p.OneSuffix) ∧ Spells s ts ∧
      storeAll f (l.map Place.read) st = .ok st' := by
  induction n generalizing s st with
  | zero => cases is
  | succ n ih =>
    unfold placelistFrom at is
    dsimp only at is
    split at is
    · cases is
    rename_i r st₁ item
    obtain ⟨ts, p, m, P, one, R, same, stored⟩ := of_processItem item
    split at is
    · rename_i ends
      cases is
      refine ⟨ts, [p], .one P, fun q mem => ?_, ⟨m, R, same.symm.trans ends⟩, ?_⟩
      · cases mem_singleton.1 mem
        exact one
      · rw [map_singleton, storeAll, stored]
        rfl
    split at is
    · rename_i isComma
      rw [same] at isComma is
      have comma := (peek_mark (c := ',') rfl).1 isComma
      obtain ⟨us, l, L, ones, ⟨r', R', ends⟩, done⟩ := ih is
      refine ⟨_, p :: l, .cons P L, fun q mem => ?_, ⟨r', R.append (.cons comma R'), ends⟩, ?_⟩
      · cases mem with
        | head => exact one
        | tail _ mem => exact ones q mem
      · rw [map_cons, storeAll, stored]
        exact done
    · cases is

variable {l : List Place}

lemma placelistFrom_of (L : IsPlaceList ts l) (ones : ∀ p ∈ l, p.OneSuffix) (spells : Spells s ts)
    (turns : l.length ≤ n) : placelistFrom f n s st = storeAll f (l.map Place.read) st := by
  induction L generalizing s st n with
  | @one ts p P =>
    cases n with
    | zero => cases turns
    | succ n =>
      obtain ⟨m, R, ends⟩ := spells
      obtain ⟨r, same, item⟩ := processItem_of (f := f) st P (ones p (mem_singleton.2 rfl)) R (.inl ends)
      rw [placelistFrom, item, map_singleton, storeAll]
      cases p.read.store f st with
      | error st => rfl
      | ok st => exact if_pos (same.trans ends)
  | @cons ts us p l P L ih =>
    cases n with
    | zero => cases turns
    | succ n =>
      obtain ⟨r', R, ends⟩ := spells
      obtain ⟨m, R, R'⟩ := R.split
      obtain ⟨m', comma, R'⟩ := Reads.cons_iff.1 R'
      obtain ⟨isComma, rest⟩ := peek_cons ((token_mark (c := ',') rfl).1 comma)
      obtain ⟨r, same, item⟩ := processItem_of (f := f) st P (ones p mem_cons_self) R (.inr isComma)
      have notEnd : skipWs m ≠ [] := fun is => by rw [is] at isComma; cases isComma
      rw [placelistFrom, item, map_cons, storeAll]
      cases p.read.store f st with
      | error st => rfl
      | ok st =>
        have goesOn := @ih _ st _ (fun q mem => ones q (mem_cons_of_mem p mem)) ⟨r', R', ends⟩
          (Nat.le_of_succ_le_succ turns)
        simp only [Except.map, same, notEnd, isComma, rest, if_false, if_true]
        exact goesOn

lemma IsPlaceList.length_le (L : IsPlaceList ts l) : l.length ≤ ts.length := by
  have pos {ts p} (P : IsPlace ts p) : 0 < ts.length := by
    cases P with
    | shift | strided => exact length_pos_of_ne_nil (append_ne_nil_of_right_ne_nil _ (cons_ne_nil _ _))
    | _ => exact Nat.zero_lt_succ _
  induction L with
  | one P => exact pos P
  | cons P _ ih =>
    rw [length_append, length_cons, length_cons]
    omega

lemma processPlacelist_of (L : IsPlaceList ts l) (ones : ∀ p ∈ l, p.OneSuffix) (spells : Spells s ts) :
    processPlacelist f s = storeAll f (l.map Place.read) ⟨0, 0, [], []⟩ := by
  apply placelistFrom_of L ones spells
  obtain ⟨r, R, -⟩ := spells
  have fits := R.length_le token_shrinks
  have few := L.length_le
  omega

end Reading

end Kupl.Places
