import Kupl.Places.Runs
import Kupl.Places.Sets

/-!
# Places for cores, sockets and NUMA nodes (`kupl_places.cpp`)

| source | here |
|---|---|
| `kupl_host_info_t` | `HostInfo` |
| `kupl_set_cores_places` | `setCoresPlaces` |
| the body of the loops over the processors | `Builder.take` |
| `kupl_set_sockets_places`, `kupl_set_numa_places` | `setSocketsPlaces`, `setNumaPlaces` |
| `kupl_match_string` | `matchString` |
| `kupl_process_places_affinity` | `readLimit`, `typesFrom`, `processPlacesAffinity` |

The places of the sockets and of the NUMA nodes are built in one loop over the processors, which closes a place where
the next processor is in another domain. What it stores is `Runs.firstBlocks`.
-/

namespace Kupl.Places
open Runs List

/-- The processors of the host, as `kupl_host_info_init` accepts them (C++ `kupl_host_info_t`). -/
structure HostInfo where
  puConf : Nat
  availSet : CpuSet
  some : 0 < puConf
  fits : puConf ≤ cpuSetsize

def HostInfo.avail (host : HostInfo) (i : Nat) : Bool := isset i host.availSet

/-- (C++ `avail_pu_cnt`). -/
def HostInfo.availPuCnt (host : HostInfo) : Nat := (List.range host.puConf).countP host.avail

/-- What the loops build: the places so far, the domain of the current one (`-1` before the first processor) and its
processors. -/
structure Builder where
  places : List CpuSet
  currentId : Int
  cpuset : CpuSet

def Builder.take (b : Builder) (id : Int) (i : Nat) : Builder :=
  let b := if b.currentId = -1 then { b with currentId := id } else b
  let b := if id ≠ b.currentId then { places := b.places ++ [b.cpuset], currentId := id, cpuset := 0 } else b
  { b with cpuset := setCpu i b.cpuset }

inductive PlaceType
  | cores
  | sockets
  | numaDomains

/-- (C++ `place_type`). -/
def PlaceType.name : PlaceType → List Char
  | .cores => ['c', 'o', 'r', 'e', 's']
  | .sockets => ['s', 'o', 'c', 'k', 'e', 't', 's']
  | .numaDomains => ['n', 'u', 'm', 'a', '_', 'd', 'o', 'm', 'a', 'i', 'n', 's']

/-- A text with a word before it, in any case (C++ `kupl_match_string`). -/
def matchString : List Char → List Char → Option (List Char)
  | [], buf => some buf
  | _ :: _, [] => none
  | ct :: token, cb :: buf => if ct.toUpper ≠ cb.toUpper then none else matchString token buf

/-- The number of places behind the name of a kind. -/
def readLimit (scan : List Char) : Option (Int × List Char) :=
  if peek scan = '(' then
    let scan := scan.tail
    let placeNum := strToInt scan
    let scan := skipDigits scan
    if placeNum = 0 ∨ peek scan ≠ ')' then none else some (placeNum, scan)
  else if scan ≠ [] then none
  else some (cpuSetsize, scan)

section Build
variable (host : HostInfo)

/-- The loop of `kupl_set_cores_places`. -/
def coresFrom (coreNum : Int) : Nat → Nat → List CpuSet → List CpuSet
  | 0, _, places => places
  | left + 1, i, places =>
    if places.length < coreNum then
      coresFrom coreNum left (i + 1) (if host.avail i then places ++ [setCpu i 0] else places)
    else places

/-- A place for each processor (C++ `kupl_set_cores_places`). -/
def setCoresPlaces (placeNum : Int) : List CpuSet :=
  let coreNum : Int := host.availPuCnt
  let coreNum := if coreNum > placeNum then placeNum else coreNum
  coresFrom host coreNum host.puConf 0 []

/-- The loop over the processors, with the domains as far as they are known. -/
def domainsFrom (placeNum : Int) (idOf : Nat → Option Int) : Nat → Nat → Builder → Option (List CpuSet)
  | 0, _, b => some (b.places ++ [b.cpuset])
  | left + 1, i, b =>
    if b.places.length ≥ placeNum then some b.places
    else if host.avail i then (idOf i).bind fun id => domainsFrom placeNum idOf left (i + 1) (b.take id i)
    else domainsFrom placeNum idOf left (i + 1) b

/-- A place for each socket, unless the socket of a processor is not known (C++ `kupl_set_sockets_places`). -/
def setSocketsPlaces (socketId : Nat → Int) (placeNum : Int) : Option (List CpuSet) :=
  domainsFrom host placeNum (fun i => if socketId i = -1 then none else some (socketId i)) host.puConf 0 ⟨[], -1, 0⟩

/-- A place for each NUMA node (C++ `kupl_set_numa_places`). -/
def setNumaPlaces (numaNodeOfCpu : Nat → Int) (placeNum : Int) : Option (List CpuSet) :=
  domainsFrom host placeNum (fun i => some (numaNodeOfCpu i)) host.puConf 0 ⟨[], -1, 0⟩

def PlaceType.set (socketId numaNodeOfCpu : Nat → Int) (placeNum : Int) : PlaceType → Option (List CpuSet)
  | .cores => some (setCoresPlaces host placeNum)
  | .sockets => setSocketsPlaces host socketId placeNum
  | .numaDomains => setNumaPlaces host numaNodeOfCpu placeNum

/-- The loop over the kinds of places: the places of the last kind named, if there is one, or an error. -/
def typesFrom (socketId numaNodeOfCpu : Nat → Int) :
    List PlaceType → List Char → Option (List CpuSet) → Option (Option (List CpuSet))
  | [], _, found => some found
  | t :: types, scan, found =>
    match matchString t.name scan with
    | none => typesFrom socketId numaNodeOfCpu types scan found
    | some next =>
      (readLimit next).bind fun (placeNum, scan) =>
        (t.set host socketId numaNodeOfCpu placeNum).bind fun places =>
          typesFrom socketId numaNodeOfCpu types scan (some places)

/-- The places that the text says, or those of the cores (C++ `kupl_process_places_affinity`). -/
def processPlacesAffinity (full : CpuSet) (socketId numaNodeOfCpu : Nat → Int) : Option (List Char) → List CpuSet
  | none => setCoresPlaces host cpuSetsize
  | some placelist =>
    match typesFrom host socketId numaNodeOfCpu [.cores, .sockets, .numaDomains] placelist none with
    | none => setCoresPlaces host cpuSetsize
    | some (some places) => places
    | some none =>
      match processPlacelist full placelist with
      | .error _ => setCoresPlaces host cpuSetsize
      | .ok s => s.places

end Build

/-! ### The loop over the processors -/

variable {host : HostInfo} {dom : Nat → Nat} {i n : Nat} {b : Builder}

structure Builds (host : HostInfo) (dom : Nat → Nat) (n i : Nat) (b : Builder) : Prop where
  places : b.places.map procs = (List.range (turns host.avail dom i)).map (block host.avail dom host.puConf)
  cpuset : ∀ j, j ∈ procs b.cpuset ↔ j < i ∧ host.avail j ∧
    turns host.avail dom (j + 1) = turns host.avail dom i
  currentId : b.currentId = match prev host.avail dom i with
    | none => -1
    | some d => d
  few : ∀ j < i, turns host.avail dom j < n

lemma Builds.start : Builds host dom n 0 ⟨[], -1, 0⟩ := by
  refine ⟨rfl, fun j => ?_, rfl, fun j lt => absurd lt (Nat.not_lt_zero j)⟩
  rw [procs_zero]
  exact ⟨fun mem => absurd mem (Finset.notMem_empty j), fun is => absurd is.1 (Nat.not_lt_zero j)⟩

section
variable (B : Builds host dom n i b)
include B

lemma Builds.take_eq (is : host.avail i) : b.take (dom i) i =
    if Changes host.avail dom i then ⟨b.places ++ [b.cpuset], dom i, setCpu i 0⟩
    else ⟨b.places, dom i, setCpu i b.cpuset⟩ := by
  rw [Builder.take]
  cases last : prev host.avail dom i with
  | none =>
    have current : b.currentId = -1 := by rw [B.currentId, last]
    rw [if_pos current]
    rw [if_neg fun ne => ne rfl, if_neg fun changes => changes.2.1 last]
  | some d =>
    have current : b.currentId = d := by rw [B.currentId, last]
    have known : b.currentId ≠ -1 := by omega
    rw [if_neg known]
    by_cases same : d = dom i
    · rw [if_neg fun ne => ne (current.trans (congrArg Nat.cast same)).symm,
        if_neg fun changes => changes.2.2 (last.trans (congrArg some same)), current, same]
    · rw [if_pos fun eq => same (Int.ofNat_inj.1 (current.symm.trans eq.symm)), if_pos]
      refine ⟨is, ?_, ?_⟩
      · rw [last]
        exact Option.some_ne_none d
      · rw [last]
        exact fun eq => same (Option.some.inj eq)

lemma Builds.take (lt : i < host.puConf) (few : turns host.avail dom i < n)
    (is : host.avail i) : Builds host dom n (i + 1) (b.take (dom i) i) := by
  have fits : i < cpuSetsize := Nat.lt_of_lt_of_le lt host.fits
  have before : ∀ j < i, turns host.avail dom (j + 1) ≤ turns host.avail dom i := fun j lt => turns_mono lt
  have current : (dom i : Int) = match prev host.avail dom (i + 1) with
      | none => -1
      | some d => d := by rw [prev_take is]
  have fewer : ∀ j < i + 1, turns host.avail dom j < n := by
    intro j lt
    obtain lt | rfl := Nat.lt_or_eq_of_le (Nat.le_of_lt_succ lt)
    · exact B.few j lt
    · exact few
  rw [B.take_eq is]
  split
  · rename_i changes
    have turn := turns_turn changes
    have closed : procs b.cpuset = block host.avail dom host.puConf (turns host.avail dom i) := by
      ext j
      rw [B.cpuset, mem_block]
      refine ⟨fun is => ⟨is.1.trans lt, is.2⟩, fun is => ⟨?_, is.2⟩⟩
      have same := is.2.2
      refine Nat.lt_of_not_le fun le => ?_
      have later : turns host.avail dom (i + 1) ≤ turns host.avail dom (j + 1) := turns_mono (Nat.succ_le_succ le)
      omega
    refine ⟨?_, fun j => ?_, current, fewer⟩
    · rw [turn, range_succ, map_append, map_append, B.places, map_singleton, map_singleton,
        closed]
    · rw [procs_setCpu fits, procs_zero, Finset.empty_union, Finset.mem_singleton]
      constructor
      · rintro rfl
        exact ⟨Nat.lt_succ_self j, is, rfl⟩
      · rintro ⟨ltJ, -, same⟩
        refine Nat.le_antisymm (Nat.le_of_lt_succ ltJ) (Nat.le_of_not_lt fun lt => ?_)
        have := before j lt
        omega
  · rename_i not
    rw [← turns_stay not] at before
    refine ⟨?_, fun j => ?_, current, fewer⟩
    · rw [turns_stay not]
      exact B.places
    · rw [procs_setCpu fits, Finset.mem_union, Finset.mem_singleton, B.cpuset, turns_stay not]
      constructor
      · rintro (⟨ltJ, isJ⟩ | rfl)
        · exact ⟨Nat.lt_succ_of_lt ltJ, isJ⟩
        · exact ⟨Nat.lt_succ_self j, is, turns_stay not⟩
      · rintro ⟨ltJ, isJ⟩
        obtain ltJ | rfl := Nat.lt_or_eq_of_le (Nat.le_of_lt_succ ltJ)
        · exact .inl ⟨ltJ, isJ⟩
        · exact .inr rfl

lemma Builds.skip (few : turns host.avail dom i < n) (not : ¬ host.avail i) : Builds host dom n (i + 1) b := by
  have stay : turns host.avail dom (i + 1) = turns host.avail dom i := turns_stay fun changes => not changes.1
  refine ⟨?_, fun j => ?_, ?_, fun j lt => ?_⟩
  · rw [stay]
    exact B.places
  · rw [B.cpuset, stay]
    refine and_congr_left fun isJ => ⟨Nat.lt_succ_of_lt, fun ltJ => ?_⟩
    refine Nat.lt_of_le_of_ne (Nat.le_of_lt_succ ltJ) fun eq => not ?_
    exact eq ▸ isJ.1
  · rw [prev_skip not]
    exact B.currentId
  · obtain lt | rfl := Nat.lt_or_eq_of_le (Nat.le_of_lt_succ lt)
    · exact B.few j lt
    · exact few

lemma Builds.rest {left : Nat} (isLeft : i + left = host.puConf)
    (le : turns host.avail dom i ≤ n) : ∃ places, domainsFrom host n (fun i => some (dom i)) left i b =
      some places ∧
      places.map procs = firstBlocks host.avail dom host.puConf n := by
  induction left generalizing i b with
  | zero =>
    obtain rfl : i = host.puConf := isLeft
    refine ⟨_, rfl, ?_⟩
    have few := B.few (host.puConf - 1) (Nat.sub_lt host.some Nat.one_pos)
    have last : procs b.cpuset = block host.avail dom host.puConf (turns host.avail dom host.puConf) := by
      ext j
      rw [B.cpuset, mem_block]
    rw [firstBlocks, if_neg (Nat.not_le_of_lt few), range_succ, map_append, map_append, B.places,
      map_singleton, map_singleton, last]
  | succ left ih =>
    have number : b.places.length = turns host.avail dom i := by
      have length := congrArg List.length B.places
      rwa [length_map, length_map, length_range] at length
    have step : turns host.avail dom (i + 1) ≤ turns host.avail dom i + 1 := turns_succ_le
    rw [domainsFrom]
    split
    · have same : turns host.avail dom i = n := by omega
      refine ⟨_, rfl, ?_⟩
      have reached : n ≤ turns host.avail dom (host.puConf - 1) := by
        rw [← same]
        exact turns_mono (by omega)
      rw [firstBlocks, if_pos reached, B.places, same]
    · have few : turns host.avail dom i < n := by omega
      split
      · rename_i is
        exact ih (B.take (by omega) few is) (by omega) (by omega)
      · rename_i not
        exact ih (B.skip few not) (by omega) (by omega)

end

/-! ### The text -/

def PlaceType.limited (t : PlaceType) (digits : List Char) : List Char := t.name ++ '(' :: (digits ++ [')'])

variable {digits token rest : List Char}

lemma matchString_append : matchString token (token ++ rest) = some rest := by
  induction token with
  | nil => rfl
  | cons c token ih =>
    rw [cons_append, matchString, if_neg fun ne => ne rfl]
    exact ih

lemma strToIntFrom_stop {result : Int} (isDigits : ∀ c ∈ digits, c.isDigit) :
    strToIntFrom result (digits ++ [')']) = strToIntFrom result digits := by
  induction digits generalizing result with
  | nil => rfl
  | cons c digits ih =>
    rw [cons_append, strToIntFrom, strToIntFrom, ih fun c mem => isDigits c (mem_cons_of_mem _ mem)]

lemma readLimit_limited (isDigits : ∀ c ∈ digits, c.isDigit) (isLimit : strToInt digits = n) (pos : 0 < n) :
    readLimit ('(' :: (digits ++ [')'])) = some ((n : Int), [')']) := by
  have value : strToInt (digits ++ [')']) = n := (strToIntFrom_stop isDigits).trans isLimit
  have skipped : skipDigits (digits ++ [')']) = [')'] := by
    rw [skipDigits, dropWhile_append_of_pos isDigits]
    rfl
  have opened : peek ('(' :: (digits ++ [')'])) = '(' := rfl
  rw [readLimit, if_pos opened]
  dsimp only [tail_cons]
  rw [value, skipped, if_neg]
  rintro (zero | ne)
  · omega
  · exact ne rfl

variable {full : CpuSet} {socket node : Nat → Nat}

lemma sockets_blocks (isDigits : ∀ c ∈ digits, c.isDigit) (isLimit : strToInt digits = n) (pos : 0 < n) :
    (processPlacesAffinity host full (fun i => socket i) (fun i => node i) (PlaceType.sockets.limited digits)).map procs
      = firstBlocks host.avail socket host.puConf n := by
  have start : Builds host socket n 0 ⟨[], -1, 0⟩ := Builds.start
  obtain ⟨places, built, isFirst⟩ := start.rest (Nat.zero_add _) (Nat.zero_le n)
  have isPlaces : setSocketsPlaces host (fun i => socket i) n = some places := by
    have known : (fun i => if (socket i : Int) = -1 then none else some (socket i : Int))
        = fun i => some (socket i : Int) := funext fun i => if_neg (by omega)
    rw [setSocketsPlaces, known]
    exact built
  have cores : matchString PlaceType.cores.name (PlaceType.sockets.limited digits) = none := rfl
  have named : matchString PlaceType.sockets.name (PlaceType.sockets.limited digits)
      = some ('(' :: (digits ++ [')'])) := matchString_append
  have nodes : matchString PlaceType.numaDomains.name [')'] = none := rfl
  rw [processPlacesAffinity, typesFrom, cores]
  rw [typesFrom, named]
  dsimp only
  rw [readLimit_limited isDigits isLimit pos, Option.bind_some, PlaceType.set, isPlaces, Option.bind_some, typesFrom,
    nodes]
  exact isFirst

lemma nodes_blocks (isDigits : ∀ c ∈ digits, c.isDigit) (isLimit : strToInt digits = n) (pos : 0 < n) :
    (processPlacesAffinity host full (fun i => socket i) (fun i => node i)
      (PlaceType.numaDomains.limited digits)).map procs = firstBlocks host.avail node host.puConf n := by
  have start : Builds host node n 0 ⟨[], -1, 0⟩ := Builds.start
  obtain ⟨places, built, isFirst⟩ := start.rest (Nat.zero_add _) (Nat.zero_le n)
  have isPlaces : setNumaPlaces host (fun i => node i) n = some places := built
  have cores : matchString PlaceType.cores.name (PlaceType.numaDomains.limited digits) = none := rfl
  have sockets : matchString PlaceType.sockets.name (PlaceType.numaDomains.limited digits) = none := rfl
  have named : matchString PlaceType.numaDomains.name (PlaceType.numaDomains.limited digits)
      = some ('(' :: (digits ++ [')'])) := matchString_append
  rw [processPlacesAffinity, typesFrom, cores]
  rw [typesFrom, sockets]
  rw [typesFrom, named]
  dsimp only
  rw [readLimit_limited isDigits isLimit pos, Option.bind_some, PlaceType.set, isPlaces, Option.bind_some]
  exact isFirst

/-- The processors come domain after domain: some processor is available, the last one of the host does not end as
many runs as the limit, and no domain is taken up again before as many end. -/
structure Sorted (host : HostInfo) (dom : Nat → Nat) (n : Nat) : Prop where
  some : ∃ i < host.puConf, host.avail i
  last : ¬ (turns host.avail dom (host.puConf - 1) < n ∧ n ≤ turns host.avail dom host.puConf)
  kept : Kept host.avail dom host.puConf n

lemma blocks_exact_iff (pos : 0 < n) : Exact host.avail dom host.puConf n (firstBlocks host.avail dom host.puConf n) ↔
    Sorted host dom n := by
  rw [firstBlocks_exact_iff pos]
  exact ⟨fun is => ⟨is.1, is.2.1, is.2.2⟩, fun S => ⟨S.some, S.last, S.kept⟩⟩

/-- The places for a number of sockets or of NUMA nodes are domains each, as many as there are up to the number, exactly
where the processors come domain after domain. -/
theorem affinity_exact_iff (host : HostInfo) (full : CpuSet) (socket node : Nat → Nat) (digits : List Char) (n : Nat)
    (isDigits : ∀ c ∈ digits, c.isDigit) (isLimit : strToInt digits = n) (pos : 0 < n) :
    (Exact host.avail socket host.puConf n ((processPlacesAffinity host full (fun i => socket i) (fun i => node i)
      (PlaceType.sockets.limited digits)).map procs) ↔ Sorted host socket n) ∧
    (Exact host.avail node host.puConf n ((processPlacesAffinity host full (fun i => socket i) (fun i => node i)
      (PlaceType.numaDomains.limited digits)).map procs) ↔ Sorted host node n) := by
  rw [sockets_blocks isDigits isLimit pos, nodes_blocks isDigits isLimit pos]
  exact ⟨blocks_exact_iff pos, blocks_exact_iff pos⟩

def twoProcessors : HostInfo where
  puConf := 2
  availSet := 3
  some := by decide
  fits := by decide

/-- Each of the two processors is a domain, and two places are asked for. -/
theorem affinity_exact_iff_two :
    Exact twoProcessors.avail id 2 2 ((processPlacesAffinity twoProcessors 3 (fun i => id i) (fun i => id i)
      (PlaceType.sockets.limited ['2'])).map procs) ∧
    Exact twoProcessors.avail id 2 2 ((processPlacesAffinity twoProcessors 3 (fun i => id i) (fun i => id i)
      (PlaceType.numaDomains.limited ['2'])).map procs) := by
  have sorted : Sorted twoProcessors id 2 := by
    refine ⟨⟨0, Nat.two_pos, by decide +kernel⟩, by decide +kernel, fun i j k ij jk lt => ?_⟩
    have lt : k < 2 := lt
    omega
  have exact := affinity_exact_iff twoProcessors 3 id id ['2'] 2 (forall_mem_singleton.2 (by decide))
    (by decide +kernel) (by decide)
  exact ⟨exact.1.2 sorted, exact.2.2 sorted⟩

/-- Each of the two processors is a domain, and one place is asked for. -/
theorem affinity_exact_not :
    ¬ ∀ (host : HostInfo) (full : CpuSet) (socket node : Nat → Nat) (digits : List Char) (n : Nat),
      (∀ c ∈ digits, c.isDigit) → strToInt digits = n → 0 < n →
      Exact host.avail socket host.puConf n ((processPlacesAffinity host full (fun i => socket i) (fun i => node i)
        (PlaceType.sockets.limited digits)).map procs) := by
  intro exact
  have digits : ∀ c ∈ ['1'], c.isDigit := forall_mem_singleton.2 (by decide)
  have number := (exact twoProcessors 3 id id ['1'] 1 digits (by decide +kernel) (by decide)).number
  rw [sockets_blocks digits (by decide +kernel) Nat.one_pos] at number
  have two : (firstBlocks twoProcessors.avail id 2 1).length = 2 := by decide +kernel
  have few := Nat.min_le_left 1 (labels twoProcessors.avail id 2).card
  have more := two.symm.trans number
  omega

end Kupl.Places
