import Kupl.Dag.Deps

/-!
# Dependencies when memory runs out

`src/mt/kupl_dag.cpp` with the outcomes of its allocations: `kupl_addr_entry_create` may fail after its
null pointer has been put in the hash, and `kupl_slist_insert_front` may leave a list as it is without
a word. Entries are entered one after another, and an error takes back none of them.

C++ → Lean naming: `kupl_node_process_dep` → `processPtr`; the loop of `kupl_dag_add_task` →
`processPtrs`; `kupl_dag_add_task` → `dagAddTaskPtr`; `KUPL_MAX_LOCAL_DEP_COUNT` → `maxLocalDepCount`.

A hash has null pointers (`PtrHash`). Where a null pointer is dereferenced there is no behaviour.
-/

namespace Kupl.Dag

variable {τ : Type*} [DecidableEq τ]

/-- C++ `kupl_dag_hash_t`, with the null pointers of entries that could not be allocated. -/
abbrev PtrHash (τ : Type*) := List (Addr × Option (AddrEntry τ))

/-- The nodes and the hash. -/
structure PtrDag (τ : Type*) where
  gnode : τ → Gnode τ
  hash : PtrHash τ

/-- The allocations of one dependency: the entry of its address, its place among the readers, and the
places in the lists of those that it follows. -/
structure DepAllocs where
  entry : Bool
  reader : Bool
  link : Nat → Bool

/-- How many dependencies have room on the stack. -/
def maxLocalDepCount : Nat := 128

/-- What `kupl_gnode_precede` does under the lock of `precede`: the number of successors is raised also
when the list stays as it is. -/
def linkInsert (link : Bool) (g : τ → Gnode τ) (precede succeed : τ) : τ → Gnode τ :=
  if link then gnodeInsert g precede succeed
  else Function.update g precede { g precede with nSuccessors := (g precede).nSuccessors + 1 }

/-- An edge, or its count alone (C++ `kupl_gnode_precede`). -/
def precedeLink (link : Bool) (finished : τ → Bool) (g : τ → Gnode τ) (precede : Option τ)
    (succeed : τ) : (τ → Gnode τ) × Nat :=
  match precede with
  | none => (g, 0)
  | some p =>
    if finished p then (g, 0)
    else (gnodeCount (linkInsert link g p succeed) succeed, 1)

/-- One `kupl_gnode_precede` after another. -/
def precedeLinks (finished : τ → Bool) (g : τ → Gnode τ) (succeed : τ) :
    (Nat → Bool) → List (Option τ) → (τ → Gnode τ) × Nat
  | _, [] => (g, 0)
  | link, p :: ps =>
    let r := precedeLink (link 0) finished g p succeed
    let rs := precedeLinks finished r.1 succeed (fun k => link (k + 1)) ps
    (rs.1, r.2 + rs.2)

/-- The pointer of an address is overwritten. -/
def setPtr (hash : PtrHash τ) (a : Addr) (v : Option (AddrEntry τ)) : PtrHash τ :=
  hash.map fun kv => if kv.1 = a then (a, v) else kv

/-- The entry of an address, made where it is missing, and put in the hash before anybody looks whether
it is null (the first part of C++ `kupl_node_process_dep`). -/
def findPtr (entry : Bool) (finished : τ → Bool) (hash : PtrHash τ) (a : Addr) :
    Option (PtrHash τ × Option (AddrEntry τ)) :=
  match hash.lookup a with
  | some e => some (hash, e)
  | none =>
    let new : Option (AddrEntry τ) := if entry then some ⟨none, []⟩ else none
    if a = depAllAddr then some ((a, new) :: hash, new)
    else
      match hash.lookup depAllAddr with
      | none => some ((a, new) :: hash, new)
      | some none => none
      | some (some all) =>
        match all.out with
        | none => some ((a, new) :: hash, new)
        | some o =>
          if finished o then
            some ((a, new) :: setPtr hash depAllAddr (some { all with out := none }), new)
          else if entry then some ((a, some ⟨some o, []⟩) :: hash, some ⟨some o, []⟩)
          else none

/-- The tasks that a writer of every address follows. -/
def allTargets (hash : PtrHash τ) : List (Option τ) :=
  hash.flatMap fun kv => (kv.2.map AddrEntry.targets).getD []

/-- Enters one dependency; the inner `none` is `KUPL_ERROR` (C++ `kupl_node_process_dep`). -/
def processPtr (al : DepAllocs) (finished : τ → Bool) (D : PtrDag τ) (node : τ) (d : TaskDep) :
    Option (PtrDag τ × Option Nat) :=
  (findPtr al.entry finished D.hash d.baseAddr).bind fun h =>
    match h.2 with
    | none => some (⟨D.gnode, h.1⟩, none)
    | some e =>
      match d.type with
      | .input =>
        let r := precedeLink (al.link 0) finished D.gnode e.out node
        some (⟨r.1, setPtr h.1 d.baseAddr (some ⟨e.out, if al.reader then node :: e.ins else e.ins⟩)⟩, some r.2)
      | .output | .inout =>
        let r := precedeLinks finished D.gnode node al.link e.targets
        some (⟨r.1, setPtr h.1 d.baseAddr (some ⟨some node, []⟩)⟩, some r.2)
      | .all =>
        if h.1.all fun kv => kv.2.isSome then
          let r := precedeLinks finished D.gnode node al.link (allTargets h.1)
          some (⟨r.1, h.1.map fun kv => (kv.1, some ⟨some node, []⟩)⟩, some r.2)
        else none
      | .other _ => some (⟨D.gnode, h.1⟩, none)

/-- Enters the dependencies in turn, up to the first error. -/
def processPtrs (finished : τ → Bool) (node : τ) :
    (Nat → DepAllocs) → PtrDag τ → List TaskDep → Option (PtrDag τ × Option Nat)
  | _, D, [] => some (D, some 0)
  | al, D, d :: ds =>
    (processPtr (al 0) finished D node d).bind fun r =>
      match r.2 with
      | none => some (r.1, none)
      | some n =>
        (processPtrs finished node (fun i => al (i + 1)) r.1 ds).map fun r' => (r'.1, r'.2.map (n + ·))

/-- Enters the task `node` with its declared dependencies; `list` says whether there is room for more
dependencies than fit on the stack (C++ `kupl_dag_add_task`). -/
def dagAddTaskPtr (list : Bool) (al : Nat → DepAllocs) (finished : τ → Bool) (D : PtrDag τ) (node : τ)
    (junk : Nat → TaskDep) (ds : List TaskDep) : Option (PtrDag τ × AddResult) :=
  if maxLocalDepCount < ds.length ∧ list = false then some (D, .error)
  else
    (processPtrs finished node al D (depListRmDup junk ds)).map fun r =>
      match r.2 with
      | none => (r.1, .error)
      | some n => (r.1, if (r.1.gnode node).nPredecessors + n = -n then .ready else .notReady)

def DepAllocs.good : DepAllocs := ⟨true, true, fun _ => true⟩

/-! ### What a lookup finds -/

section Find
variable {finished : τ → Bool} {hash h : PtrHash τ} {a b : Addr} {v e : Option (AddrEntry τ)} {entry : Bool}

omit [DecidableEq τ] in
lemma lookup_setPtr : (setPtr hash a v).lookup b = if b = a then (hash.lookup b).map fun _ => v else hash.lookup b := by
  induction hash with
  | nil =>
    split
    · rfl
    · rfl
  | cons kv hash ih =>
    show List.lookup b ((if kv.1 = a then (a, v) else kv) :: setPtr hash a v) = _
    rw [List.lookup_cons, List.lookup_cons, ih]
    by_cases isA : kv.1 = a
    · rw [if_pos isA, isA]
      by_cases isB : b = a
      · rw [if_pos isB, if_pos isB, isB, beq_self_eq_true]
        rfl
      · rw [if_neg isB, if_neg isB, beq_eq_false_iff_ne.2 isB]
    · rw [if_neg isA]
      by_cases isB : b = a
      · rw [if_pos isB, if_pos isB, isB, beq_eq_false_iff_ne.2 (Ne.symm isA)]
      · rw [if_neg isB, if_neg isB]

omit [DecidableEq τ] in
lemma setPtr_self (unique : (hash.map Prod.fst).Nodup) (found : hash.lookup a = some v) : setPtr hash a v = hash := by
  induction hash with
  | nil => rfl
  | cons kv hash ih =>
    obtain ⟨apart, unique⟩ := List.nodup_cons.1 unique
    show (if kv.1 = a then (a, v) else kv) :: setPtr hash a v = _
    rw [List.lookup_cons] at found
    by_cases isA : kv.1 = a
    · rw [isA, beq_self_eq_true] at found
      cases found
      have rest : setPtr hash a kv.2 = hash := by
        refine (List.map_congr_left fun x mem => ?_).trans (List.map_id _)
        have ne : x.1 ≠ a := fun isA' => apart (List.mem_map.2 ⟨x, mem, isA'.trans isA.symm⟩)
        exact if_neg ne
      rw [if_pos isA, rest, ← isA]
    · rw [beq_eq_false_iff_ne.2 (Ne.symm isA)] at found
      rw [if_neg isA, ih unique found]

/-- What `findPtr` returns: the entry of the address, or a new one that comes before a hash in which a finished writer
of everything may be forgotten. -/
inductive Finds (finished : τ → Bool) (hash : PtrHash τ) (a : Addr) (h : PtrHash τ) (e : Option (AddrEntry τ)) :
    Prop where
  | old (found : hash.lookup a = some e) (isH : h = hash)
  | new (absent : hash.lookup a = none) (isH : h = (a, e) :: hash)
      (bare : ∀ x, e = some x → x.ins = [] ∧ ∀ o, x.out = some o →
        ∃ all, hash.lookup depAllAddr = some (some all) ∧
        all.out = some o)
  | forgets (absent : hash.lookup a = none) (all : AddrEntry τ) (o : τ)
      (found : hash.lookup depAllAddr = some (some all)) (out : all.out = some o) (done : finished o = true)
      (isH : h = (a, e) :: setPtr hash depAllAddr (some { all with out := none }))
      (bare : ∀ x, e = some x → x = ⟨none, []⟩)

omit [DecidableEq τ] in
lemma findPtr_finds (got : findPtr entry finished hash a = some (h, e)) : Finds finished hash a h e := by
  have empty {x : AddrEntry τ} (isNew : (if entry then some (⟨none, []⟩ : AddrEntry τ) else none) = some x) :
      x = ⟨none, []⟩ := by
    split at isNew
    · cases isNew
      rfl
    · cases isNew
  have plain (absent : hash.lookup a = none)
      (isNew : some ((a, if entry then some (⟨none, []⟩ : AddrEntry τ) else none) :: hash,
        if entry then some (⟨none, []⟩ : AddrEntry τ) else none) = some (h, e)) : Finds finished hash a h e := by
    cases isNew
    refine .new absent rfl fun x isX => ?_
    rw [empty isX]
    exact ⟨rfl, nofun⟩
  unfold findPtr at got
  cases isE : hash.lookup a with
  | some e' =>
    rw [isE] at got
    cases got
    exact .old isE rfl
  | none =>
    rw [isE] at got
    dsimp only at got
    split at got
    · exact plain isE got
    cases isAll : hash.lookup depAllAddr with
    | none =>
      rw [isAll] at got
      exact plain isE got
    | some pointer =>
      rw [isAll] at got
      cases pointer with
      | none => cases got
      | some all =>
        dsimp only at got
        cases isOut : all.out with
        | none =>
          rw [isOut] at got
          exact plain isE got
        | some o =>
          rw [isOut] at got
          dsimp only at got
          split at got
          · rename_i done
            cases got
            exact .forgets isE all o isAll isOut done rfl fun x isX => empty isX
          split at got
          · cases got
            refine .new isE rfl fun x isX => ?_
            cases isX
            refine ⟨rfl, fun o' isO => ⟨all, isAll, ?_⟩⟩
            rw [isOut]
            exact isO
          · cases got

omit [DecidableEq τ] in
lemma Finds.lookup_ne (F : Finds finished hash a h e) (here : hash.lookup b ≠ none) : h.lookup b ≠ none := by
  have cons {hash' : PtrHash τ} (here : hash'.lookup b ≠ none) : ((a, e) :: hash').lookup b ≠ none := by
    rw [List.lookup_cons]
    split
    · nofun
    · exact here
  cases F with
  | old found isH =>
    rw [isH]
    exact here
  | new absent isH bare =>
    rw [isH]
    exact cons here
  | forgets absent all o found out done isH bare =>
    rw [isH]
    apply cons
    rw [lookup_setPtr]
    split
    · rwa [Ne, Option.map_eq_none_iff]
    · exact here

omit [DecidableEq τ] in
lemma Finds.self (F : Finds finished hash a h e) : h.lookup a = some e := by
  cases F with
  | old found isH =>
    rw [isH]
    exact found
  | new absent isH bare | forgets absent all o found out done isH bare =>
    rw [isH]
    exact List.lookup_cons_self

end Find

end Kupl.Dag
