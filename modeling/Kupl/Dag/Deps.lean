import Kupl.Dag.Gnode

/-!
# The dependencies of a task

`src/mt/kupl_dag.cpp`: the declared dependencies of a task are cleaned of repetitions
(`dep_list_rm_dup`) and entered one after another into the hash of the graph, which holds for every
address the last writer and the readers after it (`kupl_node_process_dep`, `kupl_dag_add_task`).

C++ → Lean naming: `kupl_task_dep_t` → `TaskDep`; `KUPL_TASK_DEP_ALL_ADDR` → `depAllAddr`;
`kupl_addr_entry_t` → `AddrEntry`; `kupl_dag_hash_t` → `DagHash`; `dep_list_rm_dup` → `depListRmDup`;
`node_process_dep_out` → `nodeProcessDepOut`; `kupl_node_process_dep` → `nodeProcessDep`;
`kupl_dag_add_task` → `dagAddTask`.

The hash is a list of pairs, an order in which the `unordered_map` may be walked. Nothing here
depends on it but the order of the successor lists.
-/

namespace Kupl.Dag
open List

variable {τ : Type*} [DecidableEq τ]

/-- C++ `kupl_task_dep_type_t`; `other` is any value that is not in the enumeration. -/
inductive DepType where
  | input
  | output
  | inout
  | all
  | other (v : Nat)
  deriving DecidableEq

abbrev Addr := BitVec 64

/-- The address of the dependencies on everything (C++ `KUPL_TASK_DEP_ALL_ADDR`). -/
def depAllAddr : Addr := BitVec.allOnes 64

/-- A dependency (C++ `kupl_task_dep_t`). -/
structure TaskDep where
  baseAddr : Addr
  type : DepType
  deriving DecidableEq

/-- A dependency on everything. -/
def TaskDep.isAll (d : TaskDep) : Bool := d.type = .all || d.baseAddr = depAllAddr

/-- The last writer of an address and the readers after it (C++ `kupl_addr_entry_t`). -/
structure AddrEntry (τ : Type*) where
  out : Option τ
  ins : List τ

/-- C++ `kupl_dag_hash_t`. -/
abbrev DagHash (τ : Type*) := List (Addr × AddrEntry τ)

/-- The nodes and the hash (C++ `kupl_dag_t`). -/
structure DagState (τ : Type*) where
  gnode : τ → Gnode τ
  hash : DagHash τ

/-! ### Repeated addresses -/

/-- The entry kept for the address of `d` becomes a write when its type is another (the inner loop of
C++ `dep_list_rm_dup`); `none` where `found_same` stays false. -/
def mergeSame (d : TaskDep) : List TaskDep → Option (List TaskDep)
  | [] => none
  | e :: es =>
    if e.baseAddr = d.baseAddr then
      if e.type ≠ d.type then some ({ e with type := .output } :: es) else none
    else (mergeSame d es).map (e :: ·)

/-- The loop of `dep_list_rm_dup`: the entries kept, and whether a dependency on everything has
replaced them. `hash` is the union of the addresses seen. -/
def rmDupLoop (hash : Addr) (kept : List TaskDep) : List TaskDep → List TaskDep × Bool
  | [] => (kept, false)
  | d :: ds =>
    if d.isAll then ([⟨depAllAddr, .all⟩], true)
    else if hash &&& d.baseAddr ≠ d.baseAddr then
      rmDupLoop (hash ||| d.baseAddr) (kept ++ [d]) ds
    else
      match mergeSame d kept with
      | some kept' => rmDupLoop hash kept' ds
      | none => rmDupLoop hash (kept ++ [d]) ds

/-- The dependencies that `kupl_dag_add_task` walks (C++ `dep_list_rm_dup`). A merge keeps fewer
entries and leaves `dep_cnt` as it was: `junk` is what the entries behind the kept ones hold. -/
def depListRmDup (junk : Nat → TaskDep) (ds : List TaskDep) : List TaskDep :=
  match rmDupLoop 0 [] ds with
  | (kept, true) => kept
  | (kept, false) => kept ++ (List.range' kept.length (ds.length - kept.length)).map junk

/-! ### The hash -/

def setEntry (hash : DagHash τ) (a : Addr) (e : AddrEntry τ) : DagHash τ :=
  hash.map fun kv => if kv.1 = a then (a, e) else kv

/-- What an address seen for the first time starts with: the last task that depends on everything,
unless that has finished. -/
def seedEntry (finished : τ → Bool) (hash : DagHash τ) (a : Addr) : DagHash τ × AddrEntry τ :=
  if a = depAllAddr then (hash, ⟨none, []⟩)
  else
    match hash.lookup depAllAddr with
    | none => (hash, ⟨none, []⟩)
    | some all =>
      match all.out with
      | none => (hash, ⟨none, []⟩)
      | some o =>
        if finished o then (setEntry hash depAllAddr { all with out := none }, ⟨none, []⟩)
        else (hash, ⟨some o, []⟩)

/-- The entry of an address, made where it is missing. -/
def findEntry (finished : τ → Bool) (hash : DagHash τ) (a : Addr) : DagHash τ × AddrEntry τ :=
  match hash.lookup a with
  | some e => (hash, e)
  | none =>
    let r := seedEntry finished hash a
    ((a, r.2) :: r.1, r.2)

/-- The tasks that a writer follows: the readers, or the last writer where there are none. -/
def AddrEntry.targets (e : AddrEntry τ) : List (Option τ) :=
  if e.ins = [] then [e.out] else e.ins.map some

/-- `node` writes: it follows the readers or the last writer and becomes the last writer
(C++ `node_process_dep_out`). -/
def nodeProcessDepOut (finished : τ → Bool) (g : τ → Gnode τ) (e : AddrEntry τ) (node : τ) :
    (τ → Gnode τ) × AddrEntry τ × Nat :=
  let r := precedeAll finished g node e.targets
  (r.1, ⟨some node, []⟩, r.2)

/-- `node` reads: it joins the readers and follows the last writer (C++ `node_process_dep_in`). -/
def nodeProcessDepIn (finished : τ → Bool) (g : τ → Gnode τ) (e : AddrEntry τ) (node : τ) :
    (τ → Gnode τ) × AddrEntry τ × Nat :=
  let r := gnodePrecede finished g e.out node
  (r.1, ⟨e.out, node :: e.ins⟩, r.2)

/-- `node` writes every address of the hash. -/
def nodeProcessDepAll (finished : τ → Bool) (g : τ → Gnode τ) (node : τ) :
    DagHash τ → (τ → Gnode τ) × DagHash τ × Nat
  | [] => (g, [], 0)
  | (a, e) :: hash =>
    let r := nodeProcessDepOut finished g e node
    let rs := nodeProcessDepAll finished r.1 node hash
    (rs.1, (a, r.2.1) :: rs.2.1, r.2.2 + rs.2.2)

/-- Enters one dependency of `node` and returns the number of edges added; `none` is `KUPL_ERROR`
(C++ `kupl_node_process_dep`). -/
def nodeProcessDep (finished : τ → Bool) (D : DagState τ) (node : τ) (d : TaskDep) : DagState τ × Option Nat :=
  let h := findEntry finished D.hash d.baseAddr
  match d.type with
  | .input =>
    let r := nodeProcessDepIn finished D.gnode h.2 node
    (⟨r.1, setEntry h.1 d.baseAddr r.2.1⟩, some r.2.2)
  | .output | .inout =>
    let r := nodeProcessDepOut finished D.gnode h.2 node
    (⟨r.1, setEntry h.1 d.baseAddr r.2.1⟩, some r.2.2)
  | .all =>
    let r := nodeProcessDepAll finished D.gnode node h.1
    (⟨r.1, r.2.1⟩, some r.2.2)
  | .other _ => (⟨D.gnode, h.1⟩, none)

/-- Enters the dependencies in turn, up to the first error. -/
def nodeProcessDeps (finished : τ → Bool) (D : DagState τ) (node : τ) : List TaskDep → DagState τ × Option Nat
  | [] => (D, some 0)
  | d :: ds =>
    match nodeProcessDep finished D node d with
    | (D', none) => (D', none)
    | (D', some n) =>
      let r := nodeProcessDeps finished D' node ds
      (r.1, r.2.map (n + ·))

/-- What `kupl_dag_add_task` returns. -/
inductive AddResult where
  | error
  | notReady
  | ready

/-- Enters the task `node` with its declared dependencies (C++ `kupl_dag_add_task`). -/
def dagAddTask (finished : τ → Bool) (D : DagState τ) (node : τ) (junk : Nat → TaskDep)
    (ds : List TaskDep) : DagState τ × AddResult :=
  match nodeProcessDeps finished D node (depListRmDup junk ds) with
  | (D', none) => (D', .error)
  | (D', some n) =>
    (D', if (D'.gnode node).nPredecessors + n = -n then .ready else .notReady)

/-! ### What is kept of a list of dependencies -/

/-- A list that depends on everything is that one dependency. -/
def normalDeps (ds : List TaskDep) : List TaskDep :=
  if ds.any TaskDep.isAll then [⟨depAllAddr, .all⟩] else ds

/-- Every dependency has a type of the enumeration and no address is repeated, other than for reading. -/
def Plain (ds : List TaskDep) : Prop :=
  (∀ d ∈ ds, d.type = .input ∨ d.type = .output ∨ d.type = .inout) ∧
  ds.Pairwise fun d d' => d.baseAddr = d'.baseAddr → d.type = .input ∧ d'.type = .input

instance (ds : List TaskDep) : Decidable (Plain ds) := inferInstanceAs (Decidable (_ ∧ _))

section RmDup
variable {junk : Nat → TaskDep} {d : TaskDep} {ds kept : List TaskDep} {hash : Addr}

lemma mergeSame_none (h : ∀ e ∈ kept, e.baseAddr = d.baseAddr → e.type = d.type) : mergeSame d kept = none := by
  induction kept with
  | nil => rfl
  | cons e es ih =>
    simp only [mergeSame]
    split
    · rename_i same
      rw [if_neg]
      simpa using h e mem_cons_self same
    · rw [ih fun e' he' => h e' (mem_cons_of_mem _ he')]
      rfl

lemma rmDupLoop_all (h : ds.any TaskDep.isAll = true) : rmDupLoop hash kept ds = ([⟨depAllAddr, .all⟩], true) := by
  induction ds generalizing hash kept with
  | nil => simp at h
  | cons d ds ih =>
    unfold rmDupLoop
    split
    · rfl
    · rename_i hd
      have rest : ds.any TaskDep.isAll = true := by simpa [hd] using h
      split
      · exact ih rest
      · split <;> exact ih rest

lemma rmDupLoop_plain (ha : ds.any TaskDep.isAll = false)
    (hk : ∀ d ∈ ds, ∀ e ∈ kept, e.baseAddr = d.baseAddr → e.type = d.type)
    (hp : ds.Pairwise fun d d' => d.baseAddr = d'.baseAddr → d.type = d'.type) :
    rmDupLoop hash kept ds = (kept ++ ds, false) := by
  induction ds generalizing hash kept with
  | nil => simp [rmDupLoop]
  | cons d ds ih =>
    obtain ⟨hd, rest⟩ : d.isAll = false ∧ ds.any TaskDep.isAll = false := by simpa using ha
    have hk' : ∀ d' ∈ ds, ∀ e ∈ kept ++ [d], e.baseAddr = d'.baseAddr → e.type = d'.type := by
      intro d' hd' e he
      rcases mem_append.1 he with he | he
      · exact hk d' (mem_cons_of_mem _ hd') e he
      · obtain rfl := mem_singleton.1 he
        exact (pairwise_cons.1 hp).1 d' hd'
    have tail : ∀ hash, rmDupLoop hash (kept ++ [d]) ds = (kept ++ [d] ++ ds, false) :=
      fun hash => ih rest hk' hp.of_cons
    unfold rmDupLoop
    rw [if_neg (by simp [hd]), mergeSame_none fun e he => hk d mem_cons_self e he]
    split <;> simp [tail]

lemma depListRmDup_normal (h : ds.any TaskDep.isAll = true ∨
    ds.Pairwise fun d d' => d.baseAddr = d'.baseAddr → d.type = d'.type) :
    depListRmDup junk ds = normalDeps ds := by
  unfold depListRmDup normalDeps
  by_cases ha : ds.any TaskDep.isAll = true
  · rw [rmDupLoop_all ha, if_pos ha]
  · have plain : rmDupLoop 0 [] ds = ([] ++ ds, false) :=
      rmDupLoop_plain (by simpa using ha) (by simp) (h.resolve_left ha)
    rw [plain, if_neg ha]
    simp

end RmDup

/-! ### The edges of a list of dependencies -/

/-- The tasks that `node` follows for one dependency. -/
def depTargets (finished : τ → Bool) (hash : DagHash τ) (d : TaskDep) : List (Option τ) :=
  let h := findEntry finished hash d.baseAddr
  match d.type with
  | .input => [h.2.out]
  | .output | .inout => h.2.targets
  | .all => h.1.flatMap fun kv => kv.2.targets
  | .other _ => []

/-- The hash after one dependency of `node`. -/
def depHash (finished : τ → Bool) (hash : DagHash τ) (node : τ) (d : TaskDep) : DagHash τ :=
  let h := findEntry finished hash d.baseAddr
  match d.type with
  | .input => setEntry h.1 d.baseAddr ⟨h.2.out, node :: h.2.ins⟩
  | .output | .inout => setEntry h.1 d.baseAddr ⟨some node, []⟩
  | .all => h.1.map fun kv => (kv.1, ⟨some node, []⟩)
  | .other _ => h.1

section Process
variable {finished : τ → Bool} {g : τ → Gnode τ} {D : DagState τ} {node : τ} {d : TaskDep} {hash : DagHash τ}

lemma precedeAll_append {ps qs : List (Option τ)} : precedeAll finished g node (ps ++ qs) =
      ((precedeAll finished (precedeAll finished g node ps).1 node qs).1, (precedeAll finished g node ps).2 +
          (precedeAll finished (precedeAll finished g node ps).1 node qs).2) := by
  induction ps generalizing g with
  | nil => simp [precedeAll]
  | cons p ps ih =>
    simp only [cons_append, precedeAll, ih, Nat.add_assoc]

lemma nodeProcessDepAll_eq : nodeProcessDepAll finished g node hash =
      ((precedeAll finished g node (hash.flatMap fun kv => kv.2.targets)).1,
        hash.map fun kv => (kv.1, ⟨some node, []⟩),
        (precedeAll finished g node (hash.flatMap fun kv => kv.2.targets)).2) := by
  induction hash generalizing g with
  | nil => rfl
  | cons kv hash ih =>
    obtain ⟨a, e⟩ := kv
    simp only [nodeProcessDepAll, nodeProcessDepOut, ih, flatMap_cons, precedeAll_append, map_cons]

lemma nodeProcessDep_eq (h : ∀ v, d.type ≠ .other v) : nodeProcessDep finished D node d =
      (⟨(precedeAll finished D.gnode node (depTargets finished D.hash d)).1, depHash finished D.hash node d⟩,
        some (precedeAll finished D.gnode node (depTargets finished D.hash d)).2) := by
  unfold nodeProcessDep depTargets depHash
  cases e : d.type with
  | input => simp [nodeProcessDepIn, precedeAll]
  | output | inout => simp [nodeProcessDepOut]
  | all => simp [nodeProcessDepAll_eq]
  | other v => exact absurd e (h v)

end Process
end Kupl.Dag
