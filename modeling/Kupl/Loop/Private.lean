import Kupl.Cut.Blocks
import Kupl.Loop.TaskLoop

/-!
# Private data of reduce regions

The private items of `kupl_parallel_for_reduce` in `mt/kupl_parallel_for.cpp`, for items of
`KUPL_DATATYPE_INT`: `kupl_reduce_args_dup_impl`, `do_reduce`, and what the bodies of a region do to
them.

Every executor has one set of private items, `g_pf[eid].private_args`, for whatever reduce body it is
in. A call from inside of a body starts the set over: its caller runs it alone, unless that caller runs a
region of level `0` alone itself, which does not count as a level. And the chunk tasks of a region use the
set of whichever executor runs them, while only those of the executors selected are started and folded.

Of a region inside of another one the steps are those that touch the sets and the user buffers, in any
order and on any executors.
-/

namespace Kupl.Loop
open Kupl.Range Kupl.Group Kupl.Cut
open Function (update update_of_ne update_self)

/-- The operations of an item (C++ `KUPL_RD_ADD`, `KUPL_RD_SUB`, `KUPL_RD_MAX`, `KUPL_RD_MIN`). -/
inductive RdOp where
  | add
  | sub
  | max
  | min

/-- The number of an operation. -/
def RdOp.code : RdOp → Int
  | .add => 0
  | .sub => 1
  | .max => 2
  | .min => 3

/-- What a private item starts with (C++ `INIT_INT`). -/
def RdOp.init : RdOp → BitVec 32
  | .add | .sub => 0
  | .max => BitVec.intMin 32
  | .min => BitVec.intMax 32

/-- Private data goes into a buffer (C++ `reduce_buffer<int>`). -/
def RdOp.combine (op : RdOp) (buffer data : BitVec 32) : BitVec 32 :=
  match op with
  | .add | .sub => buffer + data
  | .max => if buffer.toInt > data.toInt then buffer else data
  | .min => if buffer.toInt < data.toInt then buffer else data

section Combine
variable {op : RdOp} {a b c : BitVec 32}

lemma toInt_combine_max : (RdOp.max.combine a b).toInt = Max.max a.toInt b.toInt := by
  unfold RdOp.combine
  simp only
  split <;> omega

lemma toInt_combine_min : (RdOp.min.combine a b).toInt = Min.min a.toInt b.toInt := by
  unfold RdOp.combine
  simp only
  split <;> omega

instance : Std.Commutative op.combine where
  comm a b := by
    cases op with
    | add | sub => exact BitVec.add_comm a b
    | max => exact BitVec.eq_of_toInt_eq (by rw [toInt_combine_max, toInt_combine_max, Int.max_comm])
    | min => exact BitVec.eq_of_toInt_eq (by rw [toInt_combine_min, toInt_combine_min, Int.min_comm])

instance : Std.Associative op.combine where
  assoc a b c := by
    cases op with
    | add | sub => exact BitVec.add_assoc a b c
    | max =>
      refine BitVec.eq_of_toInt_eq ?_
      simp only [toInt_combine_max]
      omega
    | min =>
      refine BitVec.eq_of_toInt_eq ?_
      simp only [toInt_combine_min]
      omega

lemma RdOp.combine_init : op.combine a op.init = a := by
  have low := a.le_toInt
  have high := a.toInt_lt
  cases op with
  | add | sub => exact BitVec.add_zero a
  | max =>
    refine BitVec.eq_of_toInt_eq ?_
    have least : RdOp.max.init.toInt = -2147483648 := by decide
    rw [toInt_combine_max, least]
    omega
  | min =>
    refine BitVec.eq_of_toInt_eq ?_
    have greatest : RdOp.min.init.toInt = 2147483647 := by decide
    rw [toInt_combine_min, greatest]
    omega

end Combine

/-- An item with the user buffer it is reduced into (C++ `kupl_reduce_item_t`). -/
structure RdItem where
  op : RdOp
  buffer : Nat

/-- The private items of an executor: their number, the array of items and that of their data (C++
`private_args.num`, `rd_item`, `rd_data`). -/
structure Private where
  num : Nat
  item : Nat → RdItem
  data : Nat → BitVec 32

/-- The set of an executor started for a list of items (C++ `kupl_reduce_args_dup_impl`). -/
def Private.dup (p : Private) (items : List RdItem) : Private where
  num := items.length
  item i := (items[i]?).getD (p.item i)
  data i := ((items[i]?).map fun it => it.op.init).getD (p.data i)

/-- The user buffers behind private data (C++ `do_reduce`, from the `i`-th item on). -/
def doReduce (mem : Nat → BitVec 32) (data : Nat → BitVec 32) : Nat → List RdItem → Nat → BitVec 32
  | _, [] => mem
  | i, it :: items =>
    doReduce (update mem it.buffer (it.op.combine (mem it.buffer) (data i))) data (i + 1) items

/-- The items of a list with a given buffer, by their indices from `i` on. -/
def itemsAt (b : Nat) : Nat → List RdItem → List Nat
  | _, [] => []
  | i, it :: items => if it.buffer = b then i :: itemsAt b (i + 1) items else itemsAt b (i + 1) items

/-- All items with a buffer have the operation. -/
def OneOp (items : List RdItem) (b : Nat) (op : RdOp) : Prop :=
  ∀ it ∈ items, it.buffer = b → it.op.combine = op.combine ∧ it.op.init = op.init

section Items
variable {items : List RdItem} {b i j : Nat} {op : RdOp}

lemma mem_itemsAt : j ∈ itemsAt b i items ↔ i ≤ j ∧ ∃ it, items[j - i]? = some it ∧ it.buffer = b := by
  induction items generalizing i with
  | nil => simp [itemsAt]
  | cons it items ih =>
    have rest : ∀ x, (i ≤ j ∧ ∃ it', (x :: items)[j - i]? = some it' ∧ it'.buffer = b) ↔
        (j = i ∧ x.buffer = b) ∨ (i + 1 ≤ j ∧ ∃ it', items[j - (i + 1)]? = some it' ∧ it'.buffer = b) := by
      intro x
      rcases lt_trichotomy i j with lt | rfl | gt
      · obtain ⟨d, rfl⟩ : ∃ d, j = i + (d + 1) := ⟨j - i - 1, by omega⟩
        have h1 : i + (d + 1) - i = d + 1 := by omega
        have h2 : i + (d + 1) - (i + 1) = d := by omega
        rw [h1, h2, List.getElem?_cons_succ]
        constructor
        · exact fun h => .inr ⟨by omega, h.2⟩
        · rintro (h | h)
          · omega
          · exact ⟨by omega, h.2⟩
      · simp
      · constructor
        · exact fun h => by omega
        · rintro (h | h) <;> omega
    unfold itemsAt
    rw [rest]
    split
    · rename_i eq
      rw [List.mem_cons, ih]
      simp [eq]
    · rename_i ne
      rw [ih]
      simp [ne]

lemma itemsAt_nodup : (itemsAt b i items).Nodup := by
  induction items generalizing i with
  | nil => exact List.nodup_nil
  | cons it items ih =>
    unfold itemsAt
    split
    · refine List.nodup_cons.2 ⟨fun mem => ?_, ih⟩
      have := (mem_itemsAt.1 mem).1
      omega
    · exact ih

lemma doReduce_at (mem data : Nat → BitVec 32) (one : OneOp items b op) : doReduce mem data i items b =
    (itemsAt b i items).foldl (fun x j => op.combine x (data j)) (mem b) := by
  induction items generalizing i mem with
  | nil => rfl
  | cons it items ih =>
    have ih := fun mem => ih (i := i + 1) mem fun x hx => one x (List.mem_cons_of_mem _ hx)
    unfold doReduce itemsAt
    rw [ih]
    split
    · rename_i eq
      subst eq
      rw [update_self, List.foldl_cons, (one it List.mem_cons_self rfl).1]
    · rename_i ne
      rw [update_of_ne (Ne.symm ne)]

lemma doReduce_congr {mem mem' data data' : Nat → BitVec 32} (hm : mem b = mem' b)
    (hd : ∀ j ∈ itemsAt b i items, data j = data' j) :
      doReduce mem data i items b = doReduce mem' data' i items b := by
  induction items generalizing i mem mem' with
  | nil => exact hm
  | cons it items ih =>
    unfold itemsAt at hd
    split at hd
    · rename_i eq
      refine ih ?_ fun j hj => hd j (List.mem_cons_of_mem _ hj)
      rw [eq, update_self, update_self, hm, hd i List.mem_cons_self]
    · rename_i ne
      refine ih ?_ hd
      rw [update_of_ne (Ne.symm ne), update_of_ne (Ne.symm ne), hm]

lemma doReduce_other (mem data : Nat → BitVec 32) (h : ∀ it ∈ items, it.buffer ≠ b) :
    doReduce mem data i items b = mem b := by
  induction items generalizing i mem with
  | nil => rfl
  | cons it items ih =>
    unfold doReduce
    rw [ih _ fun x hx => h x (List.mem_cons_of_mem _ hx), update_of_ne (Ne.symm (h it List.mem_cons_self))]

end Items

/-- The arguments of a reduce call with some items. -/
def intArgs (items : List RdItem) : ReduceArgs where
  num := items.length
  items := some fun i => { type := 0, op := ((items[i]?).map fun it => it.op.code).getD 0 }
  buffers := 0

inductive RegionKind where
  | alone
  | team
  | task
  deriving DecidableEq, Repr

/-- A body an executor is in: one of the region, with the number of its chunk task or of its executor,
or one of a reduce call from inside of a body. -/
inductive RdFrame where
  | body (id : Nat)
  | call (items : List RdItem)

/-- A value a body of the region has combined with a private item. -/
structure RdWrite where
  eid : Nat
  item : Nat
  body : Nat
  value : BitVec 32

/-- A reduce region: its items, its caller, master and slot; the executors that have yet to enter, or to
have their set started; its chunk tasks; the bodies that were begun, the executors that are in one, and
those that have left; the calls from inside of the bodies, with the executors whose sets they have
started over; those whose sets are left to fold; the sets, the user buffers, and what the bodies of the
region have written. -/
structure Reduction where
  kind : RegionKind
  items : List RdItem
  geid : Nat
  master : Nat
  pf : Pf
  /-- The bodies run at level `0`, where a reduce call has a region of its own. -/
  nests : Bool
  enter : List Nat
  prepare : List Nat
  todo : List Task
  queued : List Task
  ran : List Nat
  bodies : List Nat
  left : List Nat
  frames : Nat → List RdFrame
  inner : List (List RdItem)
  called : List Nat
  post : Option (List Nat)
  priv : Nat → Private
  mem : Nat → BitVec 32
  wrote : List RdWrite

namespace Reduction

def folds (s : Reduction) : List Nat :=
  match s.kind with
  | .alone => [s.geid]
  | .team | .task => s.pf.selected

/-- Starts the set of an executor. -/
def dup (s : Reduction) (eid : Nat) (items : List RdItem) : Reduction :=
  { s with priv := update s.priv eid ((s.priv eid).dup items) }

/-- Starts the set of an executor over, from inside of a body. -/
def redup (s : Reduction) (eid : Nat) (items : List RdItem) : Reduction :=
  { s.dup eid items with called := eid :: s.called }

/-- An executor enters a body. -/
def push (s : Reduction) (eid : Nat) (f : RdFrame) : Reduction :=
  { s with frames := update s.frames eid (f :: s.frames eid) }

/-- An executor leaves a body. -/
def pop (s : Reduction) (eid : Nat) : Reduction :=
  { s with frames := update s.frames eid (s.frames eid).tail }

/-- An executor enters a body of the region. -/
def start (s : Reduction) (eid id : Nat) : Reduction :=
  { s.push eid (.body id) with bodies := eid :: s.bodies, ran := id :: s.ran }

/-- A body combines a value with a private item. -/
def write (s : Reduction) (eid i : Nat) (op : RdOp) (x : BitVec 32) : Reduction :=
  let p := s.priv eid
  let p := { p with data := update p.data i (op.combine (p.data i) x) }
  { s with priv := update s.priv eid p }

/-- The sets of some executors go into the user buffers (C++ `kupl_reduce_post_func`). -/
def gather (s : Reduction) (eids : List Nat) (items : List RdItem) : Nat → BitVec 32 :=
  eids.foldl (fun mem eid => doReduce mem (s.priv eid).data 0 items) s.mem

/-- An executor may begin to fold: the caller of a region it runs alone, behind its body; the member with
the thread number `0` that has left, the caller itself behind all others; the caller of chunk tasks,
behind all of them. -/
def Behind (s : Reduction) (eid : Nat) : Prop :=
  match s.kind with
  | .alone => eid = s.geid ∧ eid ∈ s.left
  | .team => eid ∈ s.left ∧ s.pf.egroup.tid eid = 0 ∧
      (eid = s.master → s.master = s.geid → ∀ e ∈ s.pf.selected, e ∈ s.left)
  | .task => eid = s.geid ∧ s.prepare = [] ∧ s.todo = [] ∧ s.queued = [] ∧ s.bodies = []

instance (s : Reduction) (eid : Nat) : Decidable (s.Behind eid) := by
  unfold Behind
  cases s.kind <;> infer_instance

end Reduction

/-- What may happen next. -/
inductive RdLabel where
  /-- An executor enters the region and starts its set. -/
  | enter (eid : Nat)
  /-- The caller starts the set of the next executor selected. -/
  | prepare
  /-- The next chunk task goes into a queue. -/
  | queue
  /-- The queue is full, and the caller runs the next chunk task at once. -/
  | inline
  /-- An executor takes a chunk task from a queue. -/
  | take (i eid : Nat)
  /-- A body combines a value with a private item. -/
  | write (eid i : Nat) (x : BitVec 32)
  /-- A body makes a reduce call, which its executor runs alone. -/
  | call (eid : Nat) (items : List RdItem)
  /-- The call folds and returns. -/
  | ret (eid : Nat)
  /-- A body at level `0` makes a reduce call, which has a region of its own. -/
  | region (items : List RdItem)
  /-- The set of an executor is started for that region. -/
  | ready (eid : Nat)
  /-- An executor enters a body of that region. -/
  | join (eid : Nat)
  /-- It leaves that body. -/
  | quit (eid : Nat)
  /-- That region folds the sets of some executors and returns. -/
  | gather (eids : List Nat)
  /-- An executor leaves a body of the region. -/
  | leave (eid : Nat)
  /-- An executor begins to fold. -/
  | post (eid : Nat)
  /-- It folds the next set. -/
  | fold

/-- One step; `steals` where the queues are shared, or other executors steal from them. -/
def reductionStep (steals : Bool) (s : Reduction) : RdLabel → Option Reduction
  | .enter eid =>
    if eid ∈ s.enter then
      some (({ s with enter := s.enter.erase eid }.dup eid s.items).start eid eid)
    else none
  | .prepare =>
    match s.prepare with
    | [] => none
    | eid :: eids => some ({ s with prepare := eids }.dup eid s.items)
  | .queue =>
    match s.prepare, s.todo with
    | [], t :: ts => some { s with todo := ts, queued := s.queued ++ [t] }
    | _, _ => none
  | .inline =>
    match s.prepare, s.todo with
    | [], t :: ts => some ({ s with todo := ts }.start s.geid t.taskId)
    | _, _ => none
  | .take i eid =>
    match s.queued[i]? with
    | none => none
    | some t =>
      if t.executorId = eid ∨ steals then
        some ({ s with queued := s.queued.eraseIdx i }.start eid t.taskId)
      else none
  | .write eid i x =>
    match s.frames eid with
    | [] => none
    | .body id :: _ => (s.items[i]?).map fun it =>
        { s.write eid i it.op x with wrote := s.wrote ++ [⟨eid, i, id, x⟩] }
    | .call items :: _ => (items[i]?).map fun it => s.write eid i it.op x
  | .call eid items =>
    if s.frames eid = [] ∨ items = [] then none
    else some ((s.redup eid items).push eid (.call items))
  | .ret eid =>
    match s.frames eid with
    | .call items :: _ => some { s.pop eid with mem := s.gather [eid] items }
    | _ => none
  | .region items =>
    if s.nests = false ∨ s.frames s.geid = [] ∨ items = [] then none
    else some { s with inner := items :: s.inner }
  | .ready eid =>
    match s.inner with
    | [] => none
    | items :: _ => some (s.redup eid items)
  | .join eid =>
    match s.inner with
    | [] => none
    | items :: _ => some (s.push eid (.call items))
  | .quit eid =>
    match s.nests, s.frames eid with
    | true, .call _ :: _ => some (s.pop eid)
    | _, _ => none
  | .gather eids =>
    match s.inner with
    | [] => none
    | items :: inner => some { s with inner, mem := s.gather eids items }
  | .leave eid =>
    match s.frames eid with
    | .body _ :: _ => some { s.pop eid with bodies := s.bodies.erase eid, left := s.left ++ [eid] }
    | _ => none
  | .post eid => if s.post = none ∧ s.Behind eid then some { s with post := some s.folds } else none
  | .fold =>
    match s.post with
    | some (eid :: eids) => some { s with mem := s.gather [eid] s.items, post := some eids }
    | _ => none

/-- The beginning of a region, with the sets and the user buffers as they are. A region of chunk tasks on
no threads, which divides by zero, does not begin. -/
def beginReduction (env : Env) (items : List RdItem) (priv : Nat → Private) (mem : Nat → BitVec 32) :
    Slots × Start → Option Reduction
  | (P, .quick master) => some
      { kind := .alone, items, geid := env.geid, master, pf := P env.activeLevels master
        nests := env.activeLevels = 0, enter := [env.geid], prepare := [], todo := [], queued := []
        ran := [], bodies := [], left := [], frames := fun _ => [], inner := [], called := []
        post := none, priv, mem, wrote := [] }
  | (P, .team level master eids) => some
      { kind := .team, items, geid := env.geid, master, pf := P level master
        nests := false, enter := eids, prepare := [], todo := [], queued := []
        ran := [], bodies := [], left := [], frames := fun _ => [], inner := [], called := []
        post := none, priv, mem, wrote := [] }
  | (P, .task level master) =>
    let pf := P level master
    if pf.numThreads ≤ 0 then none
    else some
      { kind := .task, items, geid := env.geid, master, pf
        nests := false, enter := [], prepare := pf.selected, todo := beginTasks 0 pf, queued := []
        ran := [], bodies := [], left := [], frames := fun _ => [], inner := [], called := []
        post := none, priv, mem, wrote := [] }
  | _ => none

def intReduce (desc : PfDesc) (func : Option Nat) (args : Nat) (items : List RdItem) : Request :=
  .reduce desc func args (some (intArgs items))

/-- The region of a reduce call, on slots, sets and buffers as they are. -/
def reduction (steals : Bool) (env : Env) (E : Egroups) (P : Slots) (desc : PfDesc)
    (func : Option Nat) (args : Nat) (items : List RdItem) (priv : Nat → Private)
    (mem : Nat → BitVec 32) : Machine Reduction RdLabel where
  init s := beginReduction env items priv mem (beginRegion env E P (intReduce desc func args items)) = some s
  step := reductionStep steals

end Kupl.Loop
