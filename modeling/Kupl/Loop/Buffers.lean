import Kupl.Machine.Run
import Mathlib.Data.List.Basic

/-!
# The private buffers of the executors (`mt/kupl_parallel_for.cpp`)

| source | here |
|---|---|
| `rd_item`, `rd_data`, `rd_num_max`, `private_args` of `kupl_pf_t` | `Own` |
| `kupl_reduce_args_dup_impl` | `Own.grow`, `Own.fill`, `Own.dup` |
| `do_reduce`, `kupl_reduce_post_func` | `doReduceItems`, `postFunc` |
| the bodies of a region, `kupl_task_reduce_buffers_init`, `task_policy_loop_func` | `teamBody`, `taskBody` |
| `kupl_parallel_for_reduce`, once its executors are selected | `ReduceCall.run` |

An executor keeps its buffers from one call to the next, and allocates them anew only for a call with more items than
any call before. A call that reads or writes where there is no buffer ends the process: it is `none`. Where an item
begins and how it is combined is given by its type and operation, and what the bodies on an executor leave in an item is
any function of what it begins with. The calls are made one behind the other, from outside of all bodies.
-/

namespace Kupl.Loop.Buffers
open List

variable {V : Type}

/-- An item of a call (C++ `kupl_reduce_item_t`). -/
structure Item (V : Type) where
  buffer : Nat
  init : V
  combine : V → V → V

/-- The buffers of an executor, by the number of items they have room for; `args` is the buffer of items that
`private_args` points to, unless it was freed. -/
structure Own (V : Type) where
  rdItem : Option Nat
  rdData : Option Nat
  rdNumMax : Nat
  args : Option Nat
  argsNum : Nat
  data : Nat → V

/-- A buffer is there, and has room for some items. -/
def Room (n : Nat) (buffer : Option Nat) : Prop := buffer.any (n ≤ ·)

instance (n : Nat) (buffer : Option Nat) : Decidable (Room n buffer) := inferInstanceAs (Decidable (_ = true))

namespace Own

/-- Room for some items, and whether it is there. -/
def grow (o : Own V) (n : Nat) (itemOk dataOk : Bool) : Own V × Bool :=
  if n > o.rdNumMax then
    if itemOk && dataOk then
      ({ o with rdItem := some n, rdData := some n, rdNumMax := n, args := none }, true)
    else
      -- the old buffers are freed and the number is raised before the new buffers are looked at
      ({ o with rdItem := none, rdData := none, rdNumMax := n, args := none }, false)
  else (o, true)

/-- The private items and data of a call. -/
def fill (o : Own V) (items : List (Item V)) : Option (Own V) :=
  if Room items.length o.rdItem ∧ Room items.length o.rdData then
    some { o with
      args := o.rdItem
      argsNum := items.length
      data := fun i => (items[i]?).elim (o.data i) Item.init }
  else none

/-- The private arguments of a call, and whether there are any (C++ `kupl_reduce_args_dup_impl`). -/
def dup (o : Own V) (items : List (Item V)) (itemOk dataOk : Bool) : Option (Own V × Bool) :=
  let r := o.grow items.length itemOk dataOk
  if r.2 then (r.1.fill items).map (·, true) else some r

/-- What bodies do to the private data. -/
def work (o : Own V) (f : Nat → V → V) : Own V := { o with data := fun i => f i (o.data i) }

end Own

/-- Private data goes into the user buffers (C++ `do_reduce`). -/
def doReduceItems (mem : Nat → V) (items : List (Item V × V)) : Nat → V :=
  items.foldl (fun mem x => Function.update mem x.1.buffer (x.1.combine (mem x.1.buffer) x.2)) mem

/-- How a call is run. -/
inductive Path (V : Type) where
  /-- It is refused before any buffer is looked at. -/
  | refused
  /-- The caller runs it alone. -/
  | alone (geid : Nat)
  /-- The executors selected run it, and others that enter. They fold unless the caller is ahead of that; `seen` is what
  the bodies on an executor have done when it is folded, once it has entered. -/
  | team (executors guests : List Nat) (folds : Bool) (seen : Nat → Option (Nat → V → V))
  /-- Those of the executors selected that get a chunk run it, and others that come by one. -/
  | task (executors guests : List Nat) (gets : Nat → Bool)

/-- A call: the user buffers when it begins, the allocations that succeed, and the bodies on an executor. -/
structure ReduceCall (V : Type) where
  items : List (Item V)
  path : Path V
  mem : Nat → V
  itemOk : Nat → Bool
  dataOk : Nat → Bool
  body : Nat → Nat → V → V

def takeParts (part : Nat → Own V → Option (Own V)) (es : List Nat) (own : Nat → Own V) :
    Option (Nat → Own V) :=
  if ∀ e ∈ es, (part e (own e)).isSome then some fun e => if e ∈ es then (part e (own e)).getD (own e) else own e
  else none

namespace ReduceCall
variable (c : ReduceCall V)

def executors : List Nat :=
  match c.path with
  | .refused => []
  | .alone geid => [geid]
  | .team executors _ _ _ | .task executors _ _ => executors

/-- An executor in a region (C++ `kupl_reduce_static_policy_func`, `kupl_reduce_dynamic_policy_func`). -/
def teamBody (f : Nat → V → V) (e : Nat) (o : Own V) : Option (Own V) :=
  (o.dup c.items (c.itemOk e) (c.dataOk e)).map fun r => if r.2 then r.1.work f else r.1

/-- An executor and its chunks (C++ `kupl_task_reduce_buffers_init`, `task_policy_loop_func`). -/
def taskBody (executors guests : List Nat) (gets : Nat → Bool) (e : Nat) (o : Own V) : Option (Own V) :=
  (if e ∈ executors then (o.dup c.items (c.itemOk e) (c.dataOk e)).map Prod.fst else some o).bind fun o =>
    if gets e ∨ e ∈ guests then (if Room c.items.length o.args then some (o.work (c.body e)) else none) else some o

/-- The data of the executors goes into the user buffers (C++ `kupl_reduce_post_func`). -/
def postFunc (own : Nat → Own V) : Option (Nat → V) :=
  c.executors.foldlM (fun mem e =>
    if Room c.items.length (own e).rdData then
      some (doReduceItems mem (c.items.mapIdx fun i item => (item, (own e).data i)))
    else none) c.mem

/-- Whether a call returns `KUPL_OK`, with the buffers of the executors and of the user behind it. -/
def run (own : Nat → Own V) : Option (Bool × (Nat → Own V) × (Nat → V)) :=
  if c.items = [] then some (false, own, c.mem)
  else match c.path with
    | .refused => some (false, own, c.mem)
    | .alone e =>
      ((own e).dup c.items (c.itemOk e) (c.dataOk e)).bind fun r =>
        if r.2 then
          let own := Function.update own e (r.1.work (c.body e))
          (c.postFunc own).map (true, own, ·)
        else some (false, Function.update own e r.1, c.mem)
    | .team executors guests folds seen =>
      (takeParts (fun e => c.teamBody (c.body e) e) (executors ++ guests) own).bind fun after =>
        let atFold := takeParts (fun e o => (seen e).elim (some o) fun f => c.teamBody f e o) executors own
        (if folds then atFold.bind c.postFunc else some c.mem).map (true, after, ·)
    | .task executors guests gets =>
      (takeParts (c.taskBody executors guests gets) (executors ++ guests) own).bind fun after =>
        (c.postFunc after).map (true, after, ·)

end ReduceCall

/-- The buffers of the executors, whether the process has ended, and the calls made with what they have returned and
left in the user buffers. -/
structure State (V : Type) where
  own : Nat → Own V
  ended : Bool
  log : List (ReduceCall V × Bool × (Nat → V))

def step (s : State V) (c : ReduceCall V) : Option (State V) :=
  if s.ended then none
  else some ((c.run s.own).elim { s with ended := true } fun r =>
    { s with own := r.2.1, log := s.log ++ [(c, r.1, r.2.2)] })

/-- No executor has buffers at first. -/
def Fresh (s : State V) : Prop :=
  (∀ e, ∃ data, s.own e = ⟨none, none, 0, none, 0, data⟩) ∧ s.ended = false ∧ s.log = []

def reduceCalls (V : Type) : Machine (State V) (ReduceCall V) := ⟨Fresh, step⟩

namespace ReduceCall
variable (c : ReduceCall V)

/-- What the bodies on an executor make of an item. -/
def share (e i : Nat) (v : V) : V :=
  match c.path with
  | .task _ _ gets => if gets e then c.body e i v else v
  | _ => c.body e i v

/-- Those that run bodies without being selected. -/
def guests : List Nat :=
  match c.path with
  | .team _ guests _ _ | .task _ guests _ => guests
  | _ => []

/-- The user buffers with the shares of all executors. -/
def folded : Nat → V :=
  c.executors.foldl
    (fun mem e => doReduceItems mem (c.items.mapIdx fun i item => (item, c.share e i item.init))) c.mem

/-- An error changes no user buffer, and success means that the share of each one that takes part is folded. -/
def Good (ok : Bool) (mem : Nat → V) : Prop :=
  if ok then c.guests = [] ∧ mem = c.folded else mem = c.mem

/-- The buffers that are needed are allocated, and the bodies run on the executors selected, before they fold. -/
def Allocated (own : Nat → Own V) : Prop :=
  (∀ e ∈ c.executors, (own e).rdNumMax < c.items.length → c.itemOk e = true ∧ c.dataOk e = true) ∧
    c.guests = [] ∧
  match c.path with
  | .team executors _ folds seen => folds = true ∧ ∀ e ∈ executors, seen e = some (c.body e)
  | _ => True

end ReduceCall

/-- The buffers and the private arguments of an executor are as its number of items says. -/
structure Own.Ok (o : Own V) : Prop where
  rdItem : o.rdItem = if o.rdNumMax = 0 then none else some o.rdNumMax
  rdData : o.rdData = o.rdItem
  args : o.args = o.rdItem
  num : o.argsNum ≤ o.rdNumMax

/-- The process goes on, the buffers of each executor are consistent, and each call has met its end. -/
structure State.Right (s : State V) : Prop where
  goesOn : s.ended = false
  ok : ∀ e, (s.own e).Ok
  calls : ∀ x ∈ s.log, x.1.Good x.2.1 x.2.2

section Executor
variable {o : Own V} {items : List (Item V)} {f : Nat → V → V}

/-- The buffers are there, and hold what has become of the items of a call. -/
structure Own.Holds (o : Own V) (items : List (Item V)) (f : Nat → V → V) : Prop where
  ok : o.Ok
  room : Room items.length o.rdItem
  data : ∀ i item, items[i]? = some item → o.data i = f i item.init

lemma Own.Ok.grow {n : Nat} {itemOk dataOk : Bool} (h : o.Ok) (pos : 0 < n)
    (alloc : o.rdNumMax < n → itemOk = true ∧ dataOk = true) :
    ∃ o', o.grow n itemOk dataOk = (o', true) ∧ o'.rdItem = some o'.rdNumMax ∧ o'.rdData = o'.rdItem ∧
      n ≤ o'.rdNumMax := by
  unfold Own.grow
  split
  · rename_i more
    obtain ⟨rfl, rfl⟩ := alloc more
    exact ⟨_, rfl, rfl, rfl, Nat.le_refl n⟩
  · rename_i enough
    have there := h.rdItem
    rw [if_neg (by omega)] at there
    exact ⟨o, rfl, there, h.rdData, by omega⟩

lemma Own.Ok.dup {itemOk dataOk : Bool} (h : o.Ok) (nonempty : items ≠ [])
    (alloc : o.rdNumMax < items.length → itemOk = true ∧ dataOk = true) :
    ∃ o', o.dup items itemOk dataOk = some (o', true) ∧ o'.Holds items fun _ v => v := by
  have pos := length_pos_iff.2 nonempty
  obtain ⟨g, grow, item, data, room⟩ := h.grow pos alloc
  have there : Room items.length g.rdItem := by
    rw [item]
    exact decide_eq_true room
  unfold Own.dup Own.fill
  dsimp only
  rw [grow, if_pos rfl, if_pos ⟨there, data ▸ there⟩]
  have ne : g.rdNumMax ≠ 0 := by omega
  refine ⟨_, rfl, ⟨item.trans (if_neg ne).symm, data, rfl, room⟩, there, fun i x at_ => ?_⟩
  dsimp only
  rw [at_]
  rfl

lemma Own.Holds.work (h : o.Holds items fun _ v => v) : (o.work f).Holds items f where
  ok := ⟨h.ok.rdItem, h.ok.rdData, h.ok.args, h.ok.num⟩
  room := h.room
  data i x at_ := congrArg (f i) (h.data i x at_)

end Executor

section Parts
variable {part part' : Nat → Own V → Option (Own V)} {es : List Nat} {own : Nat → Own V}
  {P : Nat → Own V → Prop}

lemma takeParts_congr (same : ∀ e ∈ es, part e (own e) = part' e (own e)) :
    takeParts part es own = takeParts part' es own := by
  unfold takeParts
  refine if_congr (forall₂_congr fun e mem => by rw [same e mem]) (congrArg some (funext fun e => ?_)) rfl
  refine if_ctx_congr Iff.rfl (fun mem => by rw [same e mem]) fun _ => rfl

lemma takeParts_some (each : ∀ e ∈ es, ∃ o, part e (own e) = some o ∧ P e o) :
    ∃ own', takeParts part es own = some own' ∧ ∀ e, if e ∈ es then P e (own' e) else own' e = own e := by
  unfold takeParts
  refine ⟨_, if_pos fun e mem => ?_, fun e => ?_⟩
  · obtain ⟨o, some_, -⟩ := each e mem
    exact some_ ▸ rfl
  · by_cases mem : e ∈ es
    · obtain ⟨o, some_, holds⟩ := each e mem
      rw [if_pos mem, if_pos mem, some_]
      exact holds
    · rw [if_neg mem, if_neg mem]

end Parts

namespace ReduceCall
variable {c : ReduceCall V} {own : Nat → Own V}

lemma postFunc_eq (holds : ∀ e ∈ c.executors, (own e).Holds c.items (c.share e)) :
    c.postFunc own = some c.folded := by
  unfold postFunc folded
  generalize c.executors = es at holds
  generalize c.mem = mem
  induction es generalizing mem with
  | nil => rfl
  | cons e es ih =>
    obtain ⟨h, holds⟩ := forall_mem_cons.1 holds
    have shares : c.items.mapIdx (fun i item => (item, (own e).data i)) =
        c.items.mapIdx fun i item => (item, c.share e i item.init) := by
      refine ext_getElem? fun i => ?_
      rw [List.getElem?_mapIdx, List.getElem?_mapIdx]
      refine Option.map_congr fun item at_ => ?_
      rw [h.data i item at_]
    rw [foldlM_cons, if_pos (h.ok.rdData ▸ h.room), shares]
    exact ih holds _

lemma dup_holds (ok : ∀ e, (own e).Ok) (nonempty : c.items ≠ []) (alloc : c.Allocated own) {e : Nat}
    (mem : e ∈ c.executors) :
    ∃ o, (own e).dup c.items (c.itemOk e) (c.dataOk e) = some (o, true) ∧ o.Holds c.items fun _ v => v :=
  (ok e).dup nonempty (alloc.1 e mem)

lemma parts_good {own' : Nat → Own V} (ok : ∀ e, (own e).Ok) (guests : c.guests = [])
    (parts : ∀ e, if e ∈ c.executors then (own' e).Holds c.items (c.share e) else own' e = own e) :
    (∀ e, (own' e).Ok) ∧ ∃ mem, c.postFunc own' = some mem ∧ c.Good true mem := by
  refine ⟨fun e => ?_, c.folded, postFunc_eq fun e mem => ?_, guests, rfl⟩
  · have part := parts e
    split at part
    · exact part.ok
    · exact part ▸ ok e
  · have part := parts e
    rwa [if_pos mem] at part

lemma teamBody_holds {e : Nat} {o o' : Own V} {f : Nat → V → V} (holds : o'.Holds c.items fun _ v => v)
    (there : o.dup c.items (c.itemOk e) (c.dataOk e) = some (o', true)) :
    ∃ o'', c.teamBody f e o = some o'' ∧ o''.Holds c.items f := by
  refine ⟨_, ?_, holds.work⟩
  rw [teamBody, there]
  rfl

lemma taskBody_holds {executors : List Nat} {gets : Nat → Bool} {e : Nat} {o o' : Own V} (mem : e ∈ executors)
    (holds : o'.Holds c.items fun _ v => v) (there : o.dup c.items (c.itemOk e) (c.dataOk e) = some (o', true)) :
    ∃ o'', c.taskBody executors [] gets e o = some o'' ∧
      o''.Holds c.items fun i v => if gets e then c.body e i v else v := by
  unfold taskBody
  rw [if_pos mem, there, Option.map_some, Option.bind_some]
  cases gets e with
  | false => exact ⟨o', rfl, holds⟩
  | true => exact ⟨_, if_pos (holds.ok.args ▸ holds.room), holds.work⟩

/-- A call whose buffers can be allocated meets its end, and leaves the buffers of all executors consistent. -/
lemma run_good (ok : ∀ e, (own e).Ok) (alloc : c.Allocated own) :
    ∃ r, c.run own = some r ∧ (∀ e, (r.2.1 e).Ok) ∧ c.Good r.1 r.2.2 := by
  unfold run
  split
  · exact ⟨_, rfl, ok, rfl⟩
  · rename_i nonempty
    have dup := @dup_holds _ c own ok nonempty alloc
    have good := @parts_good _ c own
    obtain ⟨-, guests, orderly⟩ := alloc
    have none := guests
    unfold executors at dup good
    unfold share at good
    unfold ReduceCall.guests at guests
    cases path : c.path with
    | refused => exact ⟨_, rfl, ok, rfl⟩
    | alone geid =>
      rw [path] at dup good
      obtain ⟨o, there, holds⟩ := dup (mem_singleton.2 rfl)
      have parts (e) : if e ∈ [geid] then (Function.update own geid (o.work (c.body geid)) e).Holds c.items (c.body e)
          else Function.update own geid (o.work (c.body geid)) e = own e := by
        by_cases same : e = geid
        · rw [same, if_pos (mem_singleton.2 rfl), Function.update_self]
          exact holds.work
        · rw [if_neg (mt mem_singleton.1 same), Function.update_of_ne same]
      obtain ⟨ok', mem', post, good⟩ := good ok none parts
      dsimp only
      rw [there, Option.bind_some, if_pos rfl, post]
      exact ⟨_, rfl, ok', good⟩
    | team es others folds view =>
      rw [path] at dup good guests orderly
      obtain rfl : others = [] := guests
      obtain ⟨rfl, seen⟩ := orderly
      have each : ∀ e ∈ es, ∃ o, c.teamBody (c.body e) e (own e) = some o ∧ o.Holds c.items (c.body e) := by
        intro e mem
        obtain ⟨o, there, holds⟩ := dup mem
        exact teamBody_holds holds there
      obtain ⟨after, took, parts⟩ := @takeParts_some _ (fun e => c.teamBody (c.body e) e) _ _ _ each
      obtain ⟨ok', mem', post, good⟩ := good ok none parts
      have atFold : takeParts (fun e o => (view e).elim (some o) fun f => c.teamBody f e o) es own = some after := by
        rw [← took]
        refine takeParts_congr fun e mem => ?_
        rw [seen e mem]
        rfl
      dsimp only
      rw [append_nil, took, atFold, Option.bind_some, if_pos rfl, Option.bind_some, post]
      exact ⟨_, rfl, ok', good⟩
    | task es others gets =>
      rw [path] at dup good guests
      obtain rfl : others = [] := guests
      have each : ∀ e ∈ es, ∃ o, c.taskBody es [] gets e (own e) = some o ∧
          o.Holds c.items fun i v => if gets e then c.body e i v else v := by
        intro e mem
        obtain ⟨o, there, holds⟩ := dup mem
        exact taskBody_holds mem holds there
      obtain ⟨after, took, parts⟩ := takeParts_some each
      obtain ⟨ok', mem', post, good⟩ := good ok none parts
      dsimp only
      rw [append_nil, took, Option.bind_some, post]
      exact ⟨_, rfl, ok', good⟩

end ReduceCall

section Headline
variable {s : State V}

/-- As long as the buffers that are needed are allocated and the executors selected run the bodies before they fold,
every call returns an error and changes no user buffer, or folds the share of each executor, and no call finds a buffer
missing. -/
theorem privateBuffers_right (h : (reduceCalls V).Reach (fun s c => c.Allocated s.own) s) : s.Right := by
  refine h.inv (fun s init => ?_) fun s c s' right alloc st => ?_
  · obtain ⟨none, goesOn, log⟩ := init
    refine ⟨goesOn, fun e => ?_, fun x mem => ?_⟩
    · obtain ⟨data, own⟩ := none e
      rw [own]
      exact ⟨rfl, rfl, rfl, Nat.le_refl 0⟩
    · rw [log] at mem
      cases mem
  · obtain ⟨r, run, ok, good⟩ := ReduceCall.run_good right.ok alloc
    have st : step s c = some s' := st
    rw [step, if_neg (by rw [right.goesOn]; exact Bool.false_ne_true), run] at st
    cases st
    refine ⟨right.goesOn, ok, fun x mem => ?_⟩
    rcases mem_append.1 mem with old | new
    · exact right.calls x old
    · cases mem_singleton.1 new
      exact good

def sumItem (buffer : Nat) : Item Int := ⟨buffer, 0, (· + ·)⟩

/-- A call that the executor `0` runs alone. -/
def aloneCall (items : List (Item Int)) (ok : Bool) : ReduceCall Int :=
  ⟨items, .alone 0, fun _ => 0, fun _ => ok, fun _ => ok, fun _ _ v => v + 5⟩

/-- A call on two executors, which run its bodies before they fold. -/
def pairCall (items : List (Item Int)) : ReduceCall Int :=
  ⟨items, .team [0, 1] [] true fun _ => some fun _ v => v + 5, fun _ => 0, fun _ => true, fun _ => true,
    fun _ _ v => v + 5⟩

def noBuffers : State Int := ⟨fun _ => ⟨none, none, 0, none, 0, fun _ => 0⟩, false, []⟩

lemma noBuffers_init : (reduceCalls Int).init noBuffers := ⟨fun _ => ⟨_, rfl⟩, rfl, rfl⟩

/-- A call of two items, and one of one item in the same buffers. -/
theorem privateBuffers_right_two : ∃ s : State Int, s.Right ∧ s.log.length = 2 ∧
    (s.log.map fun x => (x.2.1, x.2.2 0, x.2.2 1)) = [(true, 5, 5), (true, 10, 0)] := by
  have first := Machine.Reach.step (g := fun s c => c.Allocated s.own) (a := aloneCall [sumItem 0, sumItem 1] true)
    (.init noBuffers_init) ⟨fun _ _ _ => ⟨rfl, rfl⟩, rfl, trivial⟩ rfl
  have second := Machine.Reach.step (a := pairCall [sumItem 0]) first
    ⟨fun _ _ _ => ⟨rfl, rfl⟩, rfl, rfl, fun _ _ => rfl⟩ rfl
  exact ⟨_, privateBuffers_right second, rfl, rfl⟩

/-- The buffers for two items are not allocated, and the next call, of one item, finds none. -/
theorem privateBuffers_missing : ∃ s : State Int, (reduceCalls Int).Reachable s ∧ ¬s.Right ∧ s.ended = true ∧
    s.log.length = 1 := by
  have first := Machine.Reach.step (g := fun _ _ => True) (a := aloneCall [sumItem 0, sumItem 1] false)
    (.init noBuffers_init) trivial rfl
  have second := Machine.Reach.step (a := aloneCall [sumItem 0] true) first trivial rfl
  exact ⟨_, second, fun right => absurd right.goesOn Bool.true_eq_false.mp, rfl, rfl⟩

end Headline
end Kupl.Loop.Buffers
