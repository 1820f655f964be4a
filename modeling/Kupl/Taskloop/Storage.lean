import Kupl.Machine.Run
import Kupl.Taskloop.Exact

/-!
# The storage of the caller behind a loop

What the tasks of `kupl_graph_add_taskloop` and of `kupl::graph_submit` of a loop call, when the caller has
changed or destroyed the descriptor and the range since. `kupl_taskloop_linear` copies the bounds of a
block into each task. `kupl_taskloop_concurrent` copies into its helpers, the tasks of
`kupl_taskloop_dispatch`, what was computed of the loop, and the address of the descriptor: a helper reads
the descriptor and the range of the caller when it is run. The overload with a lambda does the same, but its
helpers have the lambda.

C++ → Lean naming: what is read of `kupl_taskloop_desc_t` → `DescMem`; `kupl_taskloop_args_t`,
`kupl_taskloop_lambda_args_t` → `Call`; `kupl_taskloop_dispatch_args_t`,
`kupl_taskloop_dispatch_lambda_args_t`, with what is left of their loop → `Helper`;
`kupl_taskloop_linear`, `kupl_taskloop_concurrent` → `Submission.start`.

Functions, arguments and ranges are given by their addresses. A storage that is destroyed is `none`. The
helpers and the tasks run in any order; each task that a helper makes is a step of its own.
-/

namespace Kupl.Taskloop
open Range Kupl.Group List

/-- What a task calls: the function of the descriptor with its arguments, or a lambda. -/
inductive Callee where
  | plain (func args : Nat)
  | lambda (func : Nat)

structure Call where
  callee : Callee
  range : NdRange

structure DescMem where
  func : Nat
  args : Nat
  range : Nat

structure Storage where
  desc : Option DescMem
  range : Nat → Option NdRange

/-- A task of `kupl_taskloop_dispatch`, and the executors and numbers of the tasks it has to make once it has
read where the range is. -/
inductive Helper where
  | waiting (eid : Nat) (eidx : Int)
  | running (range : Nat) (todo : List (Nat × Int))

/-- A task that was made. -/
structure LoopCall where
  executorId : Nat
  call : Call

/-- A loop as it is at the call: its group, its range with the blocksizes settled, the number of its blocks,
and its descriptor, with a lambda or without. -/
structure Submission where
  g : EgroupInfo
  range : NdRange
  totalTasks : Int
  desc : DescMem
  lambda : Option Nat

/-- The dimensions that are read of a range. -/
def clip (dim : Int) (range : NdRange) : NdRange where
  dim := dim
  ndRange d := if d < dim.toNat then range.ndRange d else ⟨0, 0, 0, 0⟩

namespace Submission
variable (L : Submission)

/-- What is computed of the loop at the call. -/
def info : TaskloopInfo := taskloopInfo L.range (Loop.curSize L.g) L.totalTasks

/-- What a task calls: the lambda, or what the descriptor says when the task is made. -/
def callee (desc : Option DescMem) : Option Callee :=
  match L.lambda with
  | some func => some (.lambda func)
  | none => desc.map fun desc => .plain desc.func desc.args

def called : Callee := L.lambda.elim (.plain L.desc.func L.desc.args) .lambda

/-- A task by its executor and number, with the range there is when it is made; `none` is an overflow. -/
def cut (callee : Callee) (range : NdRange) (t : Nat × Int) : Option LoopCall :=
  (taskRange64 L.info (clip L.info.dim range) t.2).map fun range => ⟨t.1, callee, clip L.info.dim range⟩

/-- Whether the caller makes the tasks itself. -/
def Linear : Prop := L.info.esize * taskloopThreshold > L.info.totalTasks

instance : Decidable L.Linear := inferInstanceAs (Decidable (_ > _))

def helpers : List Helper :=
  (forEachEgroup L.g).reverse.zipIdx.map fun (eid, i) => .waiting eid (L.g.size - 1 - i : Int)

end Submission

/-- The tasks of a loop; `undefined` is that a helper has read what was destroyed, or overflowed. -/
structure State where
  storage : Storage
  helpers : List Helper
  tasks : List LoopCall
  calls : List Call
  undefined : Bool

/-- What happens next: the caller writes or destroys its storage, a helper takes a step, or a task is run. -/
inductive Label where
  | write (storage : Storage)
  | helper (i : Nat)
  | run (i : Nat)

namespace Submission
variable (L : Submission)

/-- What the call returns with (C++ `kupl_taskloop_linear`, `kupl_taskloop_concurrent`). -/
def start (storage : Storage) : Option State :=
  if L.Linear then
    ((taskloopLinear L.g L.info).mapM (L.cut L.called L.range)).map fun tasks =>
      ⟨storage, [], tasks, [], false⟩
  else some ⟨storage, L.helpers, [], [], false⟩

/-- A step of the `i`-th helper (C++ `kupl_taskloop_dispatch`, `kupl::taskloop_dispatch`). -/
def helperStep (s : State) (i : Nat) : Helper → State
  | .waiting eid eidx =>
    match s.storage.desc with
    | none => { s with undefined := true }
    | some desc =>
      { s with helpers := s.helpers.set i (.running desc.range (taskloopDispatch L.info eid eidx)) }
  | .running _ [] => { s with helpers := s.helpers.eraseIdx i }
  | .running addr (t :: todo) =>
    match L.callee s.storage.desc, s.storage.range addr with
    | some callee, some range =>
      match L.cut callee range t with
      | none => { s with undefined := true }
      | some task =>
        { s with
          helpers := s.helpers.set i (.running addr todo)
          tasks := s.tasks ++ [task] }
    | _, _ => { s with undefined := true }

/-- The run of a loop behind its call. -/
def machine : Machine State Label where
  init s := ∃ storage : Storage, storage.desc = some L.desc ∧ storage.range L.desc.range = some L.range ∧
    L.start storage = some s
  step s a :=
    if s.undefined then none
    else
      match a with
      | .write storage => some { s with storage }
      | .helper i => s.helpers[i]?.map fun h => L.helperStep s i h
      | .run i => s.tasks[i]?.map fun t =>
          { s with tasks := s.tasks.eraseIdx i, calls := s.calls ++ [t.call] }

/-- What the helpers read is as it was at the call. -/
structure Kept (helpers : List Helper) (storage : Storage) : Prop where
  addr : (∃ eid eidx, .waiting eid eidx ∈ helpers) → storage.desc.map (·.range) = some L.desc.range
  callee : L.callee storage.desc = some L.called
  range : (storage.range L.desc.range).map (clip L.info.dim) = some (clip L.info.dim L.range)

/-- As long as there are helpers, the caller keeps what they read. -/
def Keeps (s : State) : Label → Prop
  | .write storage => s.helpers = [] ∨ L.Kept s.helpers storage
  | _ => True

/-- The loop is the one of a call (C++ `kupl_graph_add_taskloop` up to the number of its blocks). -/
structure Of (E : Egroups) (graph : Bool) (desc : TaskloopDesc) : Prop where
  check : taskloopCheck E graph desc = some (some (L.range, L.g))
  total : totalTasks64 L.range = some L.totalTasks
  plain : L.lambda = none → desc.func = some L.desc.func ∧ desc.args = L.desc.args

end Submission

/-- The calls made so far are among those of the blocks of the loop, each as often as it comes up there; when
no helper and no task is left, all of them were made. -/
structure AsSubmitted (all : List Call) (s : State) : Prop where
  defined : s.undefined = false
  within : s.calls.Subperm all
  complete : s.helpers = [] → s.tasks = [] → s.calls.Perm all

section Clip
variable {info : TaskloopInfo} {range : NdRange} {dim : Int}

lemma clip_set {d : Nat} {r : KuplRange} (lt : d < dim.toNat) :
    clip dim (range.set d r) = (clip dim range).set d r := by
  unfold clip NdRange.set
  congr 1
  funext e
  by_cases eq : e = d
  · subst eq
    simp [lt]
  · simp [Function.update_of_ne eq]

lemma clip_clip : clip dim (clip dim range) = clip dim range := by
  unfold clip
  congr 1
  funext d
  by_cases lt : d < dim.toNat
  · simp [lt]
  · simp [lt]

lemma blockRound64_clip {id : Int} {r : NdRange} {d : Nat} (lt : d < info.dim.toNat) :
    blockRound64 info (clip info.dim range) (id, clip info.dim r) d =
      (blockRound64 info range (id, r) d).map (Prod.map (fun i => i) (clip info.dim)) := by
  have same : (clip info.dim range).ndRange d = range.ndRange d := if_pos lt
  unfold blockRound64
  rw [same, Option.map_map]
  congr 1
  funext k
  show (_, _) = (_, _)
  rw [clip_set lt]

lemma taskRange64_clip {id : Int} : taskRange64 info (clip info.dim range) id =
    (taskRange64 info range id).map (clip info.dim) := by
  have rounds : ∀ l : List Nat, (∀ d ∈ l, d < info.dim.toNat) → ∀ (id : Int) (r : NdRange),
      l.foldlM (blockRound64 info (clip info.dim range)) (id, clip info.dim r) =
        (l.foldlM (blockRound64 info range) (id, r)).map (Prod.map (fun i => i) (clip info.dim)) := by
    intro l
    induction l with
    | nil => exact fun _ _ _ => rfl
    | cons d l ih =>
      intro lt id r
      rw [foldlM_cons, foldlM_cons, blockRound64_clip (lt d mem_cons_self)]
      cases blockRound64 info range (id, r) d with
      | none => rfl
      | some s => exact ih (fun e he => lt e (mem_cons_of_mem d he)) s.1 s.2
  unfold taskRange64
  rw [rounds _ (fun d hd => mem_range.1 hd), Option.map_map, Option.map_map]
  rfl

end Clip

namespace Submission
variable {L : Submission} {callee : Callee} {range : NdRange} {t : Nat × Int} {storage : Storage}

lemma cut_congr {range' : NdRange} (same : clip L.info.dim range = clip L.info.dim range') :
    L.cut callee range t = L.cut callee range' t := by
  unfold cut
  rw [same]

lemma cut_eq : L.cut callee range t = (taskRange64 L.info range t.2).map fun r =>
    ⟨t.1, callee, clip L.info.dim r⟩ := by
  unfold cut
  rw [taskRange64_clip, Option.map_map]
  congr 1
  funext r
  show LoopCall.mk _ ⟨_, _⟩ = LoopCall.mk _ ⟨_, _⟩
  rw [clip_clip]

/-- The tasks a helper has to make. -/
def todo (L : Submission) : Helper → List (Nat × Int)
  | .waiting eid eidx => taskloopDispatch L.info eid eidx
  | .running _ todo => todo

/-- The call of a task as it was at the call. -/
def owed (L : Submission) (t : Nat × Int) : Option Call := (L.cut L.called L.range t).map (·.call)

/-- The calls made, those of the tasks made, and those of the tasks the helpers have to make are all that the
loop was to make, and the helpers read what was there at the call. -/
structure Inv (L : Submission) (all : List Call) (s : State) : Prop where
  defined : s.undefined = false
  kept : s.helpers ≠ [] → L.Kept s.helpers s.storage
  addr : ∀ a todo, .running a todo ∈ s.helpers → a = L.desc.range
  total : (s.calls.map some ++ s.tasks.map (fun t => some t.call) ++
    (s.helpers.flatMap L.todo).map L.owed).Perm (all.map some)

section Lists
variable {α β : Type*} {l : List α} {i : Nat} {a b : α} {f : α → List β}

lemma flatMap_at (h : l[i]? = some a) : (l.flatMap f).Perm (f a ++ (l.eraseIdx i).flatMap f) := by
  obtain ⟨lt, rfl⟩ := List.getElem?_eq_some_iff.1 h
  exact (getElem_cons_eraseIdx_perm lt).symm.flatMap_right f

lemma flatMap_set (h : l[i]? = some a) : ((l.set i b).flatMap f).Perm (f b ++ (l.eraseIdx i).flatMap f) := by
  obtain ⟨lt, rfl⟩ := List.getElem?_eq_some_iff.1 h
  exact (set_perm_cons_eraseIdx lt b).flatMap_right f

end Lists

section Steps
variable {all : List Call} {s s' : State} {i : Nat}

lemma Kept.mono {helpers helpers' : List Helper} (K : L.Kept helpers storage)
    (sub : ∀ eid eidx, .waiting eid eidx ∈ helpers' → .waiting eid eidx ∈ helpers) :
    L.Kept helpers' storage where
  addr := fun ⟨eid, eidx, mem⟩ => K.addr ⟨eid, eidx, sub eid eidx mem⟩
  callee := K.callee
  range := K.range

section
variable (I : L.Inv all s)
include I

lemma Inv.run {task : LoopCall} (h : s.tasks[i]? = some task) :
    L.Inv all { s with tasks := s.tasks.eraseIdx i, calls := s.calls ++ [task.call] } where
  defined := I.defined
  kept := I.kept
  addr := I.addr
  total := by
    obtain ⟨lt, rfl⟩ := List.getElem?_eq_some_iff.1 h
    have perm := (getElem_cons_eraseIdx_perm lt).map fun t : LoopCall => some t.call
    apply List.Perm.trans _ I.total
    apply List.Perm.append_right
    rw [map_append, append_assoc]
    exact perm.append_left _

lemma Inv.waiting {eid : Nat} {eidx : Int} (h : s.helpers[i]? = some (.waiting eid eidx)) :
    L.Inv all (L.helperStep s i (.waiting eid eidx)) := by
  have mem := mem_of_getElem? h
  have K := I.kept (ne_nil_of_mem mem)
  obtain ⟨desc, some, addr⟩ := Option.map_eq_some_iff.1 (K.addr ⟨eid, eidx, mem⟩)
  simp only [helperStep, some, addr]
  refine ⟨I.defined, fun _ => K.mono fun _ _ here => ?_, fun a todo here => ?_, ?_⟩
  · rcases mem_or_eq_of_mem_set here with here | eq
    · exact here
    · cases eq
  · rcases mem_or_eq_of_mem_set here with here | eq
    · exact I.addr a todo here
    · cases eq
      rfl
  · apply List.Perm.trans _ I.total
    apply List.Perm.append_left
    apply List.Perm.map
    exact (flatMap_set (f := L.todo) h).trans (flatMap_at (f := L.todo) h).symm

lemma Inv.done {addr : Nat} (h : s.helpers[i]? = some (.running addr [])) :
    L.Inv all (L.helperStep s i (.running addr [])) := by
  have K := I.kept (ne_nil_of_mem (mem_of_getElem? h))
  refine ⟨I.defined, fun _ => K.mono fun _ _ here => ?_, fun a todo here => ?_, ?_⟩
  · exact mem_of_mem_eraseIdx here
  · exact I.addr a todo (mem_of_mem_eraseIdx here)
  · apply List.Perm.trans _ I.total
    apply List.Perm.append_left
    apply List.Perm.map
    exact (flatMap_at (f := L.todo) h).symm

lemma Inv.make {addr : Nat} {t : Nat × Int} {todo : List (Nat × Int)}
    (h : s.helpers[i]? = some (.running addr (t :: todo))) :
    L.Inv all (L.helperStep s i (.running addr (t :: todo))) := by
  have mem := mem_of_getElem? h
  have K := I.kept (ne_nil_of_mem mem)
  obtain ⟨range, some, same⟩ := Option.map_eq_some_iff.1 K.range
  obtain rfl := I.addr _ _ mem
  have owes : (s.helpers.flatMap L.todo).map L.owed |>.Perm (L.owed t ::
      ((s.helpers.set i (.running L.desc.range todo)).flatMap L.todo).map L.owed) := by
    rw [← map_cons]
    apply List.Perm.map
    apply (flatMap_at (f := L.todo) h).trans
    exact (flatMap_set (f := L.todo) (b := .running L.desc.range todo) h).symm.cons t
  have isSome : L.owed t ∈ all.map Option.some := by
    apply I.total.subset
    apply mem_append_right
    exact owes.symm.subset mem_cons_self
  obtain ⟨call, -, eq⟩ := mem_map.1 isSome
  obtain ⟨task, made, rfl⟩ := Option.map_eq_some_iff.1 eq.symm
  rw [← cut_congr same] at made
  simp only [helperStep, K.callee, some, made]
  refine ⟨I.defined, fun _ => K.mono fun _ _ here => ?_, fun a todo here => ?_, ?_⟩
  · rcases mem_or_eq_of_mem_set here with here | eq
    · exact here
    · cases eq
  · rcases mem_or_eq_of_mem_set here with here | eq
    · exact I.addr a todo here
    · cases eq
      rfl
  · apply List.Perm.trans _ I.total
    rw [map_append, ← append_assoc, append_assoc]
    apply List.Perm.append_left
    rw [← eq] at owes
    exact owes.symm

lemma Inv.step {a : Label} (keeps : L.Keeps s a) (hs : L.machine.step s a = some s') : L.Inv all s' := by
  have go : ¬s.undefined = true := by simp [I.defined]
  unfold machine at hs
  simp only [if_neg go] at hs
  cases a with
  | write storage =>
    cases hs
    refine ⟨I.defined, fun some => ?_, I.addr, I.total⟩
    exact keeps.resolve_left some
  | helper i =>
    obtain ⟨h, at_, rfl⟩ := Option.map_eq_some_iff.1 hs
    match h with
    | .waiting eid eidx => exact I.waiting at_
    | .running addr [] => exact I.done at_
    | .running addr (t :: todo) => exact I.make at_
  | run i =>
    obtain ⟨task, at_, rfl⟩ := Option.map_eq_some_iff.1 hs
    exact I.run at_

lemma Inv.asSubmitted : AsSubmitted all s := by
  have some : ∀ l : List Call, (l.map Option.some).filterMap (fun c => c) = l := by
    intro l
    rw [filterMap_map]
    exact filterMap_some
  have perm := I.total.filterMap fun c => c
  simp only [filterMap_append, some] at perm
  refine ⟨I.defined, ?_, fun helpers tasks => ?_⟩
  · rw [append_assoc] at perm
    exact (sublist_append_left _ _).subperm.trans perm.subperm
  · simpa [helpers, tasks] using perm

end

end Steps

section Start
variable {E : Egroups} {graph : Bool} {desc : TaskloopDesc} {tasks : List LoopTask} {s : State}

def calls (L : Submission) (tasks : List LoopTask) : List Call :=
  tasks.map fun t => ⟨L.called, clip L.info.dim t.range⟩

lemma Of.owed (of : L.Of E graph desc) (created : graphAddTaskloop E true graph desc = .created tasks) :
    (taskloopTasks L.g L.info).map L.owed = (L.calls tasks).map some := by
  unfold graphAddTaskloop at created
  simp only [of.check, of.total] at created
  split at created
  · cases created
  · split at created
    · cases created
    · rename_i made
      cases created
      have made := mapM_eq_some.1 made
      have clipped := congrArg (List.map (Option.map fun t : LoopTask =>
        (⟨L.called, clip L.info.dim t.range⟩ : Call))) made
      rw [map_map, map_map] at clipped
      calc (taskloopTasks L.g L.info).map L.owed
          = (taskloopTasks L.g L.info).map _ := by
            apply map_congr_left
            intro t _
            unfold Submission.owed
            rw [cut_eq, Option.map_map]
            rw [Function.comp_apply, Option.map_map]
            rfl
        _ = _ := clipped
        _ = (L.calls tasks).map some := by
            unfold calls
            rw [map_map]
            rfl

lemma Inv.start (of : L.Of E graph desc) (created : graphAddTaskloop E true graph desc = .created tasks)
    (init : L.machine.init s) : L.Inv (L.calls tasks) s := by
  have owed := of.owed created
  obtain ⟨storage, hd, hr, begun⟩ := init
  unfold Submission.start at begun
  split at begun
  · rename_i linear
    rw [show taskloopTasks L.g L.info = taskloopLinear L.g L.info from if_pos linear] at owed
    obtain ⟨made, eq, rfl⟩ := Option.map_eq_some_iff.1 begun
    refine ⟨rfl, fun none => absurd rfl none, nofun, ?_⟩
    rw [← owed]
    show (_ ++ []).Perm _
    rw [append_nil]
    apply List.Perm.of_eq
    have eq := congrArg (List.map (Option.map LoopCall.call)) (mapM_eq_some.1 eq)
    rw [map_map, map_map] at eq
    exact eq.symm
  · rename_i concurrent
    rw [show taskloopTasks L.g L.info = taskloopConcurrent L.g L.info from if_neg concurrent] at owed
    cases begun
    refine ⟨rfl, fun _ => ⟨fun _ => ?_, ?_, ?_⟩, fun a todo mem => ?_, ?_⟩
    · simp only [hd, Option.map_some]
    · simp only [hd]
      unfold callee called
      cases L.lambda <;> rfl
    · simp only [hr, Option.map_some]
    · obtain ⟨x, -, eq⟩ := mem_map.1 mem
      cases eq
    · rw [← owed]
      apply List.Perm.of_eq
      show (L.helpers.flatMap L.todo).map L.owed = _
      unfold helpers
      rw [flatMap_map]
      rfl

/-- The tasks of a loop call its function on the blocks of its range as they were at the call, if the caller
keeps its storage as long as there are helpers. -/
theorem taskloop_asSubmitted (of : L.Of E graph desc) (created : graphAddTaskloop E true graph desc = .created tasks)
    (h : L.machine.Reach L.Keeps s) : AsSubmitted (L.calls tasks) s := by
  apply Inv.asSubmitted
  apply h.inv
  · intro s init
    exact Inv.start of created init
  · intro s a s' I keeps hs
    exact I.step keeps hs

end Start
end Submission

def oneGroups : Egroups :=
  Function.update (fun _ => ⟨.empty, .empty⟩) 0 ((egroupCreate 1 [0]).getD ⟨.empty, .empty⟩)

def fiveRange : NdRange := ⟨1, fun _ => ⟨0, 5, 1, 1⟩⟩

def fiveDesc : TaskloopDesc := ⟨3, some 7, 0, some fiveRange, some 0⟩

def fiveLoop : Submission where
  g := (oneGroups 0).cur
  range := fiveRange.set 0 ⟨0, 5, 1, 1⟩
  totalTasks := 5
  desc := ⟨7, 0, 100⟩
  lambda := none

def fiveTasks : List LoopTask :=
  match graphAddTaskloop oneGroups true true fiveDesc with
  | .created tasks => tasks
  | _ => []

lemma fiveLoop_of : fiveLoop.Of oneGroups true fiveDesc := ⟨rfl, rfl, fun _ => ⟨rfl, rfl⟩⟩

/-- What the loop returns with. -/
def fiveStart : State where
  storage := ⟨some ⟨7, 0, 100⟩, fun _ => some fiveLoop.range⟩
  helpers := [.waiting 0 0]
  tasks := []
  calls := []
  undefined := false

lemma fiveStart_init : fiveLoop.machine.init fiveStart := ⟨_, rfl, rfl, rfl⟩

/-- The caller leaves its storage alone as long as there are helpers. -/
def Untouched (s : State) : Label → Prop
  | .write _ => s.helpers = []
  | _ => True

instance (s : State) (a : Label) : Decidable (Untouched s a) :=
  match a with
  | .write _ => decidable_of_iff (s.helpers.isEmpty = true) isEmpty_iff
  | .helper _ => .isTrue trivial
  | .run _ => .isTrue trivial

lemma Untouched.keeps {L : Submission} {s : State} {a : Label} (free : Untouched s a) : L.Keeps s a := by
  cases a with
  | write storage => exact .inl free
  | helper i | run i => trivial

/-- The storage is destroyed when the helper has made the tasks. -/
theorem taskloop_asSubmitted_five : ∃ s, fiveLoop.machine.Reach fiveLoop.Keeps s ∧ s.calls.length = 5 ∧
    s.storage.desc.isNone ∧ AsSubmitted (fiveLoop.calls fiveTasks) s := by
  obtain ⟨s, h, hs⟩ := Machine.reach_of_run (M := fiveLoop.machine) (g := Untouched)
    (w := List.replicate 7 (.helper 0) ++ [.write ⟨none, fun _ => none⟩] ++ List.replicate 5 (.run 0))
    (P := fun s => s.calls.length == 5 && s.storage.desc.isNone) fiveStart_init (by decide)
  have reach : fiveLoop.machine.Reach fiveLoop.Keeps s := h.mono fun _ _ free => free.keeps
  simp only [Bool.and_eq_true, beq_iff_eq] at hs
  exact ⟨s, reach, hs.1, hs.2, Submission.taskloop_asSubmitted fiveLoop_of rfl reach⟩

/-- The range is moved before the helper reads it, and the tasks have the new range; the descriptor is
destroyed, and the helper reads it nevertheless. -/
theorem taskloop_moved : graphAddTaskloop oneGroups true true fiveDesc = .created fiveTasks ∧
    (∃ s, fiveLoop.machine.Reachable s ∧ s.calls.map (fun c => (c.range.ndRange 0).lower) = [10] ∧
      ¬AsSubmitted (fiveLoop.calls fiveTasks) s) ∧
    ∃ s, fiveLoop.machine.Reachable s ∧ s.undefined = true := by
  refine ⟨rfl, ?_, ?_⟩
  · obtain ⟨s, h, hs⟩ := Machine.reach_of_run (M := fiveLoop.machine) (g := fun _ _ => True)
      (w := [.write ⟨some ⟨7, 0, 100⟩, fun _ => some ⟨1, fun _ => ⟨10, 15, 1, 1⟩⟩⟩, .helper 0,
        .helper 0, .run 0]) (P := fun s => s.calls.map (fun c => (c.range.ndRange 0).lower) == [10])
      fiveStart_init (by decide)
    have moved := eq_of_beq hs
    refine ⟨s, h, moved, fun A => ?_⟩
    have within := map_subset (fun c : Call => (c.range.ndRange 0).lower) A.within.subset
    rw [moved] at within
    exact absurd (within mem_cons_self) (by decide)
  · obtain ⟨s, h, hs⟩ := Machine.reach_of_run (M := fiveLoop.machine) (g := fun _ _ => True)
      (w := [.write ⟨none, fun _ => none⟩, .helper 0]) (P := fun s => s.undefined)
      fiveStart_init (by decide)
    exact ⟨s, h, hs⟩

end Kupl.Taskloop
