import Kupl.Machine.Run
import Mathlib.Data.List.Nodup

/-!
# The life of the memory pool (`kupl_core.cpp`, `kupl_shm.cpp`, `kupl_mpool.cpp`)

The core and the shared memory use one pool. Each of them initialises it if it is not, and each of them finalises it
without asking for the other.

| source | here |
|---|---|
| `g_core_inited`, `g_shm_inited`, `g_mpool_inited` | `coreInited`, `shmInited`, `mpoolInited` |
| `kupl_init`, and where it goes to its labels `err_...` | `State.kuplInit`, `Outcome` |
| `kupl_fini` | `State.kuplFini` |
| `kupl_shm_init`, `kupl_shm_finalize` | `State.kuplShmInit`, `State.kuplShmFinalize` |
| `kupl_shm_final_cleanup` | `State.kuplShmFinalCleanup` |
| `kupl_mpool_init`, `kupl_mpool_fini` | `State.kuplMpoolInit`, `State.kuplMpoolFini` |
| `kupl_mem_fini`, `kupl_pf_fini` | `State.kuplMemFini`, `State.kuplPfFini` |
| `kupl_executor_module_init`, `kupl_executor_module_fini` | `State.startExecutors`, `State.kuplExecutorModuleFini` |
| `g_ult`; that `g_executor_count` is not 0 | `ult`; `executors` |
| `kupl_memory_alloc_inner`, ..., `kupl_memory_hbw_free_inner` | `State.alloc`, `State.free` |
| `kupl_hbw_free` | `State.hbwFree` |

The two functions that initialise are called through guards like `if (!g_core_inited && kupl_init() == KUPL_ERROR)`
only, so that each runs while its flag is not set. A call of the interface that comes to the pool behind such a guard is
two steps here. Some functions free without a guard: `kupl_egroup_destroy`, and `kupl_free` from the second call of a
thread on. The other modules are left out, but for what they free in the pool. A chunk is what the pool maps at a time;
which chunks without a buffer in use it unmaps when something is freed, or when it is finalised, depends on its lists
and is given with the step. After a use of the pool's tables while there are none (`crashed`) nothing happens any more.
`log` is for the observer only.
-/

namespace Kupl.Life
open List

/-- Who has a buffer: the graphs of `kupl_get_global_graph`, the parallel loops, the groups of the queues, the record of
a mapping, the caller of the core, a window; or `g_ult`; or nobody. -/
inductive Owner where
  | graph
  | pf
  | mt
  | mapping
  | object
  | window
  | ult
  | lost
  deriving DecidableEq

structure Buffer where
  id : Nat
  chunk : Nat
  owner : Owner

/-- What the pool sees: it is used, initialised or not; it is finalised, with a user left or without. -/
inductive Event where
  | use (inited : Bool)
  | fini (left : Bool)
  deriving DecidableEq

/-- The flags, whether there are executors, the buffers in use, the chunks that are mapped, and `g_ult`. -/
structure State where
  coreInited : Bool
  shmInited : Bool
  mpoolInited : Bool
  executors : Bool
  live : List Buffer
  mapped : Nat → Bool
  ult : Option Nat
  crashed : Bool
  log : List Event

/-- How `kupl_init` ends: it fails before the pool is there, in a module that has nothing in the pool, in `kupl_pf_init`
before `g_ult` is allocated, for want of memory for it, when the tasks of the loops are added or when the table of the
executor groups is made; or it is done. -/
inductive Outcome where
  | early
  | modules
  | loops
  | noUlt
  | sched (id chunk : Nat)
  | egroups (id chunk : Nat)
  | done (id chunk : Nat)

/-- Records of mappings that go leave their buffers to nobody. -/
def Buffer.leave (which : Nat → Bool) (b : Buffer) : Buffer :=
  if which b.id ∧ b.owner = .mapping then { b with owner := .lost } else b

namespace State
variable (s : State) (gives : Nat → Bool)

/-- The pool is used. -/
def use : State := { s with crashed := s.crashed || !s.mpoolInited, log := .use s.mpoolInited :: s.log }

/-- An allocation in some chunk, an old or a new one (C++ `kupl_memory_alloc_inner`). -/
def alloc (b : Buffer) : State :=
  if s.mpoolInited then { s.use with live := b :: s.live, mapped := Function.update s.mapped b.chunk true }
  else s.use

/-- No buffer in use lies in a chunk. -/
def empty (c : Nat) : Bool := s.live.all (·.chunk ≠ c)

/-- Some chunks without a buffer in use are unmapped (C++ `kupl_normal_free`, `kupl_normal_cleanup`). -/
def giveBack : State := { s with mapped := fun c => s.mapped c && !(gives c && s.empty c) }

/-- A buffer is freed (C++ `kupl_memory_free_inner`). -/
def free (id : Nat) : State :=
  if s.mpoolInited then { s.use with live := s.live.filter (·.id ≠ id) }.giveBack gives else s.use

/-- Without executors `kupl_get_executor_num` returns `-1`, and the free returns at once (C++ `kupl_hbw_free`). -/
def hbwFree (id : Nat) : State := if s.executors then s.free gives id else s

def idsOf (o : Owner) : List Nat := (s.live.filter (·.owner = o)).map (·.id)

/-- The buffers of an owner are freed with the ids that are kept with them. -/
def freeAll (o : Owner) : State := (s.idsOf o).foldl (fun s id => s.free gives id) s

def leave (which : Nat → Bool) : State := { s with live := s.live.map (Buffer.leave which) }

/-- (C++ `kupl_mpool_init`). -/
def kuplMpoolInit : State := { s with mpoolInited := true }

/-- (C++ `kupl_mpool_fini`); `left` says whether somebody uses the pool after that. -/
def kuplMpoolFini (left : Bool) : State :=
  if s.mpoolInited then { s.giveBack gives with mpoolInited := false, log := .fini left :: s.log } else s

/-- (C++ `kupl_global_ult_fini`); the pointer stays. -/
def kuplGlobalUltFini : State :=
  match s.ult with
  | none => s
  | some id => s.free gives id

/-- (C++ `kupl_pf_fini`). -/
def kuplPfFini : State := (s.freeAll gives .pf).kuplGlobalUltFini gives

/-- (C++ `kupl_mem_fini`). -/
def kuplMemFini : State :=
  ((s.idsOf .mapping).foldl (fun s id => s.hbwFree gives id) s).leave fun _ => true

/-- (C++ `kupl_executor_module_init`). -/
def startExecutors : State := { s with executors := true }

/-- (C++ `kupl_executor_module_fini`). -/
def kuplExecutorModuleFini : State := { s with executors := false }

/-- (C++ `kupl_memory_module_fini`). -/
def kuplMemoryModuleFini : State :=
  let s := s.kuplMemFini gives
  s.kuplMpoolFini gives s.shmInited

/-- The memory of the tasks of the loops (C++ `kupl_global_ult_init`). -/
def allocUlt (id chunk : Nat) : State := { s.alloc ⟨id, chunk, .ult⟩ with ult := some id }

/-- What `kupl_pf_init` has done when it fails. -/
def pfInitFailed : Outcome → State
  | .noUlt => ({ s.use with ult := none } : State).kuplPfFini gives
  -- `kupl_global_ult_init` gives the memory back and `kupl_pf_fini` does so again
  | .sched id chunk => ((s.allocUlt id chunk).kuplGlobalUltFini gives).kuplPfFini gives
  | .egroups id chunk => (s.allocUlt id chunk).kuplPfFini gives
  | _ => s.kuplPfFini gives

/-- (C++ `kupl_init`). -/
def kuplInit : Outcome → State
  | .early => s
  | .modules => s.kuplMpoolInit.kuplMemoryModuleFini gives
  | .done id chunk => { s.kuplMpoolInit.startExecutors.allocUlt id chunk with coreInited := true }
  | o => (s.kuplMpoolInit.startExecutors.pfInitFailed gives o).kuplExecutorModuleFini.kuplMemoryModuleFini gives

/-- (C++ `kupl_fini`). -/
def kuplFini : State :=
  if s.coreInited then
    let s := s.freeAll gives .graph
    let s := s.kuplPfFini gives
    let s := s.kuplExecutorModuleFini
    let s := s.freeAll gives .mt
    let s := s.kuplMpoolFini gives s.shmInited
    let s := s.kuplMemoryModuleFini gives
    { s with coreInited := false }
  else s

/-- (C++ `kupl_shm_init`): the flag is set whatever the back end's `init` returns; `ok` says whether the modules before
could be initialised. -/
def kuplShmInit (ok : Bool) : State := if ok then { s.kuplMpoolInit with shmInited := true } else s

/-- The memory of a window is freed, behind the guard of `kupl_get_executor_num` or by `kupl_free` without one. -/
def freeWindow (guard : Option Outcome) (id : Nat) : State :=
  match guard with
  | none => s.free gives id
  | some o =>
    if s.coreInited then s.free gives id
    else
      let s := s.kuplInit gives o
      if s.coreInited then s.free gives id else s

/-- (C++ `kupl_shm_final_cleanup`). -/
def kuplShmFinalCleanup (guard : Nat → Option Outcome) : State :=
  (s.idsOf .window).foldl (fun s id => s.freeWindow gives (guard id) id) s

/-- (C++ `kupl_shm_finalize`); `abnormal` is `g_is_abnormal_exit`. -/
def kuplShmFinalize (abnormal : Bool) (guard : Nat → Option Outcome) : State :=
  if s.shmInited then
    let s := if abnormal then s else s.kuplShmFinalCleanup gives guard
    let s := s.kuplMpoolFini gives s.coreInited
    { s with shmInited := false }
  else s

/-- The owner of a buffer is up. -/
def up : Owner → Bool
  | .window => s.shmInited
  | .lost => false
  | _ => s.coreInited

/-- Where the buffers of an owner are allocated: a window's are behind the guards of both. -/
def ready : Owner → Bool
  | .window => s.shmInited && s.coreInited
  | .ult | .lost => false
  | _ => s.coreInited

/-- Where a buffer can be freed, behind the guard of the core or without. -/
def frees (guarded : Bool) : Owner → Bool
  | .window => s.shmInited && (s.coreInited || !guarded)
  | .object => s.coreInited || !guarded
  | .ult | .lost => false
  | _ => s.coreInited

end State

/-- No buffer in use has some address. -/
def State.fresh (s : State) (id : Nat) : Bool := s.live.all (·.id ≠ id)

/-- The memory that an initialisation gets is not in use. -/
def State.admits (s : State) : Outcome → Bool
  | .sched id _ | .egroups id _ | .done id _ => s.fresh id
  | _ => true

/-- The calls that begin and end the lives of the two, and what they do in the pool meanwhile. A record of a mapping can
be replaced, and then nobody has its memory (C++ `mem_map`). -/
inductive Label where
  | init (o : Outcome) (gives : Nat → Bool)
  | fini (gives : Nat → Bool)
  | shmInit (ok : Bool)
  | shmFinalize (abnormal : Bool) (guard : Nat → Option Outcome) (gives : Nat → Bool)
  | alloc (id : Nat) (owner : Owner) (chunk : Option Nat)
  | free (id : Nat) (guarded : Bool) (gives : Nat → Bool)
  | replace (id : Nat)

def State.act (s : State) : Label → Option State
  | .init o gives => if s.coreInited = false ∧ s.admits o = true then some (s.kuplInit gives o) else none
  | .fini gives => some (s.kuplFini gives)
  | .shmInit ok => if s.shmInited then none else some (s.kuplShmInit ok)
  | .shmFinalize abnormal guard gives => some (s.kuplShmFinalize gives abnormal guard)
  | .alloc id o chunk =>
    if s.ready o then
      match chunk with
      | none => some s.use
      | some c => if s.fresh id then some (s.alloc ⟨id, c, o⟩) else none
    else none
  | .free id guarded gives =>
    match s.live.find? (·.id = id) with
    | none => none
    | some b => if s.frees guarded b.owner then some (s.free gives id) else none
  | .replace id =>
    if s.coreInited then some (s.leave (· = id)) else none

/-- A process that begins. -/
def State.Init (s : State) : Prop :=
  s.coreInited = false ∧ s.shmInited = false ∧ s.mpoolInited = false ∧ s.executors = false ∧ s.live = [] ∧
    s.ult = none ∧ s.crashed = false ∧
    s.log = []

def machine : Machine State Label where
  init := State.Init
  step s a := if s.crashed then none else s.act a

/-- What should be seen of the pool: it is initialised whenever it is used, and no user is left when it is finalised. -/
def Event.Fine : Event → Prop
  | .use inited => inited = true
  | .fini left => left = false

/-- All that was seen of the pool is fine, and no buffer of an owner who is up is unmapped. -/
structure State.Good (s : State) : Prop where
  log : ∀ e ∈ s.log, e.Fine
  mapped : ∀ b ∈ s.live, s.up b.owner = true → s.mapped b.chunk = true

/-- The initialisation comes to the pool and fails after that. -/
def Outcome.Undone : Outcome → Prop
  | .early | .done _ _ => False
  | _ => True

/-- Initialisations that fail after the pool is there, and finalisations, come when the other user is down; and no
buffer is freed without a guard when both are down. -/
def Orderly (s : State) : Label → Prop
  | .init o _ => o.Undone → s.shmInited = false
  | .fini _ => s.coreInited = true → s.shmInited = false
  | .shmFinalize .. => s.shmInited = true → s.coreInited = false
  | .free _ guarded _ => guarded = false → s.coreInited = true ∨ s.shmInited = true
  | _ => True

variable {s s' s'' : State} {gives : Nat → Bool} {id : Nat} {o : Owner}

def State.Fine (s : State) : Prop := ∀ e ∈ s.log, e.Fine

/-- Every buffer in use is mapped. -/
def State.Kept (s : State) : Prop := ∀ b ∈ s.live, s.mapped b.chunk = true

lemma State.fine_cons {e : Event} : ({ s with log := e :: s.log } : State).Fine ↔ e.Fine ∧ s.Fine :=
  forall_mem_cons

/-- What some uses of the pool do: buffers go or are lost, and the flags stay. -/
structure Uses (s s' : State) : Prop where
  core : s'.coreInited = s.coreInited
  shm : s'.shmInited = s.shmInited
  pool : s'.mpoolInited = s.mpoolInited
  executors : s'.executors = s.executors
  ult : s'.ult = s.ult
  live : ∀ b ∈ s'.live, b.owner ≠ .lost → b ∈ s.live
  ids : (s'.live.map (·.id)).Sublist (s.live.map (·.id))
  kept : s.Kept → s'.Kept
  old : s'.Fine → s.Fine
  fine : s.mpoolInited = true → s.Fine → s'.Fine
  crashed : s.mpoolInited = true → s'.crashed = s.crashed

namespace Uses

lemma refl (s : State) : Uses s s := ⟨rfl, rfl, rfl, rfl, rfl, fun _ h _ => h, .refl _, id,
    id, fun _ h => h, fun _ => rfl⟩

lemma trans (h : Uses s s') (h' : Uses s' s'') : Uses s s'' where
  core := h'.core.trans h.core
  shm := h'.shm.trans h.shm
  pool := h'.pool.trans h.pool
  executors := h'.executors.trans h.executors
  ult := h'.ult.trans h.ult
  live b mem own := h.live b (h'.live b mem own) own
  ids := h'.ids.trans h.ids
  kept k := h'.kept (h.kept k)
  old f := h.old (h'.old f)
  fine up f := h'.fine (h.pool.trans up) (h.fine up f)
  crashed up := (h'.crashed (h.pool.trans up)).trans (h.crashed up)

end Uses

namespace State

lemma use_fine : s.use.Fine ↔ s.mpoolInited = true ∧ s.Fine := fine_cons (e := .use s.mpoolInited)

lemma use_uses (s : State) : Uses s s.use where
  core := rfl
  shm := rfl
  pool := rfl
  executors := rfl
  ult := rfl
  live _ h _ := h
  ids := .refl _
  kept h := h
  old h := (use_fine.1 h).2
  fine up h := use_fine.2 ⟨up, h⟩
  crashed up := by
    show (s.crashed || !s.mpoolInited) = s.crashed
    rw [up, Bool.not_true, Bool.or_false]

lemma Kept.giveBack (K : s.Kept) : (s.giveBack gives).Kept := by
  intro b mem
  have used : s.empty b.chunk = false := by
    rw [empty, all_eq_false]
    exact ⟨b, mem, by simp⟩
  show (s.mapped b.chunk && !(gives b.chunk && s.empty b.chunk)) = true
  rw [used, Bool.and_false, Bool.not_false, Bool.and_true]
  exact K b mem

lemma free_fine : (s.free gives id).Fine ↔ s.mpoolInited = true ∧ s.Fine := by
  unfold free
  split
  · exact use_fine
  · exact use_fine

lemma free_uses (s : State) (gives : Nat → Bool) (id : Nat) : Uses s (s.free gives id) := by
  have U := s.use_uses
  unfold free
  split
  · refine ⟨U.core, U.shm, U.pool, U.executors, U.ult, fun b mem _ => (mem_filter.1 mem).1,
      filter_sublist.map _, fun K => ?_, U.old, U.fine, U.crashed⟩
    apply Kept.giveBack
    intro b mem
    exact K b (mem_filter.1 mem).1
  · exact U

lemma uses_foldl {f : State → Nat → State} (each : ∀ s id, Uses s (f s id)) (l : List Nat) (s : State) :
    Uses s (l.foldl f s) := by
  induction l generalizing s with
  | nil => exact .refl s
  | cons id l ih => exact (each s id).trans (ih _)

lemma freeAll_uses (s : State) (gives : Nat → Bool) (o : Owner) : Uses s (s.freeAll gives o) :=
  uses_foldl (fun s id => s.free_uses gives id) _ s

lemma leave_cases (which : Nat → Bool) (b : Buffer) :
    (b.leave which).id = b.id ∧ (b.leave which).chunk = b.chunk ∧
      (b.leave which = b ∨ b.owner = .mapping ∧ (b.leave which).owner = .lost) := by
  unfold Buffer.leave
  split
  · rename_i h
    exact ⟨rfl, rfl, .inr ⟨h.2, rfl⟩⟩
  · exact ⟨rfl, rfl, .inl rfl⟩

lemma leave_uses (s : State) (which : Nat → Bool) : Uses s (s.leave which) := by
  refine ⟨rfl, rfl, rfl, rfl, rfl, fun b mem own => ?_, ?_, fun K b mem => ?_, id, fun _ h => h, fun _ => rfl⟩
  · obtain ⟨c, memC, rfl⟩ := mem_map.1 mem
    obtain same | ⟨-, lost⟩ := (leave_cases which c).2.2
    · rw [same]
      exact memC
    · exact absurd lost own
  · have ids : (fun b : Buffer => b.id) ∘ Buffer.leave which = fun b => b.id :=
      funext fun b => (leave_cases which b).1
    rw [leave, map_map, ids]
  · obtain ⟨c, memC, rfl⟩ := mem_map.1 mem
    rw [(leave_cases which c).2.1]
    exact K c memC

lemma kuplMemFini_uses (s : State) (gives : Nat → Bool) : Uses s (s.kuplMemFini gives) := by
  refine .trans (uses_foldl (fun s id => ?_) _ s) (leave_uses _ _)
  unfold hbwFree
  split
  · exact s.free_uses gives id
  · exact .refl s

/-- Without executors the memory of the mappings is not freed. -/
lemma kuplMemFini_gone (gone : s.executors = false) : s.kuplMemFini gives = s.leave fun _ => true := by
  have skip l : List.foldl (fun s id => s.hbwFree gives id) s l = s := by
    induction l with
    | nil => rfl
    | cons id l ih =>
      have same : s.hbwFree gives id = s := by
        rw [hbwFree, gone]
        rfl
      rw [foldl_cons, same, ih]
  rw [kuplMemFini, skip]

lemma kuplGlobalUltFini_uses (s : State) (gives : Nat → Bool) : Uses s (s.kuplGlobalUltFini gives) := by
  unfold kuplGlobalUltFini
  cases s.ult with
  | none => exact .refl s
  | some id => exact s.free_uses gives id

lemma kuplPfFini_uses (s : State) (gives : Nat → Bool) : Uses s (s.kuplPfFini gives) :=
  (s.freeAll_uses gives .pf).trans (kuplGlobalUltFini_uses _ gives)

/-- The pool is finalised; `left` says who is still there. -/
structure Ends (s s' : State) (left : Bool) : Prop where
  core : s'.coreInited = s.coreInited
  shm : s'.shmInited = s.shmInited
  pool : s'.mpoolInited = false
  executors : s'.executors = s.executors
  live : ∀ b ∈ s'.live, b.owner ≠ .lost → b ∈ s.live
  ids : (s'.live.map (·.id)).Sublist (s.live.map (·.id))
  kept : s.Kept → s'.Kept
  fine : s'.Fine ↔ left = false ∧ s.Fine
  crashed : s'.crashed = s.crashed

lemma kuplMpoolFini_ends {left : Bool} (up : s.mpoolInited = true) : Ends s (s.kuplMpoolFini gives left) left := by
  rw [kuplMpoolFini, if_pos up]
  exact ⟨rfl, rfl, rfl, rfl, fun _ h _ => h, .refl _, fun K => K.giveBack, fine_cons (e := .fini left), rfl⟩

lemma kuplMpoolFini_down {left : Bool} (down : s.mpoolInited = false) : s.kuplMpoolFini gives left = s := by
  rw [kuplMpoolFini, if_neg]
  rw [down]
  exact Bool.false_ne_true

lemma Ends.of_uses {left : Bool} (U : Uses s s') (up : s.mpoolInited = true) (E : Ends s' s'' left) :
    Ends s s'' left where
  core := E.core.trans U.core
  shm := E.shm.trans U.shm
  pool := E.pool
  executors := E.executors.trans U.executors
  live b mem own := U.live b (E.live b mem own) own
  ids := E.ids.trans U.ids
  kept K := E.kept (U.kept K)
  fine := E.fine.trans (and_congr_right fun _ => ⟨U.old, U.fine up⟩)
  crashed := E.crashed.trans (U.crashed up)

lemma kuplMemoryModuleFini_ends (up : s.mpoolInited = true) : Ends s (s.kuplMemoryModuleFini gives) s.shmInited := by
  have U := s.kuplMemFini_uses gives
  rw [kuplMemoryModuleFini, U.shm]
  exact .of_uses U up (kuplMpoolFini_ends (U.pool.trans up))

lemma free_keeps {b : Buffer} (mem : b ∈ s.live) (ne : b.id ≠ id) : b ∈ (s.free gives id).live := by
  unfold free
  split
  · exact mem_filter.2 ⟨mem, by simpa using ne⟩
  · exact mem

end State
end Kupl.Life
