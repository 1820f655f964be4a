import Kupl.Sched.Ledger
import Kupl.Sched.Plugins

/-!
# Tasks that are handed to a scheduler

Where the tasks are that were handed to `kupl_sched_add_tb` and not invoked yet: in the hands of the thread
that is adding them, or in one of the queues. `Effect` lists what a step does to them.
-/

namespace Kupl.Sched
open Kupl.Ring List
open Function (update update_eq_self update_of_ne update_self)

variable {n m : Nat} {τ : Type}

/-- The task that a call is about to put somewhere. -/
def Frame.hand : Frame n m → List Taskbase
  | .add tb _ => [tb]
  | _ => []

def hands (fs : List (Frame n m)) : List Taskbase := fs.flatMap Frame.hand

def Frame.IsBody : Frame n m → Prop
  | .body _ => True
  | _ => False

lemma hands_bodies {fs : List (Frame n m)} (h : ∀ f ∈ fs, f.IsBody) : hands fs = [] := by
  apply flatMap_eq_nil_iff.2
  intro f mem
  cases f with
  | body tb => rfl
  | add _ _ | get _ _ _ => exact (h _ mem).elim

namespace Config
variable (c : Config n m τ)

/-- The sources that an executor looks at before it steals. -/
def ownSources (own : Fin n) : List (Source n m) :=
  match c.plugin with
  | .mq => c.popOneTb own ++ (c.placeQueues own).map .store
  | .staticMq => c.popOneTb own

/-- A queue that some executor looks at. -/
def Reads (x : Store n m) : Prop := ∃ e, .store x ∈ c.ownSources e

/-- A task for which the queues are responsible: with hybrid, not one of the outer level. -/
def Scheduled (tb : Taskbase) : Prop := ¬(c.hybrid ∧ tb.Outer)

instance (tb : Taskbase) : Decidable (c.Scheduled tb) := inferInstanceAs (Decidable ¬_)

lemma reads_local (e : Fin n) : c.Reads (.queue (.inl e)) := by
  refine ⟨e, ?_⟩
  have one : .store (.queue (.inl e)) ∈ c.popOneTb e := by
    unfold popOneTb
    split <;> simp
  unfold ownSources
  split
  · exact mem_append_left _ one
  · exact one

lemma reads_prio (own : Fin n) (h : c.enablePriority = true) : c.Reads .prio := by
  refine ⟨own, ?_⟩
  have one : .store .prio ∈ c.popOneTb own := by
    rw [popOneTb, if_pos h]
    exact mem_cons_self
  unfold ownSources
  split
  · exact mem_append_left _ one
  · exact one

lemma outer_not_mem (own : Fin n) : .outer ∉ c.popOneTb own ∧ .outer ∉ c.pluginGetTb own := by
  have one : .outer ∉ c.popOneTb own := by
    unfold popOneTb
    split <;> simp
  refine ⟨one, ?_⟩
  unfold pluginGetTb
  split
  · unfold mqGetTb
    split <;> simp [one]
  · exact one

lemma pluginAddTb_reads {own : Option (Fin n)} {tb : Taskbase} {a : Target n m}
    (mem : a ∈ c.pluginAddTb own tb) : ∃ x, a = .store x ∧ c.Reads x := by
  have priority (own : Fin n) (h : c.isPriority tb = true) : c.Reads .prio :=
    c.reads_prio own (Bool.and_eq_true_iff.1 h).1
  unfold pluginAddTb at mem
  split at mem
  · cases mem
  · rename_i own
    split at mem
    · rename_i isMq
      have place (mem : a ∈ (c.placeQueues own).map Target.store) : ∃ x, a = .store x ∧ c.Reads x := by
        obtain ⟨x, isPlace, rfl⟩ := mem_map.1 mem
        refine ⟨x, rfl, own, ?_⟩
        rw [ownSources, isMq]
        exact mem_append_right _ (mem_map_of_mem isPlace)
      unfold mqAddTb at mem
      split at mem
      · exact place mem
      · split at mem
        · rename_i h
          exact ⟨.prio, mem_singleton.1 mem, priority own h⟩
        · obtain rfl | mem := mem_cons.1 mem
          · exact ⟨_, rfl, c.reads_local _⟩
          · exact place mem
    · unfold staticMqAddTb at mem
      split at mem
      · rename_i h
        exact ⟨.prio, mem_singleton.1 mem, priority own h⟩
      · exact ⟨_, mem_singleton.1 mem, c.reads_local _⟩

end Config

namespace Scheduler
variable (c : Config n m τ) (s : Scheduler n m τ)

/-- What is in the hands of a thread, or in a queue. -/
def holds : τ ⊕ Store n m → List Taskbase
  | .inl t => hands (s.stack t)
  | .inr .prio => s.prio.all
  | .inr (.queue q) => contents (s.queue q)

/-- The queue is looked at, the level of hybrid that it is in as well. -/
def Readable (x : Store n m) : Prop := c.Reads x ∧ (c.hybrid = true → s.innerUsing = true)

def MayPut (tb : Taskbase) : Target n m → Prop
  | .store x => s.Readable c x
  | .slot _ => c.hybrid = true ∧ tb.Outer

def StackOk : List (Frame n m) → Prop
  | [] => True
  | .add tb targets :: rest => (∀ a ∈ targets, s.MayPut c tb a) ∧ ∀ f ∈ rest, f.IsBody
  | .get _ sources _ :: rest => (.outer ∈ sources → c.hybrid = true) ∧ ∀ f ∈ rest, f.IsBody
  | .body _ :: rest => ∀ f ∈ rest, f.IsBody

/-- The invariant of a scheduler. -/
structure Inv : Prop where
  queues : ∀ q, Held (s.queue q)
  prio : s.prio.Sound
  slots : ∀ e tb, s.slot e = some tb → tb.Outer
  frames : ∀ t, s.StackOk c (s.stack t)
  stores : ∀ x, s.holds (.inr x) ≠ [] → s.Readable c x

/-- What a step does to the tasks: none of them moves, a thread takes one in its hands or invokes it at once,
puts it in a queue, finds that it is refused and invokes it, takes one from a queue and invokes it; or it
puts one of the outer level of hybrid in its slot, or invokes one of these. -/
inductive Effect (s s' : Scheduler n m τ) : Prop where
  | stays (handed : s'.handed = s.handed) (invoked : s'.invoked = s.invoked) (h : Stays s.holds s'.holds)
  | handed (t : τ) (tb : Taskbase) (handed : s'.handed = s.handed ++ [tb]) (invoked : s'.invoked = s.invoked)
      (h : Enters tb (.inl t) s.holds s'.holds)
  | atOnce (tb : Taskbase) (handed : s'.handed = s.handed ++ [tb]) (invoked : s'.invoked = s.invoked ++ [tb])
      (h : Stays s.holds s'.holds)
  | put (t : τ) (tb : Taskbase) (x : Store n m) (handed : s'.handed = s.handed)
      (invoked : s'.invoked = s.invoked) (h : Kupl.Sched.Moves tb (.inl t) (.inr x) s.holds s'.holds)
  | refused (t : τ) (tb : Taskbase) (handed : s'.handed = s.handed) (invoked : s'.invoked = s.invoked ++ [tb])
      (h : Leaves tb (.inl t) s.holds s'.holds)
  | taken (x : Store n m) (tb : Taskbase) (handed : s'.handed = s.handed)
      (invoked : s'.invoked = s.invoked ++ [tb]) (h : Leaves tb (.inr x) s.holds s'.holds)
  | slot (t : τ) (tb : Taskbase) (outer : c.hybrid = true ∧ tb.Outer) (handed : s'.handed = s.handed)
      (invoked : s'.invoked = s.invoked) (h : Leaves tb (.inl t) s.holds s'.holds)
  | loop (tb : Taskbase) (outer : c.hybrid = true ∧ tb.Outer) (handed : s'.handed = s.handed)
      (invoked : s'.invoked = s.invoked ++ [tb]) (h : Stays s.holds s'.holds)

variable {c s} {s' : Scheduler n m τ} {t : τ} {tb : Taskbase} {own : Fin n} {victim : Option (Fin n)}
  {fs rest : List (Frame n m)} {sources : List (Source n m)}

section Holds
variable [DecidableEq τ]

@[simp] lemma holds_setStack : (s.setStack t fs).holds = update s.holds (.inl t) (hands fs) := by
  funext p
  rcases p with u | _ | q
  · by_cases same : u = t
    · subst same
      simp [holds, setStack]
    · have ne : (.inl u : τ ⊕ Store n m) ≠ .inl t := fun e => same (Sum.inl.inj e)
      rw [update_of_ne ne]
      simp [holds, setStack, update_of_ne same]
  · rfl
  · rfl

@[simp] lemma holds_setFull {b : Bool} : (s.setFull t b).holds = s.holds := by
  funext p
  rcases p with u | _ | q <;> rfl

@[simp] lemma holds_setPrio {p : PriorityQueue Taskbase} : (s.setPrio p).holds = update s.holds (.inr .prio) p.all := by
  funext p
  rcases p with u | _ | q <;> rfl

@[simp] lemma holds_setQueue {q : QueueId n m} {v : KuplVector Taskbase} :
    (s.setQueue q v).holds = update s.holds (.inr (.queue q)) (contents v) := by
  funext p
  rcases p with u | _ | r
  · rfl
  · rfl
  · by_cases same : r = q
    · subst same
      simp [holds, setQueue]
    · have ne : (.inr (.queue r) : τ ⊕ Store n m) ≠ .inr (.queue q) := fun e =>
        same (Store.queue.inj (Sum.inr.inj e))
      rw [update_of_ne ne]
      simp [holds, setQueue, update_of_ne same]

@[simp] lemma holds_invoke : (s.invoke t tb rest).holds = update s.holds (.inl t) (hands rest) := by
  have same : (s.invoke t tb rest).holds = (s.setStack t (.body tb :: rest)).holds := by
    funext p
    rcases p with u | _ | q <;> rfl
  rw [same, holds_setStack]
  rfl

omit [DecidableEq τ] in
@[simp] lemma holds_steal {found : Option (Fin n)} : (s.steal own victim found).holds = s.holds := by
  cases victim with
  | none => rfl
  | some _ => funext p; rcases p with u | _ | q <;> rfl

@[simp] lemma holds_found : (s.found t own victim tb rest).holds = update s.holds (.inl t) (hands rest) := by
  rw [found, holds_invoke, holds_setFull, holds_steal]

end Holds

section Keeps

lemma Inv.same (I : s.Inv c) (queue : s'.queue = s.queue) (prio : s'.prio = s.prio) (slot : s'.slot = s.slot)
    (frames : s'.stack = s.stack) (grows : s.innerUsing = true → s'.innerUsing = true) : s'.Inv c := by
  have same : s'.holds = s.holds := by
    funext p
    rcases p with u | _ | q
    · rw [holds, holds, frames]
    · rw [holds, holds, prio]
    · rw [holds, holds, queue]
  have read (x : Store n m) (h : s.Readable c x) : s'.Readable c x := ⟨h.1, fun e => grows (h.2 e)⟩
  refine ⟨?_, ?_, ?_, fun t => ?_, fun x => ?_⟩
  · rw [queue]
    exact I.queues
  · rw [prio]
    exact I.prio
  · rw [slot]
    exact I.slots
  · rw [frames]
    have ok := I.frames t
    generalize s.stack t = fs at ok ⊢
    cases fs with
    | nil => trivial
    | cons f rest =>
      cases f with
      | add tb targets =>
        refine ⟨fun a mem => ?_, ok.2⟩
        have may := ok.1 a mem
        cases a with
        | store x => exact read x may
        | slot _ => exact may
      | get _ _ _ | body _ => exact ok
  · rw [same]
    exact fun ne => read x (I.stores x ne)

lemma Inv.steal (I : s.Inv c) {found : Option (Fin n)} : (s.steal own victim found).Inv c := by
  cases victim with
  | none => exact I
  | some _ => exact I.same rfl rfl rfl rfl id

lemma Inv.setPrio (I : s.Inv c) {p : PriorityQueue Taskbase} (S : p.Sound)
    (read : p.all ≠ [] → s.Readable c .prio) : (s.setPrio p).Inv c := by
  refine ⟨I.queues, S, I.slots, I.frames, fun x ne => ?_⟩
  cases x with
  | prio => exact read ne
  | queue q => exact I.stores (.queue q) ne

lemma stackOk_bodies (bodies : ∀ f ∈ rest, f.IsBody) : s.StackOk c rest := by
  cases rest with
  | nil => trivial
  | cons f rest =>
    obtain ⟨isBody, others⟩ := forall_mem_cons.1 bodies
    cases f with
    | body _ => exact others
    | add _ _ | get _ _ _ => exact isBody.elim

lemma Inv.setSlot (I : s.Inv c) {e : Fin n} (outer : tb.Outer) :
    Inv c { s with slot := update s.slot e (some tb) } := by
  refine ⟨I.queues, I.prio, fun d x eq => ?_, I.frames, fun x ne => ?_⟩
  · have eq : update s.slot e (some tb) d = some x := eq
    by_cases same : d = e
    · subst same
      rw [update_self] at eq
      cases eq
      exact outer
    · rw [update_of_ne same] at eq
      exact I.slots d x eq
  · apply I.stores x
    cases x <;> exact ne

lemma Inv.bodies (I : s.Inv c) (free : s.Free t) : ∀ f ∈ s.stack t, f.IsBody := by
  have ok := I.frames t
  unfold Free at free
  split at free
  · rename_i e
    rw [e]
    intro _ mem
    cases mem
  · rename_i tb rest e
    rw [e] at ok ⊢
    exact forall_mem_cons.2 ⟨trivial, ok⟩
  · exact free.elim

variable [DecidableEq τ]

lemma Inv.setStack (I : s.Inv c) (ok : s.StackOk c fs) : (s.setStack t fs).Inv c := by
  refine ⟨I.queues, I.prio, I.slots, fun u => ?_, fun x ne => ?_⟩
  · by_cases same : u = t
    · subst same
      show s.StackOk c (update s.stack u fs u)
      rw [update_self]
      exact ok
    · show s.StackOk c (update s.stack t fs u)
      rw [update_of_ne same]
      exact I.frames u
  · apply I.stores x
    cases x <;> exact ne

lemma Inv.setFull (I : s.Inv c) {b : Bool} : (s.setFull t b).Inv c := I.same rfl rfl rfl rfl id

lemma Inv.setQueue (I : s.Inv c) {q : QueueId n m} {v : KuplVector Taskbase} (H : Held v)
    (read : contents v ≠ [] → s.Readable c (.queue q)) : (s.setQueue q v).Inv c := by
  refine ⟨fun r => ?_, I.prio, I.slots, I.frames, fun x ne => ?_⟩
  · by_cases same : r = q
    · subst same
      show Held (update s.queue r v r)
      rw [update_self]
      exact H
    · show Held (update s.queue q v r)
      rw [update_of_ne same]
      exact I.queues r
  · rw [holds_setQueue] at ne
    by_cases same : x = .queue q
    · subst same
      rw [update_self] at ne
      exact read ne
    · have other : (.inr x : τ ⊕ Store n m) ≠ .inr (.queue q) := fun e => same (Sum.inr.inj e)
      rw [update_of_ne other] at ne
      exact I.stores x ne

lemma Inv.invoke (I : s.Inv c) (bodies : ∀ f ∈ rest, f.IsBody) : (s.invoke t tb rest).Inv c := by
  have J : (s.setStack t (.body tb :: rest)).Inv c := I.setStack bodies
  exact J.same rfl rfl rfl rfl id

lemma Inv.found (I : s.Inv c) (bodies : ∀ f ∈ rest, f.IsBody) : (s.found t own victim tb rest).Inv c :=
  I.steal.setFull.invoke bodies

end Keeps

section Steps
variable [DecidableEq τ]

lemma kuplSchedAddTb_ok (I : s.Inv c) (free : s.Free t) :
    (s.kuplSchedAddTb c t tb).Inv c ∧ Effect c s (s.kuplSchedAddTb c t tb) := by
  have bodies := I.bodies free
  unfold kuplSchedAddTb
  split
  · have J : Inv c { s with handed := s.handed ++ [tb] } := I.same rfl rfl rfl rfl id
    refine ⟨J.invoke bodies, .atOnce tb rfl rfl ?_⟩
    rw [holds_invoke]
    exact stays_update (.refl _)
  · have grows : s.innerUsing = true → (useLevel { s with handed := s.handed ++ [tb] } tb).innerUsing = true := by
      intro h
      unfold useLevel
      split
      · exact h
      · rfl
    have J : (useLevel { s with handed := s.handed ++ [tb] } tb).Inv c := by
      unfold useLevel at grows ⊢
      split
      · exact I.same rfl rfl rfl rfl id
      · exact I.same rfl rfl rfl rfl fun _ => rfl
    have may : ∀ a ∈ c.hybridAddTb (c.own t) tb, (useLevel { s with handed := s.handed ++ [tb] } tb).MayPut c tb
      a := by
      intro a mem
      unfold Config.hybridAddTb at mem
      split at mem
      · rename_i outer
        unfold Config.sspeAddTb at mem
        split at mem
        · cases mem
        · rw [mem_singleton.1 mem]
          exact outer
      · rename_i inner
        obtain ⟨x, rfl, reads⟩ := c.pluginAddTb_reads mem
        refine ⟨reads, fun h => ?_⟩
        rw [useLevel, if_neg fun outer => inner ⟨h, outer⟩]
    refine ⟨J.setStack ⟨may, bodies⟩, ?_⟩
    have same : (useLevel { s with handed := s.handed ++ [tb] } tb).holds = s.holds ∧
        (useLevel { s with handed := s.handed ++ [tb] } tb).handed = s.handed ++ [tb] ∧
        (useLevel { s with handed := s.handed ++ [tb] } tb).invoked = s.invoked := by
      unfold useLevel
      split <;> exact ⟨rfl, rfl, rfl⟩
    refine .handed t tb same.2.1 same.2.2 ?_
    rw [holds_setStack, same.1]
    exact enters_update (.refl _)

lemma addStep_ok (I : s.Inv c) {targets : List (Target n m)} (top : s.stack t = .add tb targets :: rest) :
    (s.addStep t tb rest targets).Inv c ∧ Effect c s (s.addStep t tb rest targets) := by
  have ok := I.frames t
  rw [top] at ok
  obtain ⟨may, bodies⟩ := ok
  have mine : s.holds (.inl t) = tb :: hands rest := by
    rw [holds, top]
    rfl
  have kept (targets : List (Target n m)) : hands (.add tb targets :: rest) = s.holds (.inl t) := mine.symm
  cases targets with
  | nil =>
    refine ⟨I.setFull.invoke bodies, .refused t tb rfl rfl ?_⟩
    rw [addStep, holds_invoke, holds_setFull]
    apply leaves_update
    rw [mine]
  | cons a targets =>
    have next : (s.setStack t (.add tb targets :: rest)).Inv c ∧
        Effect c s (s.setStack t (.add tb targets :: rest)) := by
      refine ⟨I.setStack ⟨fun a mem => may a (mem_cons_of_mem _ mem), bodies⟩, .stays rfl rfl ?_⟩
      rw [holds_setStack, kept]
      exact stays_update (.refl _)
    have here := may a mem_cons_self
    rcases a with (_ | q) | e
    · simp only [addStep]
      split
      · rename_i p ep
        obtain ⟨S, perm⟩ := PriorityQueue.priorityQueueAddTb_ok I.prio ep
        have J : ((s.setPrio p).setStack t rest).Inv c := (I.setPrio S fun _ => here).setStack (stackOk_bodies bodies)
        refine ⟨J, .put t tb .prio rfl rfl ?_⟩
        rw [holds_setStack, holds_setPrio]
        apply moves_update Sum.inl_ne_inr
        · rw [mine]
        · exact perm
      · exact next
    · simp only [addStep]
      split
      · rename_i v ev
        obtain ⟨H, more⟩ := queueAddTb_ok (I.queues q) ev
        have J : ((s.setQueue q v).setStack t rest).Inv c :=
          (I.setQueue H fun _ => here).setStack (stackOk_bodies bodies)
        refine ⟨J, .put t tb (.queue q) rfl rfl ?_⟩
        rw [holds_setStack, holds_setQueue]
        apply moves_update Sum.inl_ne_inr
        · rw [mine]
        · rw [more]
          exact perm_append_singleton _ _
      · exact next
    · have K : (s.setStack t rest).Inv c := I.setStack (stackOk_bodies bodies)
      have J := K.setSlot (e := e) here.2
      refine ⟨J, .slot t tb here rfl rfl ?_⟩
      show Leaves tb (.inl t) s.holds (s.setStack t rest).holds
      rw [holds_setStack]
      apply leaves_update
      rw [mine]

lemma found_taken (top : s.stack t = .get own sources victim :: rest) (bodies : ∀ f ∈ rest, f.IsBody)
    {x : Store n m} {v : List Taskbase} {u : Scheduler n m τ} (J : u.Inv c)
    (handed : u.handed = s.handed) (invoked : u.invoked = s.invoked)
    (holds' : u.holds = update s.holds (.inr x) v) (front : (s.holds (.inr x)).Perm (tb :: v)) :
    (u.found t own victim tb rest).Inv c ∧ Effect c s (u.found t own victim tb rest) := by
  have steal : (u.steal own victim victim).handed = u.handed ∧ (u.steal own victim victim).invoked = u.invoked := by
    cases victim <;> exact ⟨rfl, rfl⟩
  refine ⟨J.found bodies, .taken x tb (steal.1.trans handed) ?_ ?_⟩
  · show (u.steal own victim victim).invoked ++ [tb] = _
    rw [steal.2, invoked]
  · have same : u.holds (.inl t) = hands rest := by
      rw [holds', update_of_ne Sum.inl_ne_inr, holds, top]
      rfl
    rw [holds_found, ← same, update_eq_self, holds']
    exact leaves_update front

variable [Fintype τ]

lemma getStep_ok (I : s.Inv c) {sources : List (Source n m)} {o : Choice n}
    (top : s.stack t = .get own sources victim :: rest)
    (e : s.getStep c t own victim rest o sources = some s') : s'.Inv c ∧ Effect c s s' := by
  have ok := I.frames t
  rw [top] at ok
  obtain ⟨level, bodies⟩ := ok
  have mine : s.holds (.inl t) = hands rest := by
    rw [holds, top]
    rfl
  -- the get goes on: only its own frame changes
  have next (sources : List (Source n m)) (victim : Option (Fin n)) (level : .outer ∈ sources → c.hybrid = true) :
      (s.setStack t (.get own sources victim :: rest)).Inv c ∧
        Effect c s (s.setStack t (.get own sources victim :: rest)) := by
    refine ⟨I.setStack ⟨level, bodies⟩, .stays rfl rfl ?_⟩
    rw [holds_setStack]
    apply stays_update
    rw [mine]
    exact .refl _
  cases sources with
  | nil =>
    simp only [getStep] at e
    split at e
    · cases e
      have same : (s.steal own victim none).handed = s.handed ∧ (s.steal own victim none).invoked = s.invoked := by
        cases victim <;> exact ⟨rfl, rfl⟩
      refine ⟨I.steal.setStack (stackOk_bodies bodies), .stays same.1 same.2 ?_⟩
      rw [holds_setStack, holds_steal, ← mine, update_eq_self]
      exact .of_eq rfl
    · cases e
  | cons a sources =>
    have level' : .outer ∈ sources → c.hybrid = true := fun mem => level (mem_cons_of_mem _ mem)
    have steals (v : Fin n) : .outer ∈ c.popOneTb v ++ sources → c.hybrid = true := by
      intro mem
      obtain mem | mem := mem_append.1 mem
      · exact absurd mem (c.outer_not_mem v).1
      · exact level' mem
    rcases a with _ | _ | (_ | q) | _ | _
    · simp only [getStep] at e
      split at e
      · cases e
        exact next _ _ level'
      · rename_i x ex
        split at e
        · cases e
          have J : (s.found t own victim x rest).Inv c := I.found bodies
          have steal : (s.steal own victim victim).handed = s.handed ∧
              (s.steal own victim victim).invoked = s.invoked := by
            cases victim <;> exact ⟨rfl, rfl⟩
          refine ⟨J, .loop x ⟨level mem_cons_self, I.slots own x ex⟩ steal.1 ?_ ?_⟩
          · show (s.steal own victim victim).invoked ++ [x] = _
            rw [steal.2]
          · rw [holds_found, ← mine, update_eq_self]
            exact .of_eq rfl
        · cases e
      · split at e
        · cases e
          exact next _ _ level'
        · cases e
      · cases e
    · simp only [getStep] at e
      split at e
      · cases e
        apply next
        split
        · intro mem
          obtain mem | mem := mem_append.1 mem
          · exact absurd mem (c.outer_not_mem own).2
          · exact level' mem
        · exact level'
      · cases e
    · simp only [getStep] at e
      split at e
      · split at e
        · cases e
          exact next _ _ level'
        · cases e
      · split at e
        · rename_i p ep
          cases e
          obtain ⟨S, nil, nil'⟩ := PriorityQueue.priorityQueueGetTb_ok I.prio ep
          have J := I.setPrio S fun ne => absurd nil' ne
          refine ⟨J.setStack ⟨level', bodies⟩, .stays rfl rfl ?_⟩
          rw [holds_setStack, holds_setPrio]
          have first : Stays s.holds (update s.holds (.inr .prio) p.all) := by
            apply stays_update
            show p.all.Perm s.prio.all
            rw [nil, nil']
          apply first.trans
          apply stays_update
          rw [update_of_ne Sum.inl_ne_inr, mine]
          exact .refl _
        · cases e
      · split at e
        · rename_i p x ep
          cases e
          obtain ⟨S, perm⟩ := PriorityQueue.priorityQueueGetTb_ok I.prio ep
          have ne : s.prio.all ≠ [] := by
            rintro nil
            rw [nil] at perm
            exact absurd perm.length_eq (by simp)
          have J := I.setPrio S fun _ => I.stores .prio ne
          exact found_taken top bodies J rfl rfl holds_setPrio perm
        · cases e
      · cases e
    · simp only [getStep] at e
      split at e
      · split at e
        · rename_i x v ev
          cases e
          obtain ⟨H, front⟩ := queueGetTb_ok (I.queues q) ev
          have ne : contents (s.queue q) ≠ [] := by
            rw [front]
            exact cons_ne_nil _ _
          have J := I.setQueue H fun _ => I.stores (.queue q) ne
          refine found_taken top bodies J rfl rfl holds_setQueue ?_
          show (contents (s.queue q)).Perm _
          rw [front]
        · cases e
          exact next _ _ level'
      · cases e
    · simp only [getStep] at e
      split at e
      · split at e
        · cases e
          exact next _ _ level'
        · cases e
          exact next _ _ (steals _)
      · cases e
    · simp only [getStep] at e
      split at e
      · split at e
        · cases e
          exact ⟨I, .stays rfl rfl (.of_eq rfl)⟩
        · cases e
          exact next _ _ (steals _)
      · cases e

lemma step_ok (I : s.Inv c) {l : Label n τ} (e : s.step c l = some s') : s'.Inv c ∧ Effect c s s' := by
  cases l with
  | add t tb =>
    simp only [step] at e
    split at e
    · rename_i h
      cases e
      exact kuplSchedAddTb_ok I h.1
    · cases e
  | execute t =>
    simp only [step] at e
    split at e
    · rename_i free
      split at e
      · cases e
        exact ⟨I, .stays rfl rfl (.of_eq rfl)⟩
      · rename_i own _
        cases e
        have level : .outer ∈ c.hybridGetTb own → c.hybrid = true := by
          intro mem
          by_contra plain
          rw [Config.hybridGetTb, if_neg plain] at mem
          exact (c.outer_not_mem own).2 mem
        refine ⟨I.setStack ⟨level, I.bodies free⟩, .stays rfl rfl ?_⟩
        rw [holds_setStack]
        exact stays_update (.refl _)
    · cases e
  | go t o =>
    simp only [step] at e
    split at e
    · rename_i top
      split at e
      · cases e
        exact addStep_ok I top
      · cases e
    · rename_i top
      exact getStep_ok I top e
    · cases e
  | finish t =>
    simp only [step] at e
    split at e
    · rename_i tb rest top
      cases e
      have ok := I.frames t
      rw [top] at ok
      refine ⟨I.setStack (stackOk_bodies ok), .stays rfl rfl ?_⟩
      rw [holds_setStack]
      apply stays_update
      rw [holds, top]
      exact .refl _
    · cases e

end Steps

end Scheduler
end Kupl.Sched
