import Mathlib.Algebra.BigOperators.Group.Finset.Piecewise
import Kupl.Dag.Gnode

/-!
# From queue to finish

`src/mt/kupl_task.cpp`, `src/mt/kupl_taskbase.h` and `src/mt/scheduler/kupl_sched.cpp`: a task is
added to the scheduler, executed and finished, and its finish releases its successors. A finish sets
FINISHED and walks the successors, then schedules the tasks it has collected one by one, then takes
the task off the count. The order of all these steps is left open, so the inline execution of
`kupl_sched_add_tb` is one of them. Left out are the two early returns of `kupl_task_finish`: under
`KUPL_TB_FLAG_REUSE`, which no code sets, and where there is no memory for `ready_tasks`.

C++ → Lean naming: `kupl_sched_add_tb` → `schedAddTb`; `kupl_task_execute` → `taskExecute`;
`kupl_task_finish` → `taskFinish`, `taskSchedule`, `tbCountSub`; `kupl_tb_is_finished` →
`Phase.isFinished`.

`Inv V todo` relates the counters of the nodes to the edges of the tasks that have not finished, and
the count to the phases. `V` are the tasks, `todo` those about to be added to the scheduler for the
first time.
-/

namespace Kupl.Task
open Dag Prec Finset
open Function (update update_of_ne update_self)

variable {τ : Type*} [DecidableEq τ]

/-- Where a task is. `collected` tasks stand in the `ready_tasks` of a task that is `finishing`. -/
inductive Phase (τ : Type*) where
  | waiting
  | collected
  | queued
  | running
  | finishing (ready : List τ)
  | done
  deriving DecidableEq

/-- The FINISHED bit is set (C++ `kupl_tb_is_finished`). -/
def Phase.isFinished : Phase τ → Bool
  | .finishing _ | .done => true
  | _ => false

/-- The task has been executed or is being executed. -/
def Phase.isStarted : Phase τ → Bool
  | .running | .finishing _ | .done => true
  | _ => false

/-- The task is queued, or is being executed and not yet off the count. -/
def Phase.isCounted : Phase τ → Bool
  | .queued | .running | .finishing _ => true
  | _ => false

/-- The `ready_tasks` still to be scheduled. -/
def Phase.ready : Phase τ → List τ
  | .finishing ready => ready
  | _ => []

/-- The nodes, the phases and the count of a graph. -/
structure Sched (τ : Type*) where
  gnode : τ → Gnode τ
  phase : τ → Phase τ
  count : Int

namespace Sched

/-- The tasks whose edges have not been released. -/
def live (s : Sched τ) (p : τ) : Bool := !(s.phase p).isFinished

/-- The edges into a task that have not been released. -/
def pending (V : Finset τ) (s : Sched τ) (t : τ) : Nat := Prec.pending V (succs s.gnode) s.live t

/-- The tasks of `V` that are queued or being executed. -/
def busy (V : Finset τ) (s : Sched τ) : Nat := (V.filter fun p => (s.phase p).isCounted).card

/-- A task goes to the scheduler (C++ `kupl_sched_add_tb`). -/
def schedAddTb (s : Sched τ) (t : τ) : Sched τ :=
  { s with phase := update s.phase t .queued, count := s.count + 1 }

/-- An executor takes a queued task (C++ `kupl_task_execute`). -/
def taskExecute (s : Sched τ) (t : τ) : Option (Sched τ) :=
  match s.phase t with
  | .queued => some { s with phase := update s.phase t .running }
  | _ => none

/-- A node of a static graph is armed again (C++ `kupl_task_finish`, the task reset). -/
def taskReset (static : Bool) (g : τ → Gnode τ) (t : τ) : τ → Gnode τ :=
  if static then gnodeReset g t else g

/-- FINISHED is set and the successors are released; a node of a static graph is armed again first
(C++ `kupl_task_finish` up to `kupl_gnode_release_ready`). -/
def taskFinish (static : Bool) (s : Sched τ) (t : τ) : Option (Sched τ) :=
  match s.phase t with
  | .running =>
    let r := gnodeReleaseReady (taskReset static s.gnode t) t
    some { s with
      gnode := r.1
      phase := update (fun u => if u ∈ r.2 then .collected else s.phase u) t
        (.finishing r.2) }
  | _ => none

/-- The next of the ready tasks goes to the scheduler (C++ `kupl_task_finish`, the loop over
`ready_tasks`). -/
def taskSchedule (s : Sched τ) (t : τ) : Option (Sched τ) :=
  match s.phase t with
  | .finishing (r :: rs) =>
    some (schedAddTb { s with phase := update s.phase t (.finishing rs) } r)
  | _ => none

/-- The task is taken off the count (C++ `kupl_tb_count_sub`). -/
def tbCountSub (s : Sched τ) (t : τ) : Option (Sched τ) :=
  match s.phase t with
  | .finishing [] =>
    some { s with phase := update s.phase t .done, count := s.count - 1 }
  | _ => none

/-- The counters hold the edges still to be released, and the count the tasks in hand. -/
structure Inv (V : Finset τ) (todo : τ → Prop) (s : Sched τ) : Prop where
  edge : ∀ p t, t ∈ succs s.gnode p → p ∈ V ∧ t ∈ V
  counter : ∀ t ∈ V, (s.phase t).isFinished = false → (s.gnode t).nPredecessors = s.pending V t
  free : ∀ t, s.phase t ≠ .waiting → s.pending V t = 0
  wait : ∀ t ∈ V, s.phase t = .waiting → s.pending V t = 0 → todo t
  first : ∀ t, todo t → t ∈ V ∧ s.phase t = .waiting ∧ s.pending V t = 0
  ready : ∀ f, ∀ t ∈ (s.phase f).ready, s.phase t = .collected
  held : ∀ t, s.phase t = .collected → ∃ f, t ∈ (s.phase f).ready
  nodup : ∀ f, (s.phase f).ready.Nodup
  apart : ∀ f f', ∀ t ∈ (s.phase f).ready, t ∈ (s.phase f').ready → f = f'
  outside : ∀ t, s.phase t ≠ .waiting → t ∈ V
  count : s.count = s.busy V

section Step
variable {V : Finset τ} {todo todo' : τ → Prop} {s s' : Sched τ} {t u : τ} {x : Phase τ}
variable {g : τ → Gnode τ}

@[simp] lemma succs_taskReset {static} : succs (taskReset static g t) = succs g := by
  unfold taskReset
  split
  · exact succs_reset
  · rfl

lemma nPredecessors_taskReset_ne {static} (h : u ≠ t) :
    (taskReset static g t u).nPredecessors = (g u).nPredecessors := by
  unfold taskReset
  split
  · exact nPredecessors_reset_ne h
  · rfl

lemma live_update (h : x.isFinished = (s.phase t).isFinished) {g c} :
    live { s with gnode := g, phase := update s.phase t x, count := c } = s.live := by
  funext u
  by_cases e : u = t
  · subst e
    simp [live, h]
  · simp [live, e]

lemma busy_update (ht : t ∈ V) {g c} : busy V { s with gnode := g, phase := update s.phase t x, count := c } +
        (if (s.phase t).isCounted then 1 else 0) =
      s.busy V + if x.isCounted then 1 else 0 := by
  have sum := sum_change (f := fun p => if (s.phase p).isCounted then 1 else 0)
    (g := fun p => if (update s.phase t x p).isCounted then 1 else 0) ht
    (fun q _ hq => by simp only [update_of_ne hq])
  simpa only [busy, card_filter, update_self] using sum

section
variable (I : Inv V todo s)
include I

lemma Inv.congr (h : ∀ t, todo t ↔ todo' t) : Inv V todo' s := by
  obtain rfl : todo = todo' := funext fun t => propext (h t)
  exact I

lemma Inv.preds_finished (h : s.phase t ≠ .waiting) {p} (e : t ∈ succs s.gnode p) :
    (s.phase p).isFinished = true := by
  by_contra live
  have out := pending_eq_zero.1 (I.free t h) p (I.edge p t e).1 (by simpa [Sched.live] using live)
  exact out e

lemma Inv.addTb (ht : todo t) : Inv V (fun u => todo u ∧ u ≠ t) (schedAddTb s t) := by
  obtain ⟨tV, tw, tp⟩ := I.first t ht
  have live_eq : (schedAddTb s t).live = s.live := live_update (by simp [tw, Phase.isFinished])
  have pend : ∀ u, (schedAddTb s t).pending V u = s.pending V u := fun u => by
    simp only [pending, live_eq]
    rfl
  have same : ∀ u, u ≠ t → (schedAddTb s t).phase u = s.phase u := fun u hu => by
    simp [schedAddTb, hu]
  have new : (schedAddTb s t).phase t = .queued := by simp [schedAddTb]
  have ready_eq : ∀ f, ((schedAddTb s t).phase f).ready = (s.phase f).ready := fun f => by
    by_cases e : f = t
    · subst e
      rw [new, tw]
      rfl
    · rw [same f e]
  refine ⟨I.edge, ?_, ?_, ?_, ?_, ?_, ?_, ?_, ?_, ?_, ?_⟩
  · intro u hu hf
    rw [pend]
    by_cases e : u = t
    · subst e
      exact I.counter u hu (by simp [tw, Phase.isFinished])
    · exact I.counter u hu (by rwa [same u e] at hf)
  · intro u hu
    rw [pend]
    by_cases e : u = t
    · subst e
      exact tp
    · exact I.free u (by rwa [same u e] at hu)
  · intro u hu hw hp
    by_cases e : u = t
    · subst e
      rw [new] at hw
      cases hw
    · rw [pend] at hp
      exact ⟨I.wait u hu (by rwa [same u e] at hw) hp, e⟩
  · rintro u ⟨hu, e⟩
    rw [pend, same u e]
    exact I.first u hu
  · intro f u hu
    rw [ready_eq] at hu
    have hc := I.ready f u hu
    rw [same u (by rintro rfl; rw [tw] at hc; cases hc)]
    exact hc
  · intro u hu
    by_cases e : u = t
    · subst e
      rw [new] at hu
      cases hu
    · rw [same u e] at hu
      obtain ⟨f, hf⟩ := I.held u hu
      exact ⟨f, by rwa [ready_eq]⟩
  · intro f
    rw [ready_eq]
    exact I.nodup f
  · intro f f' u hu hu'
    rw [ready_eq] at hu hu'
    exact I.apart f f' u hu hu'
  · intro u hu
    by_cases e : u = t
    · subst e
      exact tV
    · exact I.outside u (by rwa [same u e] at hu)
  · have busy := busy_update (s := s) (x := .queued) tV (g := s.gnode) (c := s.count + 1)
    simp only [tw, Phase.isCounted, Bool.false_eq_true, if_false, if_true] at busy
    have count := I.count
    simp only [schedAddTb]
    omega

lemma Inv.move {c : Int} (hw : s.phase t ≠ .waiting) (hc : s.phase t ≠ .collected) (xw : x ≠ .waiting)
    (xc : x ≠ .collected) (xf : x.isFinished = (s.phase t).isFinished) (xr : x.ready = (s.phase t).ready)
    (count : c + (if (s.phase t).isCounted then 1 else 0) = s.count + if x.isCounted then 1 else 0) :
    Inv V todo { s with phase := update s.phase t x, count := c } := by
  generalize hs : ({ s with phase := update s.phase t x, count := c } : Sched τ) = s1
  have phase_eq : s1.phase = update s.phase t x := by rw [← hs]
  have gnode_eq : s1.gnode = s.gnode := by rw [← hs]
  have same : ∀ u, u ≠ t → s1.phase u = s.phase u := fun u hu => by simp [phase_eq, hu]
  have new : s1.phase t = x := by simp [phase_eq]
  have pend : ∀ u, s1.pending V u = s.pending V u := fun u => by
    simp only [pending, ← hs, live_update xf]
  have waiting_iff : ∀ u, s1.phase u = .waiting ↔ s.phase u = .waiting := fun u => by
    by_cases e : u = t
    · subst e
      simp [new, xw, hw]
    · rw [same u e]
  have collected_iff : ∀ u, s1.phase u = .collected ↔ s.phase u = .collected := fun u => by
    by_cases e : u = t
    · subst e
      simp [new, xc, hc]
    · rw [same u e]
  have fin_eq : ∀ u, (s1.phase u).isFinished = (s.phase u).isFinished := fun u => by
    by_cases e : u = t
    · subst e
      rw [new, xf]
    · rw [same u e]
  have ready_eq : ∀ u, (s1.phase u).ready = (s.phase u).ready := fun u => by
    by_cases e : u = t
    · subst e
      rw [new, xr]
    · rw [same u e]
  refine ⟨?_, ?_, ?_, ?_, ?_, ?_, ?_, ?_, ?_, ?_, ?_⟩
  · rw [gnode_eq]
    exact I.edge
  · intro u hu hf
    rw [gnode_eq, pend]
    exact I.counter u hu (by rwa [fin_eq] at hf)
  · intro u hu
    rw [pend]
    exact I.free u (by rwa [Ne, waiting_iff] at hu)
  · intro u hu
    rw [pend, waiting_iff]
    exact I.wait u hu
  · intro u hu
    rw [pend, waiting_iff]
    exact I.first u hu
  · intro f u
    rw [ready_eq, collected_iff]
    exact I.ready f u
  · intro u hu
    obtain ⟨f, hf⟩ := I.held u ((collected_iff u).1 hu)
    exact ⟨f, by rwa [ready_eq]⟩
  · intro f
    rw [ready_eq]
    exact I.nodup f
  · intro f f' u
    rw [ready_eq, ready_eq]
    exact I.apart f f' u
  · intro u hu
    exact I.outside u (by rwa [Ne, waiting_iff] at hu)
  · have busy : s1.busy V + (if (s.phase t).isCounted then 1 else 0) = s.busy V + if x.isCounted then 1 else 0 := by
      rw [← hs]
      exact busy_update (I.outside t hw)
    have new_count : s1.count = c := by rw [← hs]
    have old := I.count
    rw [new_count]
    by_cases hx : x.isCounted = true <;> by_cases ho : (s.phase t).isCounted = true <;>
      simp only [hx, ho, if_true, Bool.false_eq_true, if_false] at busy count <;> omega

lemma Inv.execute (h : taskExecute s t = some s') : Inv V todo s' := by
  unfold taskExecute at h
  split at h
  · rename_i e
    cases h
    exact I.move (by simp [e]) (by simp [e]) (by simp) (by simp) (by simp [e, Phase.isFinished])
      (by simp [e, Phase.ready]) (by simp [e, Phase.isCounted])
  · cases h

lemma Inv.countSub (h : tbCountSub s t = some s') : Inv V todo s' := by
  unfold tbCountSub at h
  split at h
  · rename_i e
    cases h
    exact I.move (by simp [e]) (by simp [e]) (by simp) (by simp) (by simp [e, Phase.isFinished])
      (by simp [e, Phase.ready]) (by simp [e, Phase.isCounted])
  · cases h

lemma Inv.collect (run : s.phase t = .running) (hg : succs g = succs s.gnode) (mem : u ∈ (gnodeReleaseReady g t).2) :
    u ∈ succs s.gnode t ∧ s.phase u = .waiting := by
  have bounds := mem_releaseWalk_ready.1 mem
  have pos : 0 < (g t).successors.count u := by omega
  have edge : u ∈ succs s.gnode t := by
    rw [← hg]
    exact List.count_pos_iff.1 pos
  refine ⟨edge, ?_⟩
  by_contra w
  have := I.preds_finished w edge
  simp [run, Phase.isFinished] at this

lemma Inv.finish {static} (h : taskFinish static s t = some s') : Inv V todo s' := by
  unfold taskFinish at h
  split at h
  swap
  · cases h
  rename_i run
  obtain ⟨g, hg⟩ : ∃ g, taskReset static s.gnode t = g := ⟨_, rfl⟩
  have g_succs : succs g = succs s.gnode := by
    rw [← hg]
    exact succs_taskReset
  have g_pred : ∀ u, u ≠ t → (g u).nPredecessors = (s.gnode u).nPredecessors := by
    intro u hu
    rw [← hg]
    exact nPredecessors_taskReset_ne hu
  obtain ⟨l, hl⟩ : ∃ l, (gnodeReleaseReady g t).2 = l := ⟨_, rfl⟩
  simp only [hg, hl, Option.some.injEq] at h
  have succ_t : (g t).successors = succs s.gnode t := congrFun g_succs t
  have tw : s.phase t ≠ .waiting := by simp [run]
  have tV : t ∈ V := I.outside t tw
  have t_live : s.live t = true := by simp [Sched.live, run, Phase.isFinished]
  -- a running task has no edge to itself and none to a finished task
  have loop : (succs s.gnode t).count t = 0 := by
    have : (succs s.gnode t).count t ≤ Prec.pending V (succs s.gnode) s.live t :=
      count_le_pending tV t_live
    have := I.free t tw
    simp only [pending] at this
    omega
  have phase_t : s'.phase t = .finishing l := by simp [← h]
  have phase_u : ∀ u, u ≠ t → s'.phase u = if u ∈ l then .collected else s.phase u := by
    intro u hu
    simp [← h, hu]
  have live_eq : s'.live = update s.live t false := by
    funext u
    by_cases e : u = t
    · subst e
      simp [Sched.live, phase_t, Phase.isFinished]
    · rw [update_of_ne e]
      simp only [Sched.live, phase_u u e]
      split
      · rw [(I.collect run g_succs (by rwa [hl])).2]
        rfl
      · rfl
  have succs_eq : succs s'.gnode = succs s.gnode := by
    rw [← h, ← g_succs]
    exact succs_releaseWalk
  have pend : ∀ u, s.pending V u = (succs s.gnode t).count u + s'.pending V u := by
    intro u
    simp only [pending, succs_eq, live_eq]
    exact pending_finish tV t_live
  have mem_l : ∀ u, u ∈ l ↔ 1 ≤ (g u).nPredecessors ∧ (g u).nPredecessors ≤ (succs s.gnode t).count u := by
    intro u
    rw [← hl, gnodeReleaseReady, mem_releaseWalk_ready, succ_t]
  have mem_ne : ∀ u ∈ l, u ≠ t := by
    rintro u hu rfl
    have := (mem_l u).1 hu
    omega
  -- what is collected was waiting for `t` alone
  have mem_spec : ∀ u ∈ l, u ∈ V ∧ s.phase u = .waiting ∧ s'.pending V u = 0 := by
    intro u hu
    have bounds := (mem_l u).1 hu
    obtain ⟨edge, waiting⟩ := I.collect run g_succs (by rwa [hl])
    have uV := (I.edge t u edge).2
    have p := pend u
    have counter := I.counter u uV (by simp [waiting, Phase.isFinished])
    rw [g_pred u (mem_ne u hu)] at bounds
    exact ⟨uV, waiting, by omega⟩
  have not_mem : ∀ u, s.phase u ≠ .waiting → u ∉ l := fun u hw hu => hw (mem_spec u hu).2.1
  have keep : ∀ u, u ≠ t → u ∉ l → s'.phase u = s.phase u := by
    intro u hu hm
    rw [phase_u u hu, if_neg hm]
  have ready_t : (s'.phase t).ready = l := by rw [phase_t]; rfl
  have ready_u : ∀ u, u ≠ t → (s'.phase u).ready = (s.phase u).ready := by
    intro u hu
    rw [phase_u u hu]
    split
    · rename_i hm
      rw [(mem_spec u hm).2.1]
      rfl
    · rfl
  refine ⟨?_, ?_, ?_, ?_, ?_, ?_, ?_, ?_, ?_, ?_, ?_⟩
  · rw [succs_eq]
    exact I.edge
  · intro u hu hf
    have e : u ≠ t := by
      rintro rfl
      simp [phase_t, Phase.isFinished] at hf
    have unfinished : (s.phase u).isFinished = false := by
      by_cases hm : u ∈ l
      · rw [(mem_spec u hm).2.1]
        rfl
      · rwa [← keep u e hm]
    have counter := I.counter u hu unfinished
    have new : (s'.gnode u).nPredecessors = (g u).nPredecessors - (succs s.gnode t).count u := by
      rw [← succ_t, ← h]
      exact releaseWalk_nPredecessors
    have p := pend u
    rw [new, g_pred u e]
    omega
  · intro u hu
    have p := pend u
    by_cases e : u = t
    · subst e
      have := I.free u tw
      omega
    · by_cases hm : u ∈ l
      · exact (mem_spec u hm).2.2
      · have := I.free u (by rwa [← keep u e hm])
        omega
  · intro u hu hw hp
    have e : u ≠ t := by
      rintro rfl
      simp [phase_t] at hw
    have hm : u ∉ l := by
      intro hm
      rw [phase_u u e, if_pos hm] at hw
      cases hw
    rw [keep u e hm] at hw
    have p := pend u
    have counter := I.counter u hu (by simp [hw, Phase.isFinished])
    -- its last edges came from `t`, so either it is collected or it had none
    have none : (succs s.gnode t).count u = 0 := by
      by_contra pos
      exact hm ((mem_l u).2 (by rw [g_pred u e]; omega))
    exact I.wait u hu hw (by omega)
  · intro u hu
    obtain ⟨uV, uw, up⟩ := I.first u hu
    have p := pend u
    have e : u ≠ t := by
      rintro rfl
      exact tw uw
    have counter := I.counter u uV (by simp [uw, Phase.isFinished])
    have hm : u ∉ l := by
      intro hm
      have := (mem_l u).1 hm
      rw [g_pred u e] at this
      omega
    exact ⟨uV, by rwa [keep u e hm], by omega⟩
  · intro f u hu
    by_cases e : f = t
    · subst e
      rw [ready_t] at hu
      rw [phase_u u (mem_ne u hu), if_pos hu]
    · rw [ready_u f e] at hu
      have hc := I.ready f u hu
      have ne : u ≠ t := by
        rintro rfl
        simp [run] at hc
      rw [keep u ne (not_mem u (by simp [hc]))]
      exact hc
  · intro u hu
    have e : u ≠ t := by
      rintro rfl
      simp [phase_t] at hu
    by_cases hm : u ∈ l
    · exact ⟨t, by rwa [ready_t]⟩
    · rw [keep u e hm] at hu
      obtain ⟨f, hf⟩ := I.held u hu
      have ne : f ≠ t := by
        rintro rfl
        simp [run, Phase.ready] at hf
      exact ⟨f, by rwa [ready_u f ne]⟩
  · intro f
    by_cases e : f = t
    · subst e
      rw [ready_t, ← hl]
      exact releaseWalk_nodup
    · rw [ready_u f e]
      exact I.nodup f
  · intro f f' u hu hu'
    have clash : ∀ f, f ≠ t → u ∈ (s'.phase f).ready → u ∉ l := by
      intro f e hf
      rw [ready_u f e] at hf
      exact not_mem u (by simp [I.ready f u hf])
    by_cases e : f = t
    · by_cases e' : f' = t
      · rw [e, e']
      · subst e
        rw [ready_t] at hu
        exact absurd hu (clash f' e' hu')
    · by_cases e' : f' = t
      · subst e'
        rw [ready_t] at hu'
        exact absurd hu' (clash f e hu)
      · rw [ready_u f e] at hu
        rw [ready_u f' e'] at hu'
        exact I.apart f f' u hu hu'
  · intro u hu
    by_cases e : u = t
    · subst e
      exact tV
    · by_cases hm : u ∈ l
      · exact (mem_spec u hm).1
      · exact I.outside u (by rwa [← keep u e hm])
  · have counted : ∀ u, (s'.phase u).isCounted = (s.phase u).isCounted := by
      intro u
      by_cases e : u = t
      · subst e
        rw [phase_t, run]
        rfl
      · rw [phase_u u e]
        split
        · rename_i hm
          rw [(mem_spec u hm).2.1]
          rfl
        · rfl
    have busy_eq : s'.busy V = s.busy V := by simp only [busy, counted]
    rw [busy_eq, ← I.count, ← h]

lemma Inv.schedule (h : taskSchedule s t = some s') : Inv V todo s' := by
  unfold taskSchedule at h
  split at h
  swap
  · cases h
  rename_i r rs run
  cases h
  have tw : s.phase t ≠ .waiting := by simp [run]
  have r_mem : r ∈ (s.phase t).ready := by simp [run, Phase.ready]
  have rc : s.phase r = .collected := I.ready t r r_mem
  have ne : r ≠ t := by
    rintro rfl
    simp [run] at rc
  have rs_nodup : r ∉ rs ∧ rs.Nodup := by
    have := I.nodup t
    rw [run] at this
    exact List.nodup_cons.1 this
  generalize hs : schedAddTb { s with phase := update s.phase t (.finishing rs) } r = s1
  have phase_t : s1.phase t = .finishing rs := by
    rw [← hs]
    simp [schedAddTb, ne.symm]
  have phase_r : s1.phase r = .queued := by
    rw [← hs]
    simp [schedAddTb]
  have same : ∀ u, u ≠ t → u ≠ r → s1.phase u = s.phase u := by
    intro u hu hr
    rw [← hs]
    simp [schedAddTb, hu, hr]
  have gnode_eq : s1.gnode = s.gnode := by rw [← hs]; rfl
  have live_eq : s1.live = s.live := by
    funext u
    by_cases e : u = t
    · subst e
      simp [Sched.live, phase_t, run, Phase.isFinished]
    · by_cases e' : u = r
      · subst e'
        simp [Sched.live, phase_r, rc, Phase.isFinished]
      · simp [Sched.live, same u e e']
  have pend : ∀ u, s1.pending V u = s.pending V u := by
    intro u
    simp only [pending, live_eq, gnode_eq]
  have waiting_iff : ∀ u, s1.phase u = .waiting ↔ s.phase u = .waiting := by
    intro u
    by_cases e : u = t
    · subst e
      simp [phase_t, run]
    · by_cases e' : u = r
      · subst e'
        simp [phase_r, rc]
      · rw [same u e e']
  have ready_sub : ∀ f, ∀ u ∈ (s1.phase f).ready, u ∈ (s.phase f).ready ∧ u ≠ r := by
    intro f u hu
    by_cases e : f = t
    · subst e
      rw [phase_t] at hu
      refine ⟨by rw [run]; exact List.mem_cons_of_mem _ hu, ?_⟩
      rintro rfl
      exact rs_nodup.1 hu
    · by_cases e' : f = r
      · subst e'
        rw [phase_r] at hu
        cases hu
      · rw [same f e e'] at hu
        refine ⟨hu, ?_⟩
        rintro rfl
        exact e (I.apart f t u hu r_mem)
  refine ⟨?_, ?_, ?_, ?_, ?_, ?_, ?_, ?_, ?_, ?_, ?_⟩
  · rw [gnode_eq]
    exact I.edge
  · intro u hu hf
    rw [gnode_eq, pend]
    have hl := congrFun live_eq u
    simp only [Sched.live, Bool.not_eq_eq_eq_not] at hl
    exact I.counter u hu (by simpa [hf] using hl.symm)
  · intro u hu
    rw [pend]
    exact I.free u (by rwa [Ne, waiting_iff] at hu)
  · intro u hu
    rw [pend, waiting_iff]
    exact I.wait u hu
  · intro u hu
    rw [pend, waiting_iff]
    exact I.first u hu
  · intro f u hu
    obtain ⟨hu, hr⟩ := ready_sub f u hu
    have hc := I.ready f u hu
    rw [same u (by rintro rfl; simp [run] at hc) hr]
    exact hc
  · intro u hu
    have e : u ≠ t := by
      rintro rfl
      simp [phase_t] at hu
    have e' : u ≠ r := by
      rintro rfl
      simp [phase_r] at hu
    rw [same u e e'] at hu
    obtain ⟨f, hf⟩ := I.held u hu
    refine ⟨f, ?_⟩
    by_cases ef : f = t
    · subst ef
      rw [phase_t]
      rw [run] at hf
      exact (List.mem_cons.1 hf).resolve_left e'
    · rw [same f ef]
      · exact hf
      · rintro rfl
        simp [rc, Phase.ready] at hf
  · intro f
    by_cases e : f = t
    · subst e
      rw [phase_t]
      exact rs_nodup.2
    · by_cases e' : f = r
      · subst e'
        rw [phase_r]
        exact List.nodup_nil
      · rw [same f e e']
        exact I.nodup f
  · intro f f' u hu hu'
    exact I.apart f f' u (ready_sub f u hu).1 (ready_sub f' u hu').1
  · intro u hu
    exact I.outside u (by rwa [Ne, waiting_iff] at hu)
  · have rV : r ∈ V := I.outside r (by simp [rc])
    have b1 := busy_update (s := s) (x := .finishing rs) (I.outside t tw) (g := s.gnode)
      (c := s.count)
    have b2 := busy_update
      (s := { s with phase := update s.phase t (.finishing rs) }) (x := .queued) rV
      (g := s.gnode) (c := s.count + 1)
    have r_old : update s.phase t (.finishing rs) r = .collected := by simp [ne, rc]
    simp only [r_old, run, Phase.isCounted, Bool.false_eq_true, if_false, if_true] at b1 b2
    have count := I.count
    rw [← hs]
    simp only [schedAddTb]
    omega

lemma Inv.finish_finished {static} (h : taskFinish static s t = some s')
    (hu : (s.phase u).isFinished = true) : (s'.phase u).isFinished = true := by
  unfold taskFinish at h
  split at h
  swap
  · cases h
  rename_i run
  cases h
  have ne : u ≠ t := by
    rintro rfl
    simp [run, Phase.isFinished] at hu
  simp only [update_of_ne ne]
  split
  · rename_i mem
    rw [(I.collect run succs_taskReset mem).2] at hu
    cases hu
  · exact hu

lemma Inv.schedule_finished (h : taskSchedule s t = some s')
    (hu : (s.phase u).isFinished = true) : (s'.phase u).isFinished = true := by
  unfold taskSchedule at h
  split at h
  swap
  · cases h
  rename_i r rs run
  cases h
  have rc : s.phase r = .collected := I.ready t r (by simp [run, Phase.ready])
  have ne : u ≠ r := by
    rintro rfl
    simp [rc, Phase.isFinished] at hu
  simp only [schedAddTb, update_of_ne ne]
  by_cases e : u = t
  · subst e
    simp [Phase.isFinished]
  · rwa [update_of_ne e]

lemma Inv.gnode_congr (hs : succs g = succs s.gnode) (hn : ∀ t ∈ V, (g t).nPredecessors =
    (s.gnode t).nPredecessors) :
    Inv V todo { s with gnode := g } := by
  have pend : ∀ u, pending V { s with gnode := g } u = s.pending V u := fun u => by
    simp only [pending, hs]
    rfl
  refine ⟨?_, ?_, ?_, ?_, ?_, I.ready, I.held, I.nodup, I.apart, I.outside, I.count⟩
  · rw [hs]
    exact I.edge
  · intro u hu hf
    rw [pend, hn u hu]
    exact I.counter u hu hf
  · intro u
    rw [pend]
    exact I.free u
  · intro u
    rw [pend]
    exact I.wait u
  · intro u
    rw [pend]
    exact I.first u

lemma Inv.join (ht : t ∉ V) : Inv (insert t V) (fun u => todo u ∨ u = t)
      { s with gnode := update s.gnode t gnodeInit } := by
  have bare : succs s.gnode t = [] := by
    by_contra some
    obtain ⟨u, hu⟩ := List.exists_mem_of_ne_nil _ some
    exact ht (I.edge t u hu).1
  have tw : s.phase t = .waiting := by
    by_contra w
    exact ht (I.outside t w)
  have succs_eq : succs (update s.gnode t gnodeInit) = succs s.gnode := by
    funext q
    by_cases e : q = t
    · subst e
      simp [succs, gnodeInit, ← bare]
    · simp [succs, e]
  have pend : ∀ u, pending (insert t V)
      { s with gnode := update s.gnode t gnodeInit } u = s.pending V u := by
    intro u
    simp only [pending, succs_eq]
    rw [pending_insert ht, bare, List.count_nil, ite_self, Nat.zero_add]
    rfl
  have pend_t : s.pending V t = 0 := by
    refine pending_eq_zero.2 fun p _ _ h => ht (I.edge p t h).2
  refine ⟨?_, ?_, ?_, ?_, ?_, I.ready, I.held, I.nodup, I.apart, ?_, ?_⟩
  · rw [succs_eq]
    intro p u hu
    obtain ⟨pV, uV⟩ := I.edge p u hu
    exact ⟨mem_insert_of_mem pV, mem_insert_of_mem uV⟩
  · intro u hu hf
    rw [pend]
    by_cases e : u = t
    · subst e
      simp [gnodeInit, pend_t]
    · simpa [e] using I.counter u (mem_of_mem_insert_of_ne hu e) hf
  · intro u hu
    rw [pend]
    exact I.free u hu
  · intro u hu hw hp
    rw [pend] at hp
    by_cases e : u = t
    · exact .inr e
    · exact .inl (I.wait u (mem_of_mem_insert_of_ne hu e) hw hp)
  · intro u hu
    rw [pend]
    rcases hu with hu | rfl
    · obtain ⟨uV, rest⟩ := I.first u hu
      exact ⟨mem_insert_of_mem uV, rest⟩
    · exact ⟨mem_insert_self _ _, tw, pend_t⟩
  · intro u hu
    exact mem_insert_of_mem (I.outside u hu)
  · rw [I.count]
    simp only [busy]
    rw [filter_insert, if_neg (by simp [tw, Phase.isCounted])]

lemma Inv.precede {p : Option τ} (tV : t ∈ V) (tw : s.phase t = .waiting) (hp : ∀ q, p = some q → q ∈ V) :
    Inv V (fun u => todo u ∧ (u = t → (gnodePrecede (fun q => (s.phase q).isFinished) s.gnode p t).2 = 0))
      { s with gnode := (gnodePrecede (fun q => (s.phase q).isFinished) s.gnode p t).1 } := by
  cases p with
  | none => exact I.congr fun u => by simp [gnodePrecede]
  | some p =>
    by_cases hf : (s.phase p).isFinished = true
    · simp only [gnodePrecede, hf, if_true]
      exact I.congr fun u => by simp
    · have pV := hp p rfl
      have p_live : s.live p = true := by simpa [Sched.live] using hf
      simp only [gnodePrecede, hf, Bool.false_eq_true, if_false]
      have pend : ∀ u, pending V { s with gnode := gnodeCount (gnodeInsert s.gnode p t) t } u =
            s.pending V u + if t = u then 1 else 0 := by
        intro u
        simp only [pending, succs_count, succs_insert]
        exact pending_link pV p_live t
      refine ⟨?_, ?_, ?_, ?_, ?_, I.ready, I.held, I.nodup, I.apart, I.outside, I.count⟩
      · intro q u hu
        rw [succs_count, succs_insert] at hu
        by_cases e : q = p
        · subst e
          rw [update_self] at hu
          rcases List.mem_cons.1 hu with rfl | hu
          · exact ⟨pV, tV⟩
          · exact I.edge q u hu
        · rw [update_of_ne e] at hu
          exact I.edge q u hu
      · intro u hu hf'
        rw [pend]
        simp only [nPredecessors_count, nPredecessors_insert]
        rw [I.counter u hu hf']
        split <;> simp
      · intro u hu
        have ne : t ≠ u := by
          rintro rfl
          exact hu tw
        rw [pend, if_neg ne]
        exact I.free u hu
      · intro u hu hw hp'
        rw [pend] at hp'
        have ne : u ≠ t := by
          rintro rfl
          simp at hp'
        exact ⟨I.wait u hu hw (by omega), fun e => absurd e ne⟩
      · rintro u ⟨hu, ne⟩
        have ne : t ≠ u := fun e => absurd (ne e.symm) Nat.one_ne_zero
        rw [pend, if_neg ne]
        exact I.first u hu

omit I in
lemma Inv.precedeAll (ps : List (Option τ)) (I : Inv V todo s) (tV : t ∈ V)
    (tw : s.phase t = .waiting) (hp : ∀ q, some q ∈ ps → q ∈ V) :
    Inv V (fun u => todo u ∧ (u = t → (Dag.precedeAll (fun q => (s.phase q).isFinished) s.gnode t ps).2 = 0))
      { s with gnode := (Dag.precedeAll (fun q => (s.phase q).isFinished) s.gnode t ps).1 } := by
  induction ps generalizing s todo with
  | nil => exact I.congr fun u => by simp [Dag.precedeAll]
  | cons p ps ih =>
    have first := I.precede (p := p) tV tw fun q hq => hp q (by simp [hq])
    refine (ih first tw fun q hq => hp q (by simp [hq])).congr fun u => ?_
    simp only [Dag.precedeAll, and_assoc]
    refine and_congr_right fun _ => ⟨fun h e => ?_, fun h => ⟨fun e => ?_, fun e => ?_⟩⟩
    · have h1 := h.1 e
      have h2 := h.2 e
      omega
    · have := h e
      omega
    · have := h e
      omega

lemma Inv.all_done (h0 : s.count = 0) (ht : ∀ t, ¬ todo t)
    (wf : WellFounded fun p t => t ∈ succs s.gnode p) : ∀ t ∈ V, s.phase t = .done := by
  have none : ∀ t ∈ V, (s.phase t).isCounted = false := by
    intro t tV
    have card : (V.filter fun p => (s.phase p).isCounted).card = 0 := by
      have := I.count
      simp only [busy] at this
      omega
    have := filter_eq_empty_iff.1 (card_eq_zero.1 card) tV
    simpa using this
  -- a task in hand is counted, so each task is done or still waiting
  have split : ∀ t ∈ V, s.phase t = .done ∨ s.phase t = .waiting := by
    intro t tV
    have := none t tV
    cases e : s.phase t <;> simp_all [Phase.isCounted]
    obtain ⟨f, hf⟩ := I.held t e
    cases ef : s.phase f <;> simp_all [Phase.ready]
    have := none f (I.outside f (by simp [ef]))
    simp [ef] at this
  intro t
  induction t using wf.induction with
  | h t ih =>
    intro tV
    refine (split t tV).resolve_right fun w => ht t (I.wait t tV w ?_)
    refine pending_eq_zero.2 fun p pV live e => ?_
    simp [Sched.live, ih p e pV, Phase.isFinished] at live

end

end Step
end Sched
end Kupl.Task
