import Kupl.Sched.Deliver

/-!
# Every task is invoked once

The account of the tasks that were handed to `kupl_sched_add_tb`, and what `kupl_sched_execute_tb` finds:
where a task waits and no call is in progress, some executor that polls will invoke one.
-/

namespace Kupl.Sched
open Kupl.Ring List

variable {n m : Nat} {τ : Type}

namespace Config
variable {c : Config n m τ} {own : Fin n} {a : Source n m}

lemma ownSources_store (mem : a ∈ c.ownSources own) : ∃ x, a = .store x := by
  have one (mem : a ∈ c.popOneTb own) : ∃ x, a = .store x := by
    unfold popOneTb at mem
    split at mem
    · obtain rfl | rfl := mem_pair.1 mem <;> exact ⟨_, rfl⟩
    · exact ⟨_, mem_singleton.1 mem⟩
  unfold ownSources at mem
  split at mem
  · obtain mem | mem := mem_append.1 mem
    · exact one mem
    · obtain ⟨x, -, rfl⟩ := mem_map.1 mem
      exact ⟨x, rfl⟩
  · exact one mem

lemma pluginGetTb_own (c : Config n m τ) (own : Fin n) :
    ∃ steals, c.pluginGetTb own = c.ownSources own ++ steals ∧ .inner ∉ c.pluginGetTb own := by
  have one : .inner ∉ c.popOneTb own := by
    unfold popOneTb
    split <;> simp
  cases e : c.plugin with
  | mq =>
    simp only [pluginGetTb, ownSources, e]
    refine ⟨_, rfl, ?_⟩
    unfold mqGetTb
    split <;> simp [one]
  | staticMq =>
    simp only [pluginGetTb, ownSources, e]
    exact ⟨[], (append_nil _).symm, one⟩

end Config

namespace Scheduler
variable {c : Config n m τ} {s s' : Scheduler n m τ} {t : τ} {tb : Taskbase} {own : Fin n}
  {victim : Option (Fin n)} {rest : List (Frame n m)} {sources : List (Source n m)}

/-- Every thread is in no call of the scheduler. -/
def Quiet (s : Scheduler n m τ) : Prop := ∀ t, s.Free t

lemma Free.of_eq (free : s.Free t) (same : s'.stack t = s.stack t) : s'.Free t := by
  unfold Free at free ⊢
  rw [same]
  exact free

lemma Free.hands (I : s.Inv c) (free : s.Free t) : s.holds (.inl t) = [] := hands_bodies (I.bodies free)

/-- The first sources are queues, one of them with a task. -/
def Stored (s : Scheduler n m τ) : List (Source n m) → Prop
  | .store x :: sources => s.holds (.inr x) ≠ [] ∨ Stored s sources
  | _ => False

/-- A get that will find a task: also where it has not come to the inner level yet. -/
def Stocked (c : Config n m τ) (s : Scheduler n m τ) (own : Fin n) (sources : List (Source n m)) : Prop :=
  s.Stored sources ∨
    (sources = [.outer, .inner] ∨ sources = [.inner]) ∧ s.innerUsing = true ∧ s.Stored (c.pluginGetTb own)

/-- A bound on the steps that a source takes. -/
def weight (inner : Nat) : Source n m → Nat
  | .inner => inner + 1
  | _ => 1

/-- A bound on the steps that are left. -/
def rank (inner : Nat) (sources : List (Source n m)) : Nat := (sources.map (weight inner)).sum

lemma Stored.mono (h : s.Stored sources) (le : ∀ x, s.holds (.inr x) ≠ [] → s'.holds (.inr x) ≠ []) :
    s'.Stored sources := by
  induction sources with
  | nil => exact h.elim
  | cons a sources ih =>
    cases a with
    | store x =>
      obtain here | later := h
      · exact .inl (le x here)
      · exact .inr (ih later)
    | _ => exact h.elim

lemma stored_of_mem {stores steals : List (Source n m)} (all : ∀ a ∈ stores, ∃ x, a = .store x)
    {x : Store n m} (mem : .store x ∈ stores) (ne : s.holds (.inr x) ≠ []) : s.Stored (stores ++ steals) := by
  induction stores with
  | nil => cases mem
  | cons a stores ih =>
    obtain ⟨y, rfl⟩ := all a mem_cons_self
    obtain e | mem := mem_cons.1 mem
    · cases e
      exact .inl ne
    · exact .inr (ih (fun a mem => all a (mem_cons_of_mem _ mem)) mem)

section Balance
variable [Fintype τ] [DecidableEq τ]

lemma Effect.balance (E : Effect c s s') (sched : c.Scheduled tb)
    (b : s.handed.count tb = s.invoked.count tb + total s.holds tb) :
    s'.handed.count tb = s'.invoked.count tb + total s'.holds tb := by
  have other {x : Taskbase} (outer : c.hybrid = true ∧ x.Outer) : [x].count tb = 0 := by
    apply count_eq_zero_of_not_mem
    intro mem
    rw [mem_singleton.1 mem] at sched
    exact sched outer
  cases E with
  | stays handed invoked h | put t x y handed invoked h => rw [handed, invoked, h.total, b]
  | handed t x handed invoked h =>
    rw [handed, invoked, h.total, count_append, b]
    omega
  | atOnce x handed invoked h =>
    rw [handed, invoked, h.total, count_append, count_append, b]
    omega
  | refused t x handed invoked h | taken x y handed invoked h =>
    have total := h.total (y := tb)
    rw [handed, invoked, count_append, b, total]
    omega
  | slot t x outer handed invoked h =>
    have total := h.total (y := tb)
    rw [handed, invoked, b, total, other outer, Nat.add_zero]
  | loop x outer handed invoked h =>
    rw [handed, invoked, count_append, h.total, other outer, Nat.add_zero, b]

omit [DecidableEq τ] in
lemma inv_of_created (h : Created c s) : s.Inv c ∧ ∀ tb, s.handed.count tb =
    s.invoked.count tb + total s.holds tb := by
  obtain ⟨queue, bounds, size, ⟨calloc, spsc⟩, heap, cnt, slots, -, -, -, stack, handed, invoked⟩ := h
  have created : Ring.PriorityQueue.Created
      (⟨s.prio.size, s.prio.spsc, .start, none, fun _ => .out, [], 0, 0, [], []⟩ :
        Ring.PriorityQueue Unit Unit Taskbase) :=
    ⟨size ▸ bounds.1, size ▸ bounds.2, ⟨calloc, size ▸ spsc⟩, rfl, rfl, rfl, rfl, rfl, rfl, rfl, rfl⟩
  have R : Ring.PriorityQueue.Inv Taskbase.priority _ := Ring.PriorityQueue.inv_of_created created
  have L := kuplVectorCreate_logs spsc
  have none (p : τ ⊕ Store n m) : s.holds p = [] := by
    rcases p with t | _ | q
    · rw [holds, stack]
      rfl
    · show contents s.prio.spsc ++ s.prio.heap = []
      rw [contents_eq L, heap]
      rfl
    · obtain ⟨calloc, e⟩ := queue q
      exact contents_eq (kuplVectorCreate_logs e)
  refine ⟨⟨fun q => ?_, ⟨⟨[], 0, L⟩, R.size, R.zero, ?_, ?_⟩, slots, fun t => ?_, fun x ne => ?_⟩,
    fun tb => ?_⟩
  · obtain ⟨calloc, e⟩ := queue q
    exact ⟨[], 0, kuplVectorCreate_logs e⟩
  · rw [heap]
    exact R.size.1
  · rw [cnt, heap]
    rfl
  · rw [stack]
    trivial
  · exact absurd (none _) ne
  · rw [handed, invoked, total]
    simp [none]

end Balance

section Alone
variable [Fintype τ] [DecidableEq τ]

/-- Thread `t` goes on alone, its choices given one after the other. -/
def alone (c : Config n m τ) (t : τ) : Scheduler n m τ → List (Choice n) → Option (Scheduler n m τ)
  | s, [] => some s
  | s, o :: w =>
    match s.step c (.go t o) with
    | none => none
    | some s' => alone c t s' w

/-- A call of `kupl_sched_execute_tb` by a thread that runs alone, while no region arrives, invokes a task:
it can go on until it has done so, and there is a bound on its steps. -/
def PollInvokes (c : Config n m τ) (s : Scheduler n m τ) (t : τ) : Prop :=
  ∃ s₀ N, s.step c (.execute t) = some s₀ ∧ ∀ w s', .arrive ∉ w → alone c t s₀ w = some s' →
    w.length ≤ N ∧ ((∃ tb rest, s'.stack t = .body tb :: rest ∧ s'.invoked = s.invoked ++ [tb]) ∨
      (s'.invoked = s.invoked ∧ ∃ o, o ≠ .arrive ∧ (s'.step c (.go t o)).isSome))

/-- A get that will find a task, while the others are in no call. -/
structure Nears (c : Config n m τ) (s : Scheduler n m τ) (t : τ) (own : Fin n) (sources : List (Source n m)) :
    Prop where
  inv : s.Inv c
  others : ∀ u, u ≠ t → s.Free u
  top : ∃ victim rest, s.stack t = .get own sources victim :: rest
  stocked : s.Stocked c own sources

section
variable (h : s.Nears c t own sources)
include h

lemma Nears.exists_step : ∃ o, o ≠ .arrive ∧ (s.step c (.go t o)).isSome := by
  obtain ⟨victim, rest, top⟩ := h.top
  have plain (e : (s.getStep c t own victim rest .plain sources).isSome) :
      ∃ o, o ≠ .arrive ∧ (s.step c (.go t o)).isSome := by
    refine ⟨.plain, (by rintro ⟨⟩), ?_⟩
    simp only [step, top]
    exact e
  obtain stored | ⟨rfl | rfl, -⟩ := h.stocked
  · cases sources with
    | nil => exact stored.elim
    | cons a sources =>
      rcases a with _ | _ | (_ | q) | _ | _
      · exact stored.elim
      · exact stored.elim
      · by_cases nil : s.prio.all = []
        · obtain ⟨p, e⟩ := PriorityQueue.get_nil Taskbase.priority h.inv.prio nil
          apply plain
          simp only [getStep, e]
          rfl
        · obtain ⟨tb, p, e⟩ := PriorityQueue.exists_get Taskbase.priority h.inv.prio nil
          refine ⟨.top tb, (by rintro ⟨⟩), ?_⟩
          simp only [step, top, getStep, e]
          rfl
      · apply plain
        simp only [getStep, if_true]
        split <;> rfl
      · exact stored.elim
      · exact stored.elim
  · apply plain
    rfl
  · apply plain
    rfl

omit [Fintype τ] in
lemma Nears.next {sources' : List (Source n m)} {r : Scheduler n m τ} {fs : List (Frame n m)} {victim : Option (Fin n)}
    (inv : (r.setStack t (.get own sources' victim :: fs)).Inv c) (stack : r.stack = s.stack)
    (stocked : r.Stocked c own sources') : (r.setStack t (.get own sources' victim :: fs)).Nears c t own sources' := by
  refine ⟨inv, fun u ne => ?_, ⟨victim, fs, Function.update_self ..⟩, ?_⟩
  · apply (h.others u ne).of_eq
    rw [← stack]
    exact Function.update_of_ne ne _ _
  · have same (x : Store n m) : (r.setStack t (.get own sources' victim :: fs)).holds (.inr x) = r.holds (.inr x) := by
      cases x <;> rfl
    have mono {l : List (Source n m)} (st : r.Stored l) : (r.setStack t (.get own sources' victim :: fs)).Stored l :=
      st.mono fun x ne => by rwa [same]
    obtain st | ⟨at', using', st⟩ := stocked
    · exact .inl (mono st)
    · exact .inr ⟨at', using', mono st⟩

lemma Nears.step {o : Choice n} (no : o ≠ .arrive) (e : s.step c (.go t o) = some s') :
    (∃ tb rest, s'.stack t = .body tb :: rest ∧ s'.invoked = s.invoked ++ [tb]) ∨
      s'.invoked = s.invoked ∧ ∃ sources', s'.Nears c t own sources' ∧
        rank (c.pluginGetTb own).length sources' < rank (c.pluginGetTb own).length sources := by
  have inv := (step_ok h.inv e).1
  obtain ⟨victim, rest, top⟩ := h.top
  simp only [Scheduler.step, top] at e
  have found (r : Scheduler n m τ) (tb : Taskbase) (invoked : r.invoked = s.invoked) :
      ∃ tb' rest', (r.found t own victim tb rest).stack t = .body tb' :: rest' ∧
        (r.found t own victim tb rest).invoked = s.invoked ++ [tb'] := by
    refine ⟨tb, rest, Function.update_self .., ?_⟩
    rw [← invoked]
    cases victim <;> rfl
  obtain stored | ⟨rfl | rfl, using', stored⟩ := h.stocked
  · cases sources with
    | nil => exact stored.elim
    | cons a sources =>
      have less : rank (c.pluginGetTb own).length sources < rank (c.pluginGetTb own).length (a :: sources) := by
        have one : 1 ≤ weight (c.pluginGetTb own).length a := by
          cases a <;> simp [weight]
        rw [rank, rank, map_cons, sum_cons]
        omega
      rcases a with _ | _ | (_ | q) | _ | _
      · exact stored.elim
      · exact stored.elim
      · simp only [getStep] at e
        split at e
        · split at e
          · rename_i busy
            obtain ⟨u, ne, getting⟩ := busy
            have free := h.others u ne
            unfold Free at free
            unfold Scheduler.getting at getting
            split at getting
            · rename_i eq
              rw [eq] at free
              exact free.elim
            · cases getting
          · cases e
        · split at e
          · rename_i p ep
            cases e
            obtain ⟨-, nil, nil'⟩ := PriorityQueue.priorityQueueGetTb_ok h.inv.prio ep
            have later : s.Stored sources := stored.resolve_left fun ne => ne nil
            refine .inr ⟨rfl, sources, h.next inv rfl (.inl (later.mono fun x ne => ?_)), less⟩
            cases x with
            | prio => exact absurd nil ne
            | queue q => exact ne
          · cases e
        · split at e
          · cases e
            exact .inl (found _ _ rfl)
          · cases e
        · cases e
      · simp only [getStep] at e
        split at e
        · split at e
          · cases e
            exact .inl (found _ _ rfl)
          · rename_i none
            cases e
            have nil := (queueGetTb_none (h.inv.queues q)).1 none
            have later : s.Stored sources := stored.resolve_left fun ne => ne nil
            exact .inr ⟨rfl, sources, h.next inv rfl (.inl later), less⟩
        · cases e
      · exact stored.elim
      · exact stored.elim
  · simp only [getStep] at e
    split at e
    · cases e
      refine .inr ⟨rfl, [.inner], h.next inv rfl (.inr ⟨.inr rfl, using', stored⟩), ?_⟩
      simp [rank, weight]
    · exact absurd rfl no
    · exact absurd rfl no
    · cases e
  · simp only [getStep] at e
    split at e
    · cases e
      simp only [append_nil] at inv ⊢
      refine .inr ⟨rfl, c.pluginGetTb own, h.next inv rfl (.inl stored), ?_⟩
      obtain ⟨-, -, noInner⟩ := c.pluginGetTb_own own
      have ones : (c.pluginGetTb own).map (weight (c.pluginGetTb own).length) = (c.pluginGetTb own).map fun _ => 1 := by
        apply map_congr_left
        intro a mem
        cases a with
        | inner => exact absurd mem noInner
        | _ => rfl
      rw [rank, ones, map_const', sum_replicate]
      simp [rank, weight]
    · cases e

omit h in
omit [Fintype τ] [DecidableEq τ] in
lemma Stocked.rank_pos {inner : Nat} (h : s.Stocked c own sources) : 0 < rank inner sources := by
  cases sources with
  | nil =>
    obtain stored | ⟨e | e, -⟩ := h
    · exact stored.elim
    · cases e
    · cases e
  | cons a sources =>
    have one : 1 ≤ weight inner a := by
      cases a <;> simp [weight]
    rw [rank, map_cons, sum_cons]
    omega

lemma Nears.alone {w : List (Choice n)} (no : .arrive ∉ w)
    (e : alone c t s w = some s') : w.length ≤ rank (c.pluginGetTb own).length sources ∧
      ((∃ tb rest, s'.stack t = .body tb :: rest ∧ s'.invoked = s.invoked ++ [tb]) ∨
        (s'.invoked = s.invoked ∧ ∃ o, o ≠ .arrive ∧ (s'.step c (.go t o)).isSome)) := by
  induction w generalizing s sources with
  | nil =>
    cases e
    exact ⟨Nat.zero_le _, .inr ⟨rfl, h.exists_step⟩⟩
  | cons o w ih =>
    obtain ⟨first, others⟩ := not_or.1 (mt mem_cons.2 no)
    simp only [Scheduler.alone] at e
    split at e
    · cases e
    · rename_i s₁ e₁
      obtain ⟨tb, rest, top, invoked⟩ | ⟨invoked, sources', h', less⟩ := h.step (Ne.symm first) e₁
      · cases w with
        | nil =>
          cases e
          exact ⟨h.stocked.rank_pos, .inl ⟨tb, rest, top, invoked⟩⟩
        | cons o' w =>
          simp only [Scheduler.alone, Scheduler.step, top] at e
          cases e
      · obtain ⟨le, outcome⟩ := ih h' others e
        rw [invoked] at outcome
        exact ⟨Nat.le_trans (Nat.succ_le_succ le) less, outcome⟩

end

lemma exists_pollInvokes (I : s.Inv c) (quiet : s.Quiet) {x : Store n m} (ne : s.holds (.inr x) ≠ []) :
    ∃ t, s.PollInvokes c t := by
  obtain ⟨⟨own, mem⟩, level⟩ := I.stores x ne
  obtain ⟨t, et⟩ := c.thread own
  have e : s.step c (.execute t) = some (s.setStack t (.get own (c.hybridGetTb own) none :: s.stack t)) := by
    simp only [Scheduler.step, if_pos (quiet t), et]
  obtain ⟨steals, split, -⟩ := c.pluginGetTb_own own
  have stored : s.Stored (c.pluginGetTb own) := by
    rw [split]
    exact stored_of_mem (fun a => c.ownSources_store) mem ne
  have stocked : s.Stocked c own (c.hybridGetTb own) := by
    unfold Config.hybridGetTb
    split
    · rename_i hybrid
      exact .inr ⟨.inl rfl, level hybrid, stored⟩
    · exact .inl stored
  have same : (s.setStack t (.get own (c.hybridGetTb own) none :: s.stack t)).holds = s.holds := by
    rw [holds_setStack]
    exact Function.update_eq_self ..
  have nears : (s.setStack t (.get own (c.hybridGetTb own) none :: s.stack t)).Nears c t own
      (c.hybridGetTb own) := by
    refine ⟨(step_ok I e).1, fun u other => ?_, ⟨none, s.stack t, Function.update_self ..⟩, ?_⟩
    · exact (quiet u).of_eq (Function.update_of_ne other _ _)
    · have mono {l : List (Source n m)} (st : s.Stored l) :
          (s.setStack t (.get own (c.hybridGetTb own) none :: s.stack t)).Stored l := by
        apply st.mono
        intro x ne
        rwa [same]
      obtain st | ⟨at', using', st⟩ := stocked
      · exact .inl (mono st)
      · exact .inr ⟨at', using', mono st⟩
  exact ⟨t, _, _, e, fun w s' no ew => nears.alone no ew⟩

omit [DecidableEq τ] in
lemma exists_store (I : s.Inv c) (quiet : s.Quiet) (pos : 0 < total s.holds tb) :
    ∃ x : Store n m, s.holds (.inr x) ≠ [] := by
  obtain ⟨p, -, ne⟩ := Finset.exists_ne_zero_of_sum_ne_zero (Nat.ne_of_gt pos)
  cases p with
  | inl t =>
    refine absurd ?_ ne
    rw [(quiet t).hands I]
    rfl
  | inr x =>
    refine ⟨x, fun nil => ne ?_⟩
    rw [nil]
    rfl

/-- In every run of any threads, under mq, static_mq or hybrid: each taskbase that was handed over, other
than one of the outer level of hybrid, was invoked or is in one place, the hands of a thread that is adding
it or a queue, as often as it was handed over and not invoked; each step takes at most one task from
one place to the next, an invocation from the queue it was in or from the hands of the thread that was
refused; and where no call is in progress and something was not invoked, a poll will invoke a task. -/
theorem taskbase_invoked_once (h : (machine c).Reachable s) :
    (∀ tb, c.Scheduled tb → s.handed.count tb = s.invoked.count tb + total s.holds tb) ∧
    (∀ l s', s.step c l = some s' → Effect c s s') ∧
    (s.Quiet → ∀ tb, c.Scheduled tb → s.invoked.count tb < s.handed.count tb → ∃ t, s.PollInvokes c t) := by
  have H : s.Inv c ∧ ∀ tb, c.Scheduled tb → s.handed.count tb = s.invoked.count tb + total s.holds tb := by
    apply h.inv (I := fun s => s.Inv c ∧
      ∀ tb, c.Scheduled tb → s.handed.count tb = s.invoked.count tb + total s.holds tb)
    · exact fun _ h => ⟨(inv_of_created h).1, fun tb _ => (inv_of_created h).2 tb⟩
    · exact fun _ _ _ I _ e => ⟨(step_ok I.1 e).1, fun tb sched => (step_ok I.1 e).2.balance sched (I.2 tb sched)⟩
  refine ⟨H.2, fun l s' e => (step_ok H.1 e).2, fun quiet tb sched lt => ?_⟩
  have balance := H.2 tb sched
  have pos : 0 < total s.holds tb := by omega
  obtain ⟨x, ne⟩ := exists_store H.1 quiet pos
  exact exists_pollInvokes H.1 quiet ne

end Alone

/-- Two executors under hybrid with mq, each queue for one task, a place queue for the first executor. -/
def twoExecutors : Config 2 1 (Fin 2) where
  plugin := .mq
  hybrid := true
  enablePriority := true
  queueSize := 2
  places := fun e => if e = 0 then [0] else []
  own := some
  thread := fun e => ⟨e, rfl⟩

/-- A scheduler of `twoExecutors` before any call. -/
def atStart : Scheduler 2 1 (Fin 2) where
  queue := fun q => match q with
    | .inl _ => ⟨0, 0, 2, 8, fun _ => default⟩
    | .inr _ => ⟨0, 0, 32, 8, fun _ => default⟩
  prio := ⟨2, ⟨0, 0, 2, 8, fun _ => default⟩, [], 0⟩
  slot := fun _ => none
  lastSteal := fun _ => none
  outerUsing := true
  innerUsing := false
  full := fun _ => false
  stack := fun _ => []
  handed := []
  invoked := []

lemma created_atStart : Created twoExecutors atStart := by
  refine ⟨fun q => ⟨true, ?_⟩, by decide, rfl, ⟨true, rfl⟩, rfl, rfl, nofun, rfl, rfl, rfl, rfl, rfl, rfl⟩
  cases q <;> rfl

/-- Two tasks for the second executor: the other one goes to the place queue of the thread that adds it. -/
theorem taskbase_invoked_once_two : ∃ s, (machine twoExecutors).Reachable s ∧
    s.handed = [⟨0, 1, 0, 0⟩, ⟨1, 1, 0, 0⟩] ∧
      s.invoked = [⟨0, 1, 0, 0⟩] ∧ total s.holds ⟨1, 1, 0, 0⟩ = 1 := by
  obtain ⟨s, h, hs⟩ := Machine.reach_of_run (M := machine twoExecutors) (g := fun _ _ => True) (s := atStart)
    (w := [.add 0 ⟨0, 1, 0, 0⟩, .go 0 .plain, .add 0 ⟨1, 1, 0, 0⟩, .go 0 .plain, .execute 1, .go 0 .plain,
      .go 1 .plain, .go 1 .plain, .go 1 .plain, .go 1 .plain])
    (P := fun s => decide (s.handed = [⟨0, 1, 0, 0⟩, ⟨1, 1, 0, 0⟩] ∧ s.invoked = [⟨0, 1, 0, 0⟩]))
    created_atStart (by decide)
  obtain ⟨handed, invoked⟩ := of_decide_eq_true hs
  have balance := (taskbase_invoked_once h).1 ⟨1, 1, 0, 0⟩ (by decide)
  rw [handed, invoked] at balance
  exact ⟨s, h, handed, invoked, by simpa using balance.symm⟩

/-- A task with the flag of the outer level takes the slot of its executor, and is invoked for each region. -/
theorem taskbase_invoked_once_not : ∃ s, (machine twoExecutors).Reachable s ∧
    s.handed = [⟨0, 0, flagHybridOuter, 0⟩] ∧
      s.invoked = [⟨0, 0, flagHybridOuter, 0⟩, ⟨0, 0, flagHybridOuter, 0⟩] := by
  obtain ⟨s, h, hs⟩ := Machine.reach_of_run (M := machine twoExecutors) (g := fun _ _ => True) (s := atStart)
    (w := [.add 0 ⟨0, 0, flagHybridOuter, 0⟩, .go 0 .plain, .execute 0, .go 0 .arrive, .finish 0,
      .execute 0, .go 0 .arrive])
    (P := fun s => decide (s.handed = [⟨0, 0, flagHybridOuter, 0⟩] ∧
      s.invoked = [⟨0, 0, flagHybridOuter, 0⟩, ⟨0, 0, flagHybridOuter, 0⟩]))
    created_atStart (by decide)
  exact ⟨s, h, of_decide_eq_true hs⟩

end Scheduler
end Kupl.Sched
