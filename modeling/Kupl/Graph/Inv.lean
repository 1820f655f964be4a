import Kupl.Graph.Machine

/-!
# The invariant of a graph

What holds in every state of a graph whose dependent submissions are `DepsOk`: the counters hold the
edges still to be released, the hash knows the earlier tasks, edges lead from earlier tasks to later
ones, and two tasks that clash are joined by a chain of edges unless the earlier one had finished.
-/

namespace Kupl.Graph
open Dag Kupl.Task Prec
open Function (update update_of_ne update_self)

def GraphState.succ (s : GraphState) : Nat → List Nat := succs s.sched.gnode

structure GraphInv (s : GraphState) : Prop where
  sched : s.sched.Inv s.accepted fun _ => False
  hash : HashInv s.accepted s.ops s.finished s.succ s.hash
  ids : ∀ t ∈ s.accepted, t < s.ntasks
  lt : ∀ p t, t ∈ s.succ p → p < t
  order : ∀ i ∈ s.accepted, ∀ j ∈ s.accepted, i < j → ∀ d ∈ s.ops j, Clash (s.ops i) d →
    s.finished i = true ∨ Path s.succ i j

variable {s s' : GraphState} {t : Nat}

section
variable (I : GraphInv s)
include I

lemma GraphInv.closed : ∀ p t, t ∈ s.succ p → s.finished t = true → s.finished p = true := by
  intro p t e ht
  refine I.sched.preds_finished (t := t) ?_ e
  intro w
  simp [GraphState.finished, w, Phase.isFinished] at ht

lemma GraphInv.fresh : s.ntasks ∉ s.accepted := fun h => Nat.lt_irrefl _ (I.ids _ h)

omit I in
lemma GraphInv.create : GraphInv .create := by
  refine ⟨⟨?_, ?_, ?_, ?_, ?_, ?_, ?_, ?_, ?_, ?_, ?_⟩, ⟨?_, ?_, ?_⟩, ?_, ?_, ?_⟩ <;>
    simp [GraphState.create, GraphState.succ, succs, gnodeInit, Phase.ready, Sched.busy, Phase.isCounted]

lemma GraphInv.sched_step {x : Sched Nat} (hx : x.Inv s.accepted fun _ => False) (hs : succs x.gnode = s.succ)
    (hf : ∀ t, s.finished t = true → (x.phase t).isFinished = true) : GraphInv { s with sched := x } := by
  have succ_eq : GraphState.succ { s with sched := x } = s.succ := hs
  refine ⟨hx, ?_, I.ids, ?_, ?_⟩
  · rw [succ_eq]
    exact I.hash.mono hf fun _ _ h => h
  · rw [succ_eq]
    exact I.lt
  · rw [succ_eq]
    intro i hi j hj ij d hd clash
    exact (I.order i hi j hj ij d hd clash).imp_left (hf i)

lemma GraphInv.task {a : Label} (h : s.step a = some s') (ha : ∀ x, a ≠ .submit x) : GraphInv s' := by
  have keep : ∀ (t : Nat) (p : Phase Nat), (s.finished t = true → p.isFinished = true) →
      ∀ u, s.finished u = true → (update s.sched.phase t p u).isFinished = true := by
    intro t p hp u hu
    by_cases e : u = t
    · subst e
      rw [update_self]
      exact hp hu
    · rwa [update_of_ne e]
  cases a with
  | submit x => exact absurd rfl (ha x)
  | execute t =>
    obtain ⟨x, hx, rfl⟩ := Option.map_eq_some_iff.1 h
    refine I.sched_step (I.sched.execute hx) ?_ ?_ <;> unfold Sched.taskExecute at hx <;>
      split at hx <;> cases hx
    · rfl
    · rename_i e
      exact keep t _ fun ht => by simp [GraphState.finished, e, Phase.isFinished] at ht
  | finish t =>
    obtain ⟨x, hx, rfl⟩ := Option.map_eq_some_iff.1 h
    refine I.sched_step (I.sched.finish hx) ?_ fun _ => I.sched.finish_finished hx
    unfold Sched.taskFinish at hx
    split at hx <;> cases hx
    exact succs_releaseWalk
  | schedule t =>
    obtain ⟨x, hx, rfl⟩ := Option.map_eq_some_iff.1 h
    refine I.sched_step (I.sched.schedule hx) ?_ fun _ => I.sched.schedule_finished hx
    unfold Sched.taskSchedule at hx
    split at hx <;> cases hx
    rfl
  | countSub t =>
    obtain ⟨x, hx, rfl⟩ := Option.map_eq_some_iff.1 h
    refine I.sched_step (I.sched.countSub hx) ?_ ?_ <;> unfold Sched.tbCountSub at hx <;>
      split at hx <;> cases hx
    · rfl
    · exact keep t _ fun _ => rfl

lemma GraphInv.next : s.succ s.ntasks = [] ∧ s.sched.phase s.ntasks = .waiting := by
  refine ⟨?_, ?_⟩
  · by_contra some
    obtain ⟨u, hu⟩ := List.exists_mem_of_ne_nil _ some
    exact I.fresh (I.sched.edge _ _ hu).1
  · by_contra w
    exact I.fresh (I.sched.outside _ w)

lemma GraphInv.newTask : s.newTask.sched.Inv s.newTask.accepted (fun u => u = s.ntasks) ∧ s.newTask.succ = s.succ ∧
      HashInv s.newTask.accepted (update s.ops s.ntasks []) s.finished s.succ s.hash := by
  have succ_eq : s.newTask.succ = s.succ := by
    funext q
    by_cases e : q = s.ntasks
    · subst e
      rw [I.next.1]
      simp [GraphState.succ, GraphState.newTask, succs, gnodeInit]
    · simp [GraphState.succ, GraphState.newTask, succs, e]
  exact ⟨(I.sched.join I.fresh).congr fun u => by simp, succ_eq, I.hash.insert I.fresh⟩

lemma GraphInv.grow {l : List TaskDep} (acc : s'.accepted = insert s.ntasks s.accepted) (nt : s'.ntasks = s.ntasks + 1)
    (fin : s'.finished = s.finished) (ops : s'.ops = update s.ops s.ntasks l)
    (sched : s'.sched.Inv s'.accepted fun _ => False)
    (hash : HashInv s'.accepted s'.ops s'.finished s'.succ s'.hash)
    (keep : ∀ p u, u ∈ s.succ p → u ∈ s'.succ p)
    (new : ∀ p u, u ∈ s'.succ p → u ∈ s.succ p ∨ u = s.ntasks ∧ p ∈ s.accepted)
    (order : ∀ i ∈ s.accepted, ∀ d ∈ l, Clash (s.ops i) d →
      s.finished i = true ∨ Path s'.succ i s.ntasks) : GraphInv s' := by
  refine ⟨sched, hash, ?_, ?_, ?_⟩
  · intro t ht
    rw [acc] at ht
    rw [nt]
    rcases Finset.mem_insert.1 ht with rfl | ht
    · exact Nat.lt_succ_self _
    · exact Nat.lt_succ_of_lt (I.ids t ht)
  · intro p u hu
    rcases new p u hu with h | ⟨rfl, h⟩
    · exact I.lt p u h
    · exact I.ids p h
  · intro i hi j hj ij d hd clash
    rw [acc] at hi hj
    rw [ops] at hd clash
    rw [fin]
    have ne : i ≠ s.ntasks := by
      rintro rfl
      rcases Finset.mem_insert.1 hj with rfl | hj
      · exact Nat.lt_irrefl _ ij
      · exact Nat.lt_asymm ij (I.ids j hj)
    have iV := Finset.mem_of_mem_insert_of_ne hi ne
    rw [update_of_ne ne] at clash
    by_cases e : j = s.ntasks
    · subst e
      rw [update_self] at hd
      exact order i iV d hd clash
    · rw [update_of_ne e] at hd
      have jV := Finset.mem_of_mem_insert_of_ne hj e
      exact (I.order i iV j jV ij d hd clash).imp_right fun path => path.mono keep

lemma GraphInv.addPlain : GraphInv s.addPlain := by
  obtain ⟨joined, succ_eq, hash⟩ := I.newTask
  have succ_eq : s.addPlain.succ = s.succ := succ_eq
  have fin_eq : s.addPlain.finished = s.finished := by
    funext u
    by_cases e : u = s.ntasks
    · subst e
      simp [GraphState.finished, GraphState.addPlain, GraphState.newTask, Sched.schedAddTb, I.next.2, Phase.isFinished]
    · simp [GraphState.finished, GraphState.addPlain, GraphState.newTask, Sched.schedAddTb, e]
  have ops_eq : s.addPlain.ops = update s.ops s.ntasks [] := by
    funext u
    by_cases e : u = s.ntasks
    · subst e
      simp [GraphState.ops, GraphState.addPlain, GraphState.newTask, normalDeps]
    · simp [GraphState.ops, GraphState.addPlain, GraphState.newTask, e]
  refine I.grow (l := []) rfl rfl fin_eq ops_eq ?_ ?_ ?_ ?_ ?_
  · exact (joined.addTb rfl).congr fun u => by simp
  · rw [ops_eq, fin_eq, succ_eq]
    exact hash
  · rw [succ_eq]
    exact fun _ _ h => h
  · rw [succ_eq]
    exact fun _ _ h => .inl h
  · intro i _ d hd
    cases hd

lemma GraphInv.addTaskloop {n : Nat} : GraphInv (s.addTaskloop n) := by
  induction n generalizing s with
  | zero => exact I
  | succ n ih => exact ih I.addPlain

end

section Dependent
variable {ds : List TaskDep} {junk : Nat → TaskDep}

lemma GraphInv.addTask_refused (I : GraphInv s) {d rest v} (h : depListRmDup junk ds = d :: rest)
    (hd : d.type = .other v) : GraphInv (s.addTask ds junk) := by
  obtain ⟨-, succ_eq, -⟩ := I.newTask
  have refused : dagAddTask s.finished ⟨s.newTask.sched.gnode, s.hash⟩ s.ntasks junk ds =
      (⟨s.newTask.sched.gnode, (findEntry s.finished s.hash d.baseAddr).1⟩, .error) := by
    simp [dagAddTask, h, nodeProcessDeps, nodeProcessDep, hd]
  simp only [GraphState.addTask, refused]
  refine ⟨?_, ?_, fun t ht => Nat.lt_succ_of_lt (I.ids t ht), ?_, ?_⟩
  · refine I.sched.gnode_congr succ_eq fun t ht => ?_
    have ne : t ≠ s.ntasks := (I.ids t ht).ne
    simp [GraphState.newTask, ne]
  · have found := (I.hash.find I.closed (a := d.baseAddr)).1
    rw [← succ_eq] at found
    exact found
  · exact fun p t e => I.lt p t (succ_eq ▸ e)
  · have order := I.order
    rw [← succ_eq] at order
    exact order

lemma GraphInv.addTask_entered (I : GraphInv s)
    (h : ds.any TaskDep.isAll = true ∨ Plain ds) : GraphInv (s.addTask ds junk) := by
  obtain ⟨joined, succ_eq, hash⟩ := I.newTask
  have normal : depListRmDup junk ds = normalDeps ds :=
    depListRmDup_normal (h.imp_right fun plain => plain.2.imp fun hp e => by
      obtain ⟨h1, h2⟩ := hp e
      rw [h1, h2])
  have tV : s.ntasks ∈ s.newTask.accepted := Finset.mem_insert_self _ _
  have tw : s.newTask.sched.phase s.ntasks = .waiting := I.next.2
  have fin_t : s.finished s.ntasks = false := by
    simp [GraphState.finished, I.next.2, Phase.isFinished]
  rw [← succ_eq] at hash
  obtain ⟨ts, hash', mem, run, inv, order⟩ := hash.enter_deps
    (D := ⟨s.newTask.sched.gnode, s.hash⟩) (normalDeps ds)
    (by rw [show succs s.newTask.sched.gnode = s.succ from succ_eq]; exact I.closed) tV fin_t
    (by rw [update_self]; exact fitsAll_normalDeps h)
  generalize hr : precedeAll s.finished s.newTask.sched.gnode s.ntasks ts = r at run inv order
  have linked := joined.precedeAll ts tV tw fun q hq => (mem q hq).1
  rw [show precedeAll (fun q => (s.newTask.sched.phase q).isFinished) s.newTask.sched.gnode s.ntasks
    ts = r from hr] at linked
  have counter : (r.1 s.ntasks).nPredecessors = r.2 := by
    rw [← hr, nPredecessors_precedeAll]
    simp [GraphState.newTask, gnodeInit]
  have ops_eq : update s.ops s.ntasks (normalDeps ds) = fun i => normalDeps (update s.deps s.ntasks ds i) := by
    funext u
    by_cases e : u = s.ntasks
    · subst e
      simp
    · simp [GraphState.ops, e]
  rw [Function.update_idem, update_self, List.nil_append, ops_eq] at inv
  have order' : ∀ i ∈ s.accepted, ∀ d ∈ normalDeps ds, Clash (s.ops i) d →
      s.finished i = true ∨ Path (succs r.1) i s.ntasks := by
    intro i hi d hd clash
    have ne : i ≠ s.ntasks := (I.ids i hi).ne
    exact order i (Finset.mem_insert_of_mem hi) ne d hd (by rwa [update_of_ne ne])
  have keep : ∀ p u, u ∈ s.succ p → u ∈ succs r.1 p := by
    rw [← succ_eq, ← hr]
    exact fun p u h => succs_precedeAll_sub _ h
  have new : ∀ p u, u ∈ succs r.1 p → u ∈ s.succ p ∨ u = s.ntasks ∧ p ∈ s.accepted := by
    rw [← succ_eq, ← hr]
    intro p u h
    rcases mem_succs_precedeAll h with h | ⟨rfl, hp, -⟩
    · exact .inl h
    · obtain ⟨pV, ne⟩ := mem p hp
      exact .inr ⟨rfl, Finset.mem_of_mem_insert_of_ne pV ne⟩
  by_cases ready : r.2 = 0
  · have result : dagAddTask s.finished ⟨s.newTask.sched.gnode, s.hash⟩ s.ntasks junk ds =
      (⟨r.1, hash'⟩, .ready) := by
      simp [dagAddTask, normal, run, counter, ready]
    simp only [GraphState.addTask, result]
    have fin_eq : ∀ t, ((Sched.schedAddTb { s.newTask.sched with gnode := r.1 } s.ntasks).phase
        t).isFinished = s.finished t := by
      intro t
      by_cases e : t = s.ntasks
      · subst e
        simp [Sched.schedAddTb, fin_t, Phase.isFinished]
      · simp [Sched.schedAddTb, e, GraphState.newTask, GraphState.finished]
    refine I.grow rfl rfl (funext fin_eq) ops_eq.symm ?_ ?_ keep new order'
    · exact (linked.addTb ⟨rfl, fun _ => ready⟩).congr fun u => by
        simp only [iff_false]
        exact fun h => h.2 h.1.1
    · have fin_fun : GraphState.finished { s.newTask with
          sched := Sched.schedAddTb { s.newTask.sched with gnode := r.1 } s.ntasks
          hash := hash'
          deps := update s.deps s.ntasks ds } = s.finished := funext fin_eq
      rw [fin_fun]
      exact inv
  · have result : dagAddTask s.finished ⟨s.newTask.sched.gnode, s.hash⟩ s.ntasks junk ds =
        (⟨r.1, hash'⟩, .notReady) := by
      simp only [dagAddTask, normal, run, counter]
      rw [if_neg (by omega)]
    simp only [GraphState.addTask, result]
    refine I.grow rfl rfl rfl ops_eq.symm ?_ inv keep new order'
    exact linked.congr fun u => by
      simp only [iff_false]
      exact fun h => ready (h.2 h.1)

lemma GraphInv.addTask (I : GraphInv s) (h : DepsOk junk ds) : GraphInv (s.addTask ds junk) := by
  rcases h with h | h | h
  · exact I.addTask_entered (.inl h)
  · exact I.addTask_entered (.inr h)
  · unfold RefusedFirst at h
    split at h
    · rename_i hl
      exact I.addTask_refused hl rfl
    · cases h

end Dependent

lemma GraphInv.step {a : Label} (I : GraphInv s) (ha : Guard s a) (h : s.step a = some s') : GraphInv s' := by
  cases a with
  | submit x =>
    cases h
    cases x with
    | dependent ds junk => exact I.addTask ha
    | plain | sgraph => exact I.addPlain
    | taskloop n => exact I.addTaskloop
    | invalid => exact I
  | execute t | finish t | schedule t | countSub t => exact I.task h (by simp)

lemma GraphInv.of_reach (h : machine.Reach Guard s) : GraphInv s :=
  h.inv (I := GraphInv) (fun _ h0 => h0 ▸ .create) fun _ _ _ I ha hs => I.step ha hs

end Kupl.Graph
