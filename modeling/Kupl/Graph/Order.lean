import Kupl.Graph.Inv

/-!
# Conflicting tasks run in the order of submission

Two tasks of a graph conflict when they share an address that one of them writes, or when one depends
on everything and both declare dependencies. The one that was submitted later starts after the other
has finished.
-/

namespace Kupl.Graph
open Dag Kupl.Task Prec

def isWrite (d : TaskDep) : Prop := d.type = .output ∨ d.type = .inout

def Conflict (ds ds' : List TaskDep) : Prop :=
  (∃ d ∈ ds, ∃ d' ∈ ds', d.baseAddr = d'.baseAddr ∧ (isWrite d ∨ isWrite d')) ∨
  (ds.any TaskDep.isAll = true ∨ ds'.any TaskDep.isAll = true) ∧ ds ≠ [] ∧ ds' ≠ []

/-- The addresses are pairwise distinct and the types in the enumeration, or the list depends on
everything. -/
def DistinctDeps (ds : List TaskDep) : Prop :=
  ds.any TaskDep.isAll = true ∨ (∀ d ∈ ds, d.type = .input ∨ d.type = .output ∨ d.type = .inout) ∧
      ds.Pairwise fun d d' => d.baseAddr ≠ d'.baseAddr

/-- The guard of a step: dependent submissions declare lists that are `DistinctDeps`. -/
def Distinct (_ : GraphState) : Label → Prop
  | .submit (.dependent ds _) => DistinctDeps ds
  | _ => True

instance (ds : List TaskDep) : Decidable (DistinctDeps ds) :=
  inferInstanceAs (Decidable (_ ∨ _ ∧ _))

instance (s : GraphState) : ∀ a, Decidable (Distinct s a)
  | .submit (.dependent ds _) => inferInstanceAs (Decidable (DistinctDeps ds))
  | .submit .plain | .submit .sgraph | .submit (.taskloop _) | .submit .invalid | .execute _ |
    .finish _ | .schedule _ | .countSub _ => isTrue trivial

lemma Distinct.guard {s : GraphState} {a : Label} (h : Distinct s a) : Guard s a := by
  cases a with
  | submit x =>
    cases x with
    | dependent ds junk =>
      refine h.imp_right fun ⟨typed, apart⟩ => .inl ⟨typed, ?_⟩
      exact apart.imp fun ne e => absurd e ne
    | _ => trivial
  | _ => trivial

section Clash
variable {ds ds' : List TaskDep} {d : TaskDep}

lemma accesses (h : d.isAll = true ∨ d.type = .input ∨ isWrite d) : d.Writes d.baseAddr ∨ d.Reads d.baseAddr := by
  by_cases ha : d.isAll = true
  · exact .inl (.inl ha)
  · rcases h.resolve_left ha with h | h
    · exact .inr ⟨by simpa using ha, rfl, h⟩
    · exact .inl (.inr ⟨rfl, h⟩)

lemma Conflict.clash (h : Conflict ds ds') (hds : ∀ d ∈ normalDeps ds, d.isAll = true ∨
    d.type = .input ∨ isWrite d)
    (hds' : ∀ d ∈ normalDeps ds', d.isAll = true ∨ d.type = .input ∨ isWrite d) :
    ∃ d ∈ normalDeps ds', Clash (normalDeps ds) d := by
  -- a task that depends on everything clashes with every dependency
  have whole : (ds.any TaskDep.isAll = true ∨ ds'.any TaskDep.isAll = true) → ds ≠ [] → ds' ≠ [] →
      ∃ d ∈ normalDeps ds', Clash (normalDeps ds) d := by
    intro all ne ne'
    by_cases all' : ds'.any TaskDep.isAll = true
    · rw [normalDeps, if_pos all']
      refine ⟨_, List.mem_singleton_self _, ?_⟩
      have ne : normalDeps ds ≠ [] := by
        unfold normalDeps
        split
        · simp
        · exact ne
      obtain ⟨d, hd⟩ := List.exists_mem_of_ne_nil _ ne
      refine ⟨d.baseAddr, .inl ⟨.inl rfl, ?_⟩⟩
      exact (accesses (hds d hd)).imp (fun h => ⟨d, hd, h⟩) fun h => ⟨d, hd, h⟩
    · have all := all.resolve_right all'
      obtain ⟨d, hd⟩ := List.exists_mem_of_ne_nil _ ne'
      have mem : d ∈ normalDeps ds' := by rwa [normalDeps, if_neg all']
      have writes : ∀ a, Writes (normalDeps ds) a := by
        intro a
        rw [normalDeps, if_pos all]
        exact ⟨_, List.mem_singleton_self _, .inl rfl⟩
      refine ⟨d, mem, d.baseAddr, ?_⟩
      rcases accesses (hds' d mem) with h | h
      · exact .inl ⟨h, .inl (writes _)⟩
      · exact .inr ⟨h, writes _⟩
  rcases h with ⟨d, hd, d', hd', same, write⟩ | ⟨all, ne, ne'⟩
  · by_cases all : ds.any TaskDep.isAll = true ∨ ds'.any TaskDep.isAll = true
    · exact whole all (List.ne_nil_of_mem hd) (List.ne_nil_of_mem hd')
    · obtain ⟨na, na'⟩ := not_or.1 all
      rw [show normalDeps ds = ds from if_neg na] at hds ⊢
      rw [show normalDeps ds' = ds' from if_neg na'] at hds' ⊢
      refine ⟨d', hd', d'.baseAddr, ?_⟩
      have acc := accesses (hds d hd)
      rw [same] at acc
      rcases write with write | write
      · have w : Writes ds d'.baseAddr := ⟨d, hd, .inr ⟨same, write⟩⟩
        exact (accesses (hds' d' hd')).imp (fun h => ⟨h, .inl w⟩) fun h => ⟨h, w⟩
      · exact .inl ⟨.inr ⟨rfl, write⟩, acc.imp (fun h => ⟨d, hd, h⟩) fun h => ⟨d, hd, h⟩⟩
  · exact whole all ne ne'

end Clash

variable {s : GraphState}

lemma GraphInv.typed (I : GraphInv s) {i : Nat} (hi : i ∈ s.accepted) :
    ∀ d ∈ s.ops i, d.isAll = true ∨ d.type = .input ∨ isWrite d := by
  intro d hd
  rcases (I.hash.typed i hi d hd).2 with h | h | h | h
  · exact .inr (.inl h)
  · exact .inr (.inr (.inl h))
  · exact .inr (.inr (.inr h))
  · exact .inl (by simp [TaskDep.isAll, h])

lemma GraphInv.finished_of_path (I : GraphInv s) {i j : Nat} (path : Path s.succ i j)
    (hj : (s.sched.phase j).isStarted = true) : s.finished i = true := by
  refine path.finished (fun t => (s.sched.phase t).isStarted = true)
    (fun t => s.finished t = true) ?_ ?_ hj
  · intro p t e ht
    refine I.sched.preds_finished ?_ e
    intro w
    simp [w, Phase.isStarted] at ht
  · intro t ht
    unfold GraphState.finished at ht
    cases e : s.sched.phase t <;> simp_all [Phase.isStarted, Phase.isFinished]

/-- Of two tasks that conflict the one submitted later starts after the other has finished. -/
theorem conflict_ordered (h : machine.Reach Distinct s) {i j : Nat} (hi : i ∈ s.accepted)
    (hj : j ∈ s.accepted) (ij : i < j) (c : Conflict (s.deps i) (s.deps j))
    (started : (s.sched.phase j).isStarted = true) : s.finished i = true := by
  have I := GraphInv.of_reach (h.mono fun _ _ => Distinct.guard)
  obtain ⟨d, hd, clash⟩ := c.clash (I.typed hi) (I.typed hj)
  rcases I.order i hi j hj ij d hd clash with fin | path
  · exact fin
  · exact I.finished_of_path path started

/-- A writer, a reader of the same address that has been released, and the start of the reader. -/
theorem conflict_ordered_reader : ∃ s, machine.Reach Distinct s ∧
    (s.sched.phase 1).isStarted = true ∧ s.finished 0 = true := by
  refine Machine.shown (P := fun s => 0 ∈ s.accepted ∧ 1 ∈ s.accepted ∧ s.deps 0 = [⟨1, .output⟩] ∧
      s.deps 1 = [⟨1, .input⟩] ∧ (s.sched.phase 1).isStarted = true) (s := GraphState.create)
    [.submit (.dependent [⟨1, .output⟩] fun _ => ⟨0, .input⟩),
      .submit (.dependent [⟨1, .input⟩] fun _ => ⟨0, .input⟩),
      .execute 0, .finish 0, .schedule 0, .execute 1] rfl (by decide) fun s h is => ?_
  obtain ⟨h0, h1, d0, d1, st⟩ := is
  refine ⟨st, conflict_ordered h h0 h1 Nat.one_pos ?_ st⟩
  rw [d0, d1]
  exact .inl ⟨_, List.mem_singleton_self _, _, List.mem_singleton_self _, rfl, .inl (.inl rfl)⟩

end Kupl.Graph
