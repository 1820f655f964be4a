import Kupl.Graph.Inv

/-!
# What the count of a graph means

`kupl_graph_wait` of `src/mt/kupl_graph.cpp` returns where `graph->count` is zero. The count is the
number of tasks that are queued or being executed; where no list of dependencies goes wrong, a count
of zero means that every accepted task is done, although waiting tasks are not counted.
-/

namespace Kupl.Graph
open Dag Kupl.Task Prec

/-- The count is right and a count of zero means that nothing is left. -/
structure CountOk (s : GraphState) : Prop where
  count : s.sched.count = ((Finset.range s.ntasks).filter fun t => (s.sched.phase t).isCounted).card
  wait : s.sched.count = 0 → ∀ t ∈ s.accepted, s.sched.phase t = .done

/-- In every run whose lists of dependencies are in order the count is right. -/
theorem count_ok {s : GraphState} (h : machine.Reach Guard s) : CountOk s := by
  have I := GraphInv.of_reach h
  refine ⟨?_, fun h0 => ?_⟩
  · have same : (s.accepted.filter fun t => (s.sched.phase t).isCounted) =
        (Finset.range s.ntasks).filter fun t => (s.sched.phase t).isCounted := by
      ext t
      simp only [Finset.mem_filter, Finset.mem_range, and_congr_left_iff]
      intro counted
      refine ⟨I.ids t, fun _ => I.sched.outside t ?_⟩
      intro w
      simp [w, Phase.isCounted] at counted
    rw [I.sched.count, Sched.busy, same]
  · have acyclic : WellFounded fun p t => t ∈ succs s.sched.gnode p :=
      Subrelation.wf (fun e => I.lt _ _ e) Nat.lt_wfRel.wf
    exact I.sched.all_done h0 (fun _ h => h) acyclic

/-- Three tasks, one behind another, and a taskloop, executed to the end. -/
theorem count_ok_chain : ∃ s, machine.Reach Guard s ∧ s.ntasks = 3 ∧ CountOk s := by
  refine Machine.shown_and (s := GraphState.create) [.submit (.dependent [⟨1, .output⟩] fun _ => ⟨0, .input⟩),
    .submit (.dependent [⟨1, .inout⟩, ⟨2, .input⟩] fun _ => ⟨0, .input⟩), .execute 0,
      .submit (.taskloop 1), .finish 0,
    .schedule 0, .countSub 0, .execute 1, .finish 1, .countSub 1, .execute 2, .finish 2, .countSub 2] rfl (by decide)
    fun s h _ => ?_
  exact count_ok h

/-- A task that declares two writes of one address waits for itself; the count stays zero. -/
theorem count_zero_waiting : ∃ s, machine.Reachable s ∧ ¬ CountOk s ∧
    s.sched.count = 0 ∧ 0 ∈ s.accepted ∧ s.sched.phase 0 = .waiting := by
  refine Machine.shown (P := fun s => s.sched.count = 0 ∧ 0 ∈ s.accepted ∧ s.sched.phase 0 = .waiting)
    (s := GraphState.create)
    [.submit (.dependent [⟨1, .output⟩, ⟨1, .output⟩] fun _ => ⟨0, .input⟩)] rfl (by decide) fun s _ is =>
      ?_
  refine ⟨fun ok => ?_, is⟩
  obtain ⟨c, acc, w⟩ := is
  have := ok.wait c 0 acc
  rw [w] at this
  cases this

end Kupl.Graph
