import Kupl.Dag.Gnode

/-!
# A static graph

`src/mt/kupl_static_graph.cpp`: nodes and edges are added to a static graph before it runs. An edge is
a `kupl_gnode_precede` between two nodes that have not run, and takes its target off the nodes without
predecessor.

C++ → Lean naming: `kupl_sgraph_t` → `Sgraph`; `kupl_sgraph_create` → `create`;
`kupl_sgraph_add_node` → `addNode`; `kupl_sgraph_add_dep` → `addDep`; `src_nodes` → `srcNodes`, in the
order of the keys.
-/

namespace Kupl.Static
open Dag Prec

/-- C++ `kupl_sgraph_t`. -/
structure Sgraph where
  gnode : Nat → Gnode Nat
  taskId : Nat
  srcNodes : List Nat

namespace Sgraph

/-- C++ `kupl_sgraph_create`. -/
def create : Sgraph := ⟨fun _ => gnodeInit, 0, []⟩

/-- C++ `kupl_sgraph_add_node`. -/
def addNode (G : Sgraph) : Sgraph where
  gnode := Function.update G.gnode G.taskId gnodeInit
  taskId := G.taskId + 1
  srcNodes := G.srcNodes ++ [G.taskId]

/-- C++ `kupl_sgraph_add_dep`; `none` is `KUPL_ERROR`, for handles that are not nodes of the graph. -/
def addDep (G : Sgraph) (precede succeed : Nat) : Option Sgraph :=
  if precede < G.taskId ∧ succeed < G.taskId then
    some {
      gnode := (gnodePrecede (fun _ => false) G.gnode (some precede) succeed).1
      taskId := G.taskId
      srcNodes := G.srcNodes.erase succeed }
  else none

def nodes (G : Sgraph) : Finset Nat := Finset.range G.taskId

/-- The edges into a node. -/
def indegree (G : Sgraph) (t : Nat) : Nat := pending G.nodes (succs G.gnode) (fun _ => true) t

/-- The recorded edges lead to no circle. -/
def Acyclic (G : Sgraph) : Prop := ∀ t, ¬ Path (succs G.gnode) t t

end Sgraph

/-- Made by adding `n` nodes and the dependencies `deps`. -/
inductive Built : Nat → List (Nat × Nat) → Sgraph → Prop where
  | create : Built 0 [] .create
  | addNode {n deps G} : Built n deps G → Built (n + 1) deps G.addNode
  | addDep {n deps G G' p t} : Built n deps G → G.addDep p t = some G' → Built n ((p, t) :: deps) G'

/-- The dependencies lead to no circle. -/
def Acyclic (deps : List (Nat × Nat)) : Prop := ∀ t, ¬ Relation.TransGen (fun p t => (p, t) ∈ deps) t t

/-- What every static graph is like: the counters hold the number of edges, and the nodes without edge
are the ones to begin with. -/
structure Formed (G : Sgraph) : Prop where
  edge : ∀ p t, t ∈ succs G.gnode p → p ∈ G.nodes ∧ t ∈ G.nodes
  hard : ∀ t ∈ G.nodes, (G.gnode t).nHardPredecessors = G.indegree t
  armed : ∀ t, (G.gnode t).nPredecessors = (G.gnode t).nHardPredecessors
  nodup : G.srcNodes.Nodup
  src : ∀ t, t ∈ G.srcNodes ↔ t ∈ G.nodes ∧ G.indegree t = 0

section Build
variable {n : Nat} {deps : List (Nat × Nat)} {G G' : Sgraph} {p t : Nat}

/-- The next node has no edges yet. -/
lemma Formed.bare (F : Formed G) : succs G.gnode G.taskId = [] := by
  by_contra some
  obtain ⟨u, hu⟩ := List.exists_mem_of_ne_nil _ some
  exact absurd (Finset.mem_range.1 (F.edge _ _ hu).1) (lt_irrefl _)

lemma Formed.succs_addNode (F : Formed G) : succs G.addNode.gnode = succs G.gnode := by
  funext q
  by_cases e : q = G.taskId
  · subst e
    rw [F.bare]
    simp [succs, Sgraph.addNode, gnodeInit]
  · simp [succs, Sgraph.addNode, e]

lemma Formed.addNode (F : Formed G) : Formed G.addNode := by
  have fresh : G.taskId ∉ G.nodes := by simp [Sgraph.nodes]
  have bare := F.bare
  have succs_eq := F.succs_addNode
  have nodes_eq : G.addNode.nodes = insert G.taskId G.nodes := Finset.range_add_one
  have degree : ∀ u, G.addNode.indegree u = G.indegree u := by
    intro u
    simp only [Sgraph.indegree, succs_eq, nodes_eq]
    rw [pending_insert fresh, bare]
    simp
  have degree_new : G.indegree G.taskId = 0 :=
    pending_eq_zero.2 fun q _ _ h => fresh (F.edge q _ h).2
  refine ⟨?_, ?_, ?_, ?_, ?_⟩
  · rw [succs_eq, nodes_eq]
    intro q u h
    obtain ⟨h1, h2⟩ := F.edge q u h
    exact ⟨Finset.mem_insert_of_mem h1, Finset.mem_insert_of_mem h2⟩
  · intro u hu
    rw [nodes_eq] at hu
    rw [degree]
    by_cases e : u = G.taskId
    · subst e
      simp [Sgraph.addNode, gnodeInit, degree_new]
    · simpa [Sgraph.addNode, e] using F.hard u (Finset.mem_of_mem_insert_of_ne hu e)
  · intro u
    by_cases e : u = G.taskId
    · subst e
      simp [Sgraph.addNode, gnodeInit]
    · simpa [Sgraph.addNode, e] using F.armed u
  · refine List.nodup_append.2 ⟨F.nodup, List.nodup_singleton _, ?_⟩
    intro a ha b hb e
    rw [List.mem_singleton.1 hb] at e
    subst e
    exact fresh ((F.src _).1 ha).1
  · intro u
    rw [degree, nodes_eq, Finset.mem_insert]
    simp only [Sgraph.addNode, List.mem_append, List.mem_singleton, F.src]
    refine ⟨?_, ?_⟩
    · rintro (⟨h1, h2⟩ | rfl)
      · exact ⟨.inr h1, h2⟩
      · exact ⟨.inl rfl, degree_new⟩
    · rintro ⟨rfl | h1, h2⟩
      · exact .inr rfl
      · exact .inl ⟨h1, h2⟩

lemma Formed.addDep (F : Formed G) (h : G.addDep p t = some G') : Formed G' := by
  unfold Sgraph.addDep at h
  split at h
  swap
  · cases h
  rename_i bound
  cases h
  have pV : p ∈ G.nodes := Finset.mem_range.2 bound.1
  have tV : t ∈ G.nodes := Finset.mem_range.2 bound.2
  simp only [gnodePrecede, Bool.false_eq_true, if_false]
  have degree : ∀ u, pending G.nodes (succs (gnodeCount (gnodeInsert G.gnode p t) t))
      (fun _ => true) u = G.indegree u + if t = u then 1 else 0 := by
    intro u
    rw [succs_count, succs_insert]
    exact pending_link pV rfl t
  refine ⟨?_, ?_, ?_, F.nodup.erase _, ?_⟩
  · simp only [succs_count, succs_insert]
    intro q u h
    by_cases e : q = p
    · subst e
      rw [Function.update_self] at h
      rcases List.mem_cons.1 h with rfl | h
      · exact ⟨pV, tV⟩
      · exact F.edge _ _ h
    · rw [Function.update_of_ne e] at h
      exact F.edge _ _ h
  · intro u hu
    have old := F.hard u hu
    simp only [Sgraph.indegree, Sgraph.nodes] at degree ⊢
    rw [degree, nHardPredecessors_count, nHardPredecessors_insert, old]
    split <;> simp [Sgraph.indegree, Sgraph.nodes]
  · intro u
    simp only [nHardPredecessors_count, nHardPredecessors_insert, nPredecessors_count, nPredecessors_insert, F.armed u]
  · intro u
    simp only [Sgraph.indegree, Sgraph.nodes] at degree ⊢
    rw [degree, F.nodup.mem_erase_iff, F.src]
    simp only [Sgraph.indegree, Sgraph.nodes]
    by_cases e : t = u
    · subst e
      simp
    · simp [e, Ne.symm e]

lemma Built.formed (h : Built n deps G) : Formed G := by
  induction h with
  | create =>
    refine ⟨?_, ?_, ?_, ?_, ?_⟩ <;> simp [Sgraph.create, Sgraph.nodes, succs, gnodeInit]
  | addNode _ ih => exact ih.addNode
  | addDep _ h ih => exact ih.addDep h

/-- The nodes are those that were added. -/
lemma Built.taskId_eq (h : Built n deps G) : G.taskId = n := by
  induction h with
  | create => rfl
  | addNode _ ih => exact congrArg (· + 1) ih
  | addDep _ h ih =>
    unfold Sgraph.addDep at h
    split at h
    · cases h
      exact ih
    · cases h

/-- The recorded edges are the dependencies that were added. -/
lemma Built.edge (h : Built n deps G) : t ∈ succs G.gnode p ↔ (p, t) ∈ deps := by
  induction h with
  | create => simp [succs, Sgraph.create, gnodeInit]
  | addNode built ih => rw [built.formed.succs_addNode, ih]
  | @addDep _ deps G _ q u _ h ih =>
    unfold Sgraph.addDep at h
    split at h
    · cases h
      have recorded : succs (gnodePrecede (fun _ => false) G.gnode (some q) u).1 =
          Function.update (succs G.gnode) q (u :: succs G.gnode q) := succs_count.trans succs_insert
      rw [recorded, List.mem_cons, Prod.mk.injEq, ← ih]
      by_cases e : p = q
      · subst e
        rw [Function.update_self, List.mem_cons]
        simp
      · rw [Function.update_of_ne e]
        simp [e]
    · cases h

lemma acyclic_of_lt (lt : ∀ d ∈ deps, d.1 < d.2) : Acyclic deps := by
  have chain {p t} (h : Relation.TransGen (fun p t => (p, t) ∈ deps) p t) : p < t := by
    induction h with
    | single e => exact lt _ e
    | tail _ e ih => exact ih.trans (lt _ e)
  exact fun t h => Nat.lt_irrefl t (chain h)

end Build
end Kupl.Static
