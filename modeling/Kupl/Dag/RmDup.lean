import Kupl.Dag.Covers

/-!
# The cleaned list of dependencies

What `dep_list_rm_dup` of `src/mt/kupl_dag.cpp` is to give `kupl_dag_add_task`: every entry that the
caller walks was written, no address stands twice, the addresses are those of the declared list, and an
address that was declared with two types is written. A task entered with such a list does not precede
itself, since no entry of the hash names it before its own address is reached.

The loop notes a repeated address in `found_same` only where the types differ, and `dep_cnt` keeps
the length of the declared list. So the list is clean exactly where there was nothing to clean.
-/

namespace Kupl.Dag
open List

variable {τ : Type*} [DecidableEq τ]

/-- The entry holds a reference to the task, as the last writer or as a reader. -/
def AddrEntry.Names (e : AddrEntry τ) (t : τ) : Prop := e.out = some t ∨ t ∈ e.ins

/-- A task that no entry of the hash names and that does not precede itself. -/
structure Fresh (D : DagState τ) (node : τ) : Prop where
  unnamed : ∀ a e, (a, e) ∈ D.hash → ¬ e.Names node
  single : node ∉ succs D.gnode node

/-- What `kupl_dag_add_task` expects of `dep_list_rm_dup`: the first `dep_cnt` entries are written and
hold every declared address once, with its type or, where it is declared with several, as a write; and
no task entered with the list precedes itself. -/
structure Cleaned (τ : Type*) [DecidableEq τ] (junk : Nat → TaskDep) (ds : List TaskDep) : Prop where
  written : (depListRmDup junk ds).length = (rmDupLoop 0 [] ds).1.length
  distinct : ((depListRmDup junk ds).map TaskDep.baseAddr).Nodup
  covers : ∀ a, a ∈ (depListRmDup junk ds).map TaskDep.baseAddr ↔ a ∈ ds.map TaskDep.baseAddr
  agreed : ∀ e ∈ depListRmDup junk ds, ∀ t, (∀ d ∈ ds, d.baseAddr = e.baseAddr → d.type = t) → e.type = t
  differing : ∀ e ∈ depListRmDup junk ds, ∀ d ∈ ds, ∀ d' ∈ ds, d.baseAddr = e.baseAddr →
    d'.baseAddr = e.baseAddr → d.type ≠ d'.type → e.type = .output
  acyclic : ∀ (finished : τ → Bool) (D : DagState τ) (node : τ), Fresh D node →
    node ∉ succs (dagAddTask finished D node junk ds).1.gnode node

/-! ### The entries before a task reaches them -/

section Unnamed
variable {D : DagState τ} {hash : DagHash τ} {node : τ} {d : TaskDep} {ds : List TaskDep} {a b : Addr}
  {e : AddrEntry τ}

def Unnamed (hash : DagHash τ) (node : τ) (A : Addr → Prop) : Prop :=
  ∀ a e, (a, e) ∈ hash → A a → ¬ e.Names node

variable {A : Addr → Prop}

omit [DecidableEq τ] in
lemma unnamed_setEntry (h : Unnamed hash node A) (he : A b → ¬ e.Names node) :
    Unnamed (setEntry hash b e) node A := by
  intro a e' mem ha
  rcases mem_setEntry mem with ⟨rfl, rfl⟩ | ⟨-, mem⟩
  · exact he ha
  · exact h a e' mem ha

omit [DecidableEq τ] in
lemma unnamed_seed (finished : τ → Bool) (a : Addr) (h : Unnamed hash node A) (all : A depAllAddr) :
    Unnamed (seedEntry finished hash a).1 node A ∧ ¬ (seedEntry finished hash a).2.Names node := by
  have none : ¬ (⟨none, []⟩ : AddrEntry τ).Names node := by simp [AddrEntry.Names]
  unfold seedEntry
  split
  · exact ⟨h, none⟩
  · split
    · exact ⟨h, none⟩
    · rename_i entry found
      have free := h _ _ (mem_of_lookup found) all
      split
      · exact ⟨h, none⟩
      · rename_i o out
        split
        · refine ⟨unnamed_setEntry h fun _ names => free ?_, none⟩
          exact .inr (names.resolve_left (by simp))
        · refine ⟨h, fun names => free (.inl ?_)⟩
          rw [out]
          exact names.resolve_right (by simp)

omit [DecidableEq τ] in
lemma unnamed_find (finished : τ → Bool) (h : Unnamed hash node A) (all : A depAllAddr) (ha : A a) :
    Unnamed (findEntry finished hash a).1 node A ∧ ¬ (findEntry finished hash a).2.Names node := by
  unfold findEntry
  split
  · rename_i e found
    exact ⟨h, h a e (mem_of_lookup found) ha⟩
  · obtain ⟨rest, entry⟩ := unnamed_seed finished a h all
    refine ⟨fun b e mem hb => ?_, entry⟩
    rcases mem_cons.1 mem with new | old
    · cases new
      exact entry
    · exact rest b e old hb

omit [DecidableEq τ] in
lemma AddrEntry.not_target (h : ¬ e.Names node) : some node ∉ e.targets := by
  unfold AddrEntry.targets
  split
  · intro mem
    exact h (.inl (mem_singleton.1 mem).symm)
  · intro mem
    obtain ⟨r, reads, same⟩ := mem_map.1 mem
    cases same
    exact h (.inr reads)

lemma single_process (finished : τ → Bool) (type : d.type = .input ∨ d.type = .output ∨ d.type = .inout)
    (h : Unnamed D.hash node A) (all : A depAllAddr) (ha : A d.baseAddr) (single : node ∉ succs D.gnode node) :
    ∃ D' n, nodeProcessDep finished D node d = (D', some n) ∧ node ∉ succs D'.gnode node ∧
      Unnamed D'.hash node fun a => A a ∧ a ≠ d.baseAddr := by
  obtain ⟨rest, entry⟩ := unnamed_find finished h all ha
  have known : ∀ v, d.type ≠ .other v := by
    intro v other
    simp [other] at type
  have behind : some node ∉ depTargets finished D.hash d := by
    unfold depTargets
    rcases type with t | t | t
    · rw [t]
      intro mem
      exact entry (.inl (mem_singleton.1 mem).symm)
    · rw [t]
      exact AddrEntry.not_target entry
    · rw [t]
      exact AddrEntry.not_target entry
  have entered : ∀ e', Unnamed (setEntry (findEntry finished D.hash d.baseAddr).1 d.baseAddr e')
      node fun a => A a ∧ a ≠ d.baseAddr := by
    intro e'
    refine unnamed_setEntry (fun a e mem ha => rest a e mem ha.1) ?_
    intro own
    exact absurd rfl own.2
  refine ⟨_, _, nodeProcessDep_eq known, ?_, ?_⟩
  · intro loop
    rcases mem_succs_precedeAll loop with old | ⟨-, target, -⟩
    · exact single old
    · exact behind target
  · unfold depHash
    rcases type with t | t | t
    · rw [t]
      exact entered _
    · rw [t]
      exact entered _
    · rw [t]
      exact entered _

lemma single_process_all (finished : τ → Bool) (types : ∀ d ∈ ds, d.type = .input ∨ d.type = .output ∨
    d.type = .inout)
    (proper : ∀ d ∈ ds, d.baseAddr ≠ depAllAddr) (distinct : (ds.map TaskDep.baseAddr).Nodup)
    (h : Unnamed D.hash node fun a => a = depAllAddr ∨ a ∈ ds.map TaskDep.baseAddr)
    (single : node ∉ succs D.gnode node) :
    node ∉ succs (nodeProcessDeps finished D node ds).1.gnode node := by
  induction ds generalizing D with
  | nil => exact single
  | cons d ds ih =>
    rw [map_cons, nodup_cons] at distinct
    obtain ⟨D', n, step, single', rest⟩ := single_process finished (types d mem_cons_self) h (.inl rfl)
      (.inr (by simp)) single
    have later := ih (fun d' mem => types d' (mem_cons_of_mem _ mem))
      (fun d' mem => proper d' (mem_cons_of_mem _ mem)) distinct.2 ?_ single'
    · rw [nodeProcessDeps, step]
      exact later
    · -- the address just entered is not among those that follow
      intro a e mem ha
      refine rest a e mem ⟨?_, ?_⟩
      · exact ha.imp id fun mem => mem_cons_of_mem _ mem
      · rintro rfl
        rcases ha with all | again
        · exact proper d mem_cons_self all
        · exact distinct.1 again

end Unnamed

/-! ### The list -/

section List
variable {junk : Nat → TaskDep} {d : TaskDep} {ds kept : List TaskDep} {hash : Addr}

lemma mergeSame_length {kept' : List TaskDep} (h : mergeSame d kept = some kept') : kept'.length = kept.length := by
  induction kept generalizing kept' with
  | nil => cases h
  | cons e es ih =>
    rw [mergeSame] at h
    split at h
    · split at h
      · cases h
        rfl
      · cases h
    · obtain ⟨es', rest, rfl⟩ := Option.map_eq_some_iff.1 h
      rw [length_cons, ih rest, length_cons]

lemma rmDupLoop_length (hash : Addr) (kept : List TaskDep) (none : ds.any TaskDep.isAll = false) :
    (rmDupLoop hash kept ds).2 = false ∧ (rmDupLoop hash kept ds).1.length ≤ kept.length + ds.length := by
  induction ds generalizing hash kept with
  | nil => simp [rmDupLoop]
  | cons d ds ih =>
    obtain ⟨hd, rest⟩ : d.isAll = false ∧ ds.any TaskDep.isAll = false := by simpa using none
    have added : ∀ hash, (rmDupLoop hash (kept ++ [d]) ds).2 = false ∧
        (rmDupLoop hash (kept ++ [d]) ds).1.length ≤ kept.length + (d :: ds).length := by
      intro hash
      obtain ⟨flag, le⟩ := ih hash (kept ++ [d]) rest
      refine ⟨flag, le.trans_eq ?_⟩
      rw [length_append, length_cons, length_cons, length_nil]
      omega
    rw [rmDupLoop, if_neg (by simp [hd])]
    split
    · exact added _
    · split
      · rename_i kept' merged
        obtain ⟨flag, le⟩ := ih hash kept' rest
        refine ⟨flag, le.trans ?_⟩
        rw [mergeSame_length merged, length_cons]
        omega
      · exact added _

lemma depListRmDup_length (none : ds.any TaskDep.isAll = false) : (depListRmDup junk ds).length = ds.length := by
  obtain ⟨flag, le⟩ := rmDupLoop_length 0 [] none
  unfold depListRmDup
  split
  · rename_i eq
    rw [eq] at flag
    cases flag
  · rename_i kept eq
    rw [eq, length_nil, Nat.zero_add] at le
    rw [length_append, length_map, length_range']
    exact Nat.add_sub_cancel' le

lemma nodup_of_cleaned (none : ds.any TaskDep.isAll = false) (h : Cleaned τ junk ds) :
    (ds.map TaskDep.baseAddr).Nodup := by
  have same : ((depListRmDup junk ds).map TaskDep.baseAddr).toFinset = (ds.map TaskDep.baseAddr).toFinset := by
    ext a
    rw [mem_toFinset, mem_toFinset]
    exact h.covers a
  have count : (ds.map TaskDep.baseAddr).toFinset.card = (ds.map TaskDep.baseAddr).length := by
    rw [← same, toFinset_card_of_nodup h.distinct, length_map, length_map, depListRmDup_length none]
  exact Multiset.toFinset_card_eq_card_iff_nodup.1 count

lemma pairwise_of_nodup (h : (ds.map TaskDep.baseAddr).Nodup) :
    ds.Pairwise fun d d' => d.baseAddr = d'.baseAddr → d.type = d'.type := by
  refine (pairwise_map.1 h).imp ?_
  intro d d' differ same
  exact absurd same differ

lemma cleaned_of_nodup (types : ∀ d ∈ ds, d.type = .input ∨ d.type = .output ∨ d.type = .inout)
    (none : ds.any TaskDep.isAll = false) (h : (ds.map TaskDep.baseAddr).Nodup) : Cleaned τ junk ds := by
  have apart := pairwise_of_nodup h
  have loop : rmDupLoop 0 [] ds = (ds, false) := rmDupLoop_plain none (by simp) apart
  have kept : depListRmDup junk ds = ds := by
    rw [depListRmDup_normal (.inr apart), normalDeps, if_neg (by simp [none])]
  have one : ∀ d ∈ ds, ∀ d' ∈ ds, d.baseAddr = d'.baseAddr → d = d' :=
    fun d hd d' hd' same => inj_on_of_nodup_map h hd hd' same
  refine ⟨?_, ?_, ?_, ?_, ?_, ?_⟩
  · rw [kept, loop]
  · rw [kept]
    exact h
  · intro a
    rw [kept]
  · intro e he t all
    rw [kept] at he
    exact all e he rfl
  · intro e _ d hd d' hd' same same' differ
    rw [one d hd d' hd' (same.trans same'.symm)] at differ
    exact absurd rfl differ
  · intro finished D node fresh
    have proper : ∀ d ∈ ds, d.baseAddr ≠ depAllAddr := by
      intro d hd all
      have := any_eq_false.1 none d hd
      simp [TaskDep.isAll, all] at this
    have single := single_process_all finished types proper h
      (fun a e mem _ => fresh.unnamed a e mem) fresh.single
    rw [dagAddTask, kept]
    split
    · rename_i D' step
      rw [step] at single
      exact single
    · rename_i D' n step
      rw [step] at single
      exact single

/-- The list is cleaned exactly where no address is declared twice. -/
theorem cleaned_iff (junk : Nat → TaskDep) (ds : List TaskDep)
    (types : ∀ d ∈ ds, d.type = .input ∨ d.type = .output ∨ d.type = .inout)
    (none : ds.any TaskDep.isAll = false) :
    Cleaned τ junk ds ↔ (ds.map TaskDep.baseAddr).Nodup :=
  ⟨nodup_of_cleaned none, cleaned_of_nodup types none⟩

/-- A list that reads one address and writes another is cleaned. -/
theorem cleaned_read_write : Cleaned Nat (fun _ => ⟨0, .input⟩) [⟨1, .input⟩, ⟨2, .output⟩] :=
  (cleaned_iff _ _ (by decide) (by decide)).2 (by decide)

/-- A task that declares one write twice keeps both, follows itself and is never ready. -/
theorem cleaned_not_repeated : ¬ Cleaned Nat (fun _ => ⟨0, .input⟩) [⟨1, .output⟩, ⟨1, .output⟩] ∧
    7 ∈ succs (dagAddTask (fun _ => false) ⟨fun _ => gnodeInit, []⟩ 7 (fun _ => ⟨0, .input⟩)
      [⟨1, .output⟩, ⟨1, .output⟩]).1.gnode 7 :=
  ⟨fun h => absurd h.distinct (by decide), by decide⟩

end List
end Kupl.Dag
