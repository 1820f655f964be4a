import Kupl.Dag.Deps

/-!
# What the hash knows of the earlier tasks

The invariant of the hash of `src/mt/kupl_dag.cpp`: for every address, each earlier writer has
finished or leads to the last writer by a chain of edges, and so does each earlier reader that does
not stand among the readers. From this the edges that `kupl_node_process_dep` adds order a new task
behind every earlier task that it conflicts with.
-/

namespace Kupl.Dag
open Prec List
open Function (update)

variable {τ : Type*} [DecidableEq τ]

/-- The dependency writes the address; a dependency on everything writes every address. -/
def TaskDep.Writes (d : TaskDep) (a : Addr) : Prop :=
  d.isAll = true ∨ d.baseAddr = a ∧ (d.type = .output ∨ d.type = .inout)

def TaskDep.Reads (d : TaskDep) (a : Addr) : Prop :=
  d.isAll = false ∧ d.baseAddr = a ∧ d.type = .input

/-- A task with these dependencies writes the address. -/
def Writes (ds : List TaskDep) (a : Addr) : Prop := ∃ d ∈ ds, d.Writes a

def Reads (ds : List TaskDep) (a : Addr) : Prop := ∃ d ∈ ds, d.Reads a

/-- What the entry of an address knows of the tasks of `V` with the dependencies `ops`. -/
structure Covers (V : Finset τ) (ops : τ → List TaskDep) (fin : τ → Bool) (succ : τ → List τ)
    (a : Addr) (e : AddrEntry τ) : Prop where
  out : ∀ o, e.out = some o → o ∈ V ∧ Writes (ops o) a
  ins : ∀ r ∈ e.ins, r ∈ V ∧ Reads (ops r) a
  writer : ∀ i ∈ V, Writes (ops i) a → fin i = true ∨ ∃ o, e.out = some o ∧ (i = o ∨ Path succ i o)
  reader : ∀ i ∈ V, Reads (ops i) a → fin i = true ∨ i ∈ e.ins ∨ ∃ o, e.out = some o ∧ Path succ i o
  between : ∀ r ∈ e.ins, ∀ i ∈ V, Writes (ops i) a → fin i = true ∨ Path succ i r

/-- What the hash knows: every entry covers its address, and every address that was declared has an
entry. -/
structure HashInv (V : Finset τ) (ops : τ → List TaskDep) (fin : τ → Bool) (succ : τ → List τ)
    (hash : DagHash τ) : Prop where
  covers : ∀ a e, (a, e) ∈ hash → Covers V ops fin succ a e
  keys : ∀ i ∈ V, ∀ d ∈ ops i, ∃ e, (d.baseAddr, e) ∈ hash
  typed : ∀ i ∈ V, ∀ d ∈ ops i, (d.isAll = true → d.baseAddr = depAllAddr) ∧
    (d.type = .input ∨ d.type = .output ∨ d.type = .inout ∨ d.type = .all)

section Lookup
variable {hash : DagHash τ} {a b : Addr} {e e' : AddrEntry τ}

omit [DecidableEq τ]

lemma mem_of_lookup (h : hash.lookup a = some e) : (a, e) ∈ hash := by
  induction hash with
  | nil => cases h
  | cons kv hash ih =>
    obtain ⟨k, v⟩ := kv
    rw [lookup_cons] at h
    split at h
    · rename_i same
      cases h
      obtain rfl : a = k := by simpa using same
      exact mem_cons_self
    · exact mem_cons_of_mem _ (ih h)

lemma lookup_isSome (h : (a, e) ∈ hash) : ∃ e', hash.lookup a = some e' := by
  induction hash with
  | nil => cases h
  | cons kv hash ih =>
    obtain ⟨k, v⟩ := kv
    rw [lookup_cons]
    split
    · exact ⟨v, rfl⟩
    · rename_i differ
      rcases mem_cons.1 h with same | h
      · cases same
        simp at differ
      · exact ih h

lemma mem_setEntry (h : (b, e') ∈ setEntry hash a e) : (b = a ∧ e' = e) ∨ (b ≠ a ∧ (b, e') ∈ hash) := by
  obtain ⟨kv, mem, eq⟩ := mem_map.1 h
  split at eq
  · cases eq
    exact .inl ⟨rfl, rfl⟩
  · rename_i ne
    cases eq
    exact .inr ⟨ne, mem⟩

lemma setEntry_keys (h : (b, e') ∈ hash) : ∃ e'', (b, e'') ∈ setEntry hash a e := by
  by_cases eq : b = a
  · exact ⟨e, mem_map.2 ⟨_, h, by simp [eq]⟩⟩
  · exact ⟨e', mem_map.2 ⟨_, h, by simp [eq]⟩⟩

end Lookup

section Covers
variable {V V' : Finset τ} {ops ops' : τ → List TaskDep} {fin fin' : τ → Bool}
  {succ succ' : τ → List τ} {a : Addr} {e : AddrEntry τ} {hash : DagHash τ} {j : τ}

omit [DecidableEq τ]

lemma Covers.mono (C : Covers V ops fin succ a e) (hf : ∀ i, fin i = true → fin' i = true)
    (hs : ∀ p t, t ∈ succ p → t ∈ succ' p) : Covers V ops fin' succ' a e := by
  have path : ∀ {p t}, Path succ p t → Path succ' p t := fun h => h.mono hs
  refine ⟨C.out, C.ins, ?_, ?_, ?_⟩
  · intro i hi hw
    rcases C.writer i hi hw with h | ⟨o, ho, h | h⟩
    · exact .inl (hf i h)
    · exact .inr ⟨o, ho, .inl h⟩
    · exact .inr ⟨o, ho, .inr (path h)⟩
  · intro i hi hr
    rcases C.reader i hi hr with h | h | ⟨o, ho, h⟩
    · exact .inl (hf i h)
    · exact .inr (.inl h)
    · exact .inr (.inr ⟨o, ho, path h⟩)
  · intro r hr i hi hw
    rcases C.between r hr i hi hw with h | h
    · exact .inl (hf i h)
    · exact .inr (path h)

lemma HashInv.mono (H : HashInv V ops fin succ hash) (hf : ∀ i, fin i = true → fin' i = true)
    (hs : ∀ p t, t ∈ succ p → t ∈ succ' p) : HashInv V ops fin' succ' hash :=
  ⟨fun a e h => (H.covers a e h).mono hf hs, H.keys, H.typed⟩

lemma Covers.congr (C : Covers V ops fin succ a e) (hV : ∀ i ∈ V', i ∈ V ∨ ops' i = [])
    (hV' : ∀ i ∈ V, i ∈ V') (hw : ∀ i ∈ V, Writes (ops' i) a ↔ Writes (ops i) a)
    (hr : ∀ i ∈ V, Reads (ops' i) a ↔ Reads (ops i) a) : Covers V' ops' fin succ a e := by
  have old : ∀ i ∈ V', Writes (ops' i) a ∨ Reads (ops' i) a → i ∈ V := by
    intro i hi acc
    refine (hV i hi).resolve_right fun none => ?_
    rw [none] at acc
    rcases acc with ⟨d, hd, -⟩ | ⟨d, hd, -⟩ <;> cases hd
  refine ⟨?_, ?_, ?_, ?_, ?_⟩
  · intro o ho
    obtain ⟨oV, ow⟩ := C.out o ho
    exact ⟨hV' o oV, (hw o oV).2 ow⟩
  · intro r hr'
    obtain ⟨rV, rr⟩ := C.ins r hr'
    exact ⟨hV' r rV, (hr r rV).2 rr⟩
  · intro i hi acc
    have iV := old i hi (.inl acc)
    exact C.writer i iV ((hw i iV).1 acc)
  · intro i hi acc
    have iV := old i hi (.inr acc)
    exact C.reader i iV ((hr i iV).1 acc)
  · intro r hr' i hi acc
    have iV := old i hi (.inl acc)
    exact C.between r hr' i iV ((hw i iV).1 acc)

lemma HashInv.insert [DecidableEq τ] (H : HashInv V ops fin succ hash) (hj : j ∉ V) :
    HashInv (insert j V) (update ops j []) fin succ hash := by
  have same : ∀ i ∈ V, update ops j [] i = ops i := by
    intro i hi
    rw [Function.update_of_ne]
    rintro rfl
    exact hj hi
  have mem : ∀ i ∈ Insert.insert j V, i ∈ V ∨ update ops j [] i = [] := by
    intro i hi
    rcases Finset.mem_insert.1 hi with rfl | hi
    · exact .inr (Function.update_self ..)
    · exact .inl hi
  refine ⟨?_, ?_, ?_⟩
  · intro a e h
    refine (H.covers a e h).congr mem (fun i hi => Finset.mem_insert_of_mem hi) ?_ ?_
    · intro i hi
      rw [same i hi]
    · intro i hi
      rw [same i hi]
  · intro i hi d hd
    rcases mem i hi with iV | none
    · exact H.keys i iV d (by rwa [same i iV] at hd)
    · rw [none] at hd
      cases hd
  · intro i hi d hd
    rcases mem i hi with iV | none
    · exact H.typed i iV d (by rwa [same i iV] at hd)
    · rw [none] at hd
      cases hd

lemma path_finished (closed : ∀ p t, t ∈ succ p → fin t = true → fin p = true) {p t : τ}
    (h : Path succ p t) (ht : fin t = true) : fin p = true :=
  h.finished (fun t => fin t = true) (fun t => fin t = true) closed (fun _ h => h) ht

lemma Covers.order (C : Covers V ops fin succ a e) (closed : ∀ p t, t ∈ succ p → fin t = true → fin p = true)
    (hs : ∀ p t, t ∈ succ p → t ∈ succ' p) (hj : ∀ p, some p ∈ e.targets → fin p = false →
      j ∈ succ' p) {i : τ}
    (hi : i ∈ V) (acc : Writes (ops i) a ∨ Reads (ops i) a) : fin i = true ∨ Path succ' i j := by
  have lift : ∀ {p t}, Path succ p t → Path succ' p t := fun h => h.mono hs
  have follow : ∀ p, some p ∈ e.targets → fin p = true ∨ j ∈ succ' p := by
    intro p hp
    cases hf : fin p
    · exact .inr (hj p hp hf)
    · exact .inl rfl
  -- what leads to a target leads to `j`
  have via : ∀ p, some p ∈ e.targets → Path succ i p → fin i = true ∨ Path succ' i j := by
    intro p hp path
    rcases follow p hp with hf | edge
    · exact .inl (path_finished closed path hf)
    · exact .inr ((lift path).trans (.single edge))
  have self : some i ∈ e.targets → fin i = true ∨ Path succ' i j := fun h =>
    (follow i h).imp_right Path.single
  by_cases none : e.ins = []
  · have target : ∀ o, e.out = some o → some o ∈ e.targets := by
      intro o ho
      simp [AddrEntry.targets, none, ho]
    rcases acc with acc | acc
    · rcases C.writer i hi acc with h | ⟨o, ho, rfl | h⟩
      · exact .inl h
      · exact self (target i ho)
      · exact via o (target o ho) h
    · rcases C.reader i hi acc with h | h | ⟨o, ho, h⟩
      · exact .inl h
      · rw [none] at h
        cases h
      · exact via o (target o ho) h
  · have target : ∀ r ∈ e.ins, some r ∈ e.targets := by
      intro r hr
      simp [AddrEntry.targets, none, hr]
    obtain ⟨r, hr⟩ := exists_mem_of_ne_nil _ none
    rcases acc with acc | acc
    · exact (C.between r hr i hi acc).elim .inl (via r (target r hr))
    · rcases C.reader i hi acc with h | h | ⟨o, ho, h⟩
      · exact .inl h
      · exact self (target i h)
      · -- the last writer stands before every reader
        obtain ⟨oV, ow⟩ := C.out o ho
        rcases C.between r hr o oV ow with hf | path
        · exact .inl (path_finished closed h hf)
        · exact via r (target r hr) (h.trans path)

end Covers
section Enter
variable {V : Finset τ} {ops : τ → List TaskDep} {fin : τ → Bool} {succ succ' : τ → List τ}
  {a b : Addr} {e : AddrEntry τ} {hash : DagHash τ} {i j : τ} {d : TaskDep} {ds : List TaskDep}

lemma writes_append : Writes (ds ++ [d]) a ↔ Writes ds a ∨ d.Writes a := by
  simp [Writes, or_and_right, exists_or]

lemma reads_append : Reads (ds ++ [d]) a ↔ Reads ds a ∨ d.Reads a := by
  simp [Reads, or_and_right, exists_or]

lemma writes_of_allAddr (h : Writes ds depAllAddr) : Writes ds a := by
  obtain ⟨d, hd, all | ⟨addr, -⟩⟩ := h
  · exact ⟨d, hd, .inl all⟩
  · exact ⟨d, hd, .inl (by simp [TaskDep.isAll, addr])⟩

/-- The dependencies of a task together with one more. -/
def enter (ops : τ → List TaskDep) (j : τ) (d : TaskDep) : τ → List TaskDep :=
  update ops j (ops j ++ [d])

lemma writes_enter : Writes (enter ops j d i) a ↔ Writes (ops i) a ∨ i = j ∧ d.Writes a := by
  by_cases h : i = j
  · subst h
    simp [enter, writes_append]
  · simp [enter, h]

lemma reads_enter : Reads (enter ops j d i) a ↔ Reads (ops i) a ∨ i = j ∧ d.Reads a := by
  by_cases h : i = j
  · subst h
    simp [enter, reads_append]
  · simp [enter, h]

lemma mem_enter {d' : TaskDep} (h : d' ∈ enter ops j d i) : d' ∈ ops i ∨ i = j ∧ d' = d := by
  by_cases e : i = j
  · subst e
    simpa [enter] using h
  · exact .inl (by simpa [enter, e] using h)

omit [DecidableEq τ] in
lemma HashInv.fresh (H : HashInv V ops fin succ hash) (h : hash.lookup a = none) (hi : i ∈ V) :
    ¬ Reads (ops i) a ∧ (Writes (ops i) a → a ≠ depAllAddr ∧ Writes (ops i) depAllAddr) := by
  have noKey : ∀ d ∈ ops i, d.baseAddr ≠ a := by
    rintro d hd rfl
    obtain ⟨e, he⟩ := H.keys i hi d hd
    obtain ⟨e', he'⟩ := lookup_isSome he
    rw [h] at he'
    cases he'
  refine ⟨?_, ?_⟩
  · rintro ⟨d, hd, -, addr, -⟩
    exact noKey d hd addr
  · rintro ⟨d, hd, all | ⟨addr, -⟩⟩
    · refine ⟨?_, d, hd, .inl all⟩
      rintro rfl
      exact noKey d hd ((H.typed i hi d hd).1 all)
    · exact absurd addr (noKey d hd)

omit [DecidableEq τ] in
lemma HashInv.find (H : HashInv V ops fin succ hash) (closed : ∀ p t, t ∈ succ p → fin t = true →
    fin p = true) :
    HashInv V ops fin succ (findEntry fin hash a).1 ∧ (a, (findEntry fin hash a).2) ∈ (findEntry fin hash a).1 := by
  unfold findEntry
  split
  · rename_i e he
    exact ⟨H, mem_of_lookup he⟩
  · rename_i none
    refine ⟨?_, mem_cons_self⟩
    -- a hash with the same keys and an entry that covers what the tasks on everything wrote
    have build : ∀ hash' e, (∀ b e', (b, e') ∈ hash' → Covers V ops fin succ b e') →
        (∀ b e', (b, e') ∈ hash → ∃ e'', (b, e'') ∈ hash') → e.ins = [] →
        (∀ o, e.out = some o → o ∈ V ∧ Writes (ops o) a) →
        (∀ i ∈ V, Writes (ops i) a → fin i = true ∨ ∃ o, e.out = some o ∧ (i = o ∨ Path succ i o)) →
        HashInv V ops fin succ ((a, e) :: hash') := by
      intro hash' e cov keys ins out writer
      refine ⟨?_, ?_, H.typed⟩
      · intro b e' h
        rcases mem_cons.1 h with same | h
        · cases same
          refine ⟨out, ?_, writer, ?_, ?_⟩
          · simp [ins]
          · intro i hi hr
            exact absurd hr (H.fresh none hi).1
          · simp [ins]
        · exact cov b e' h
      · intro i hi d hd
        obtain ⟨e', he'⟩ := H.keys i hi d hd
        obtain ⟨e'', he''⟩ := keys _ _ he'
        exact ⟨e'', mem_cons_of_mem _ he''⟩
    have same : ∀ b e', (b, e') ∈ hash → ∃ e'', (b, e'') ∈ hash := fun b e' h => ⟨e', h⟩
    unfold seedEntry
    split
    · rename_i all
      refine build _ _ H.covers same rfl (by simp) ?_
      intro i hi hw
      exact absurd all ((H.fresh none hi).2 hw).1
    · split
      · rename_i noAll
        refine build _ _ H.covers same rfl (by simp) ?_
        intro i hi hw
        obtain ⟨-, d, hd, acc⟩ := (H.fresh none hi).2 hw
        have addr : d.baseAddr = depAllAddr := by
          rcases acc with all | ⟨addr, -⟩
          · exact (H.typed i hi d hd).1 all
          · exact addr
        obtain ⟨e, he⟩ := H.keys i hi d hd
        rw [addr] at he
        obtain ⟨e', he'⟩ := lookup_isSome he
        rw [noAll] at he'
        cases he'
      · rename_i all hall
        have C := H.covers _ _ (mem_of_lookup hall)
        split
        · rename_i noOut
          refine build _ _ H.covers same rfl (by simp) ?_
          intro i hi hw
          rcases C.writer i hi ((H.fresh none hi).2 hw).2 with h | ⟨o, ho, -⟩
          · exact .inl h
          · rw [noOut] at ho
            cases ho
        · rename_i o ho
          split
          · rename_i fo
            -- the last task on everything has finished, and with it all before it
            have done : ∀ i, i = o ∨ Path succ i o → fin i = true := by
              rintro i (rfl | h)
              · exact fo
              · exact path_finished closed h fo
            have pruned : Covers V ops fin succ depAllAddr { all with out := .none } := by
              refine ⟨by simp, C.ins, ?_, ?_, C.between⟩
              · intro i hi hw
                rcases C.writer i hi hw with h | ⟨o', ho', h⟩
                · exact .inl h
                · rw [ho] at ho'
                  cases ho'
                  exact .inl (done i h)
              · intro i hi hr
                rcases C.reader i hi hr with h | h | ⟨o', ho', h⟩
                · exact .inl h
                · exact .inr (.inl h)
                · rw [ho] at ho'
                  cases ho'
                  exact .inl (done i (.inr h))
            refine build _ _ ?_ (fun b e' h => setEntry_keys h) rfl (by simp) ?_
            · intro b e' h
              rcases mem_setEntry h with ⟨rfl, rfl⟩ | ⟨-, h⟩
              · exact pruned
              · exact H.covers b e' h
            · intro i hi hw
              rcases C.writer i hi ((H.fresh none hi).2 hw).2 with h | ⟨o', ho', h⟩
              · exact .inl h
              · rw [ho] at ho'
                cases ho'
                exact .inl (done i h)
          · refine build _ _ H.covers same rfl ?_ ?_
            · rintro o' ⟨rfl⟩
              obtain ⟨oV, ow⟩ := C.out o ho
              exact ⟨oV, writes_of_allAddr ow⟩
            · intro i hi hw
              rcases C.writer i hi ((H.fresh none hi).2 hw).2 with h | ⟨o', ho', h⟩
              · exact .inl h
              · rw [ho] at ho'
                cases ho'
                exact .inr ⟨o, rfl, h⟩

lemma HashInv.set (H : HashInv V ops fin succ hash) (hs : ∀ p t, t ∈ succ p → t ∈ succ' p)
    (mem : ∃ e', (d.baseAddr, e') ∈ hash) (hd : d.isAll = false)
    (ht : d.type = .input ∨ d.type = .output ∨ d.type = .inout)
    (C : Covers V (enter ops j d) fin succ' d.baseAddr e) :
    HashInv V (enter ops j d) fin succ' (setEntry hash d.baseAddr e) := by
  refine ⟨?_, ?_, ?_⟩
  · intro b e' h
    rcases mem_setEntry h with ⟨rfl, rfl⟩ | ⟨ne, h⟩
    · exact C
    · refine ((H.covers b e' h).mono (fun _ h => h) hs).congr (fun i hi => .inl hi)
        (fun _ h => h) ?_ ?_
      · intro i _
        rw [writes_enter, TaskDep.Writes, hd]
        simp [ne.symm]
      · intro i _
        rw [reads_enter, TaskDep.Reads]
        simp [ne.symm]
  · intro i hi d' hd'
    rcases mem_enter hd' with h | ⟨-, rfl⟩
    · obtain ⟨e', he'⟩ := H.keys i hi d' h
      exact setEntry_keys he'
    · obtain ⟨e', he'⟩ := mem
      exact setEntry_keys he'
  · intro i hi d' hd'
    rcases mem_enter hd' with h | ⟨-, rfl⟩
    · exact H.typed i hi d' h
    · refine ⟨fun h => by simp [hd] at h, ?_⟩
      rcases ht with h | h | h
      · exact .inl h
      · exact .inr (.inl h)
      · exact .inr (.inr (.inl h))

/-- An earlier task with the dependencies `ds` has to be ordered before one with the dependency
`d`. -/
def Clash (ds : List TaskDep) (d : TaskDep) : Prop :=
  ∃ a, d.Writes a ∧ (Writes ds a ∨ Reads ds a) ∨ d.Reads a ∧ Writes ds a

/-- The dependency is the one on everything and stands alone, or it repeats no address of `ds` other
than for reading. -/
def Fits (ds : List TaskDep) (d : TaskDep) : Prop :=
  d = ⟨depAllAddr, .all⟩ ∧ ds = [] ∨
  d.isAll = false ∧ (d.type = .input ∨ d.type = .output ∨ d.type = .inout) ∧ ∀ d' ∈ ds, d'.isAll = false ∧
      (d'.baseAddr = d.baseAddr → d'.type = .input ∧ d.type = .input)

lemma Covers.written (hj : j ∈ V) (hw : Writes (ops j) a) (hr : ¬ Reads (ops j) a)
    (order : ∀ i ∈ V, i ≠ j → Writes (ops i) a ∨ Reads (ops i) a →
      fin i = true ∨ Path succ i j) : Covers V ops fin succ a ⟨some j, []⟩ := by
  refine ⟨?_, by simp, ?_, ?_, by simp⟩
  · rintro o ⟨rfl⟩
    exact ⟨hj, hw⟩
  · intro i hi acc
    by_cases e : i = j
    · exact .inr ⟨j, rfl, .inl e⟩
    · exact (order i hi e (.inl acc)).imp_right fun h => ⟨j, rfl, .inr h⟩
  · intro i hi acc
    by_cases e : i = j
    · subst e
      exact absurd acc hr
    · exact (order i hi e (.inr acc)).imp_right fun h => .inr ⟨j, rfl, h⟩

section Step
variable (H : HashInv V ops fin succ hash) (closed : ∀ p t, t ∈ succ p → fin t = true → fin p = true)
  (hs : ∀ p t, t ∈ succ p → t ∈ succ' p)
  (edges : ∀ p, some p ∈ depTargets fin hash d → fin p = false → j ∈ succ' p)
  (hj : j ∈ V)
include H closed hs edges hj

lemma HashInv.enter_all (hd : d = ⟨depAllAddr, .all⟩) (none : ops j = []) :
    HashInv V (enter ops j d) fin succ' (depHash fin hash j d) ∧
      ∀ i ∈ V, i ≠ j → Clash (ops i) d → fin i = true ∨ Path succ' i j := by
  obtain ⟨F, -⟩ := H.find closed (a := d.baseAddr)
  have all : d.isAll = true := by simp [hd, TaskDep.isAll]
  have order : ∀ i ∈ V, ops i ≠ [] → fin i = true ∨ Path succ' i j := by
    intro i hi ne
    obtain ⟨d', hd'⟩ := exists_mem_of_ne_nil _ ne
    obtain ⟨e, he⟩ := F.keys i hi d' hd'
    have acc : Writes (ops i) d'.baseAddr ∨ Reads (ops i) d'.baseAddr := by
      by_cases ha : d'.isAll = true
      · exact .inl ⟨d', hd', .inl ha⟩
      · rcases (F.typed i hi d' hd').2 with ht | ht | ht | ht
        · exact .inr ⟨d', hd', by simpa using ha, rfl, ht⟩
        · exact .inl ⟨d', hd', .inr ⟨rfl, .inl ht⟩⟩
        · exact .inl ⟨d', hd', .inr ⟨rfl, .inr ht⟩⟩
        · exact absurd (by simp [TaskDep.isAll, ht]) ha
    refine (F.covers _ _ he).order closed hs ?_ hi acc
    intro p hp
    refine edges p ?_
    simp only [depTargets, hd]
    exact mem_flatMap.2 ⟨_, by simpa [hd] using he, hp⟩
  have accessed : ∀ i a, Writes (ops i) a ∨ Reads (ops i) a → ops i ≠ [] := by
    rintro i a (⟨d', hd', -⟩ | ⟨d', hd', -⟩) <;> exact ne_nil_of_mem hd'
  have hash_eq : depHash fin hash j d = (findEntry fin hash d.baseAddr).1.map fun kv => (kv.1, ⟨some j, []⟩) := by
    simp [depHash, hd]
  refine ⟨⟨?_, ?_, ?_⟩, ?_⟩
  · intro a e h
    rw [hash_eq] at h
    obtain ⟨kv, -, same⟩ := mem_map.1 h
    cases same
    refine Covers.written hj (writes_enter.2 (.inr ⟨rfl, .inl all⟩)) ?_ ?_
    · rw [reads_enter, none]
      rintro (⟨_, h, -⟩ | ⟨-, h, -⟩)
      · cases h
      · simp [all] at h
    · intro i hi ne acc
      rw [writes_enter, reads_enter] at acc
      exact order i hi (accessed i _ (by simpa [ne] using acc))
  · intro i hi d' hd'
    have key : ∃ e, (d'.baseAddr, e) ∈ (findEntry fin hash d.baseAddr).1 := by
      rcases mem_enter hd' with h | ⟨-, rfl⟩
      · exact F.keys i hi d' h
      · exact ⟨_, (H.find closed).2⟩
    obtain ⟨e, he⟩ := key
    rw [hash_eq]
    exact ⟨_, mem_map.2 ⟨_, he, rfl⟩⟩
  · intro i hi d' hd'
    rcases mem_enter hd' with h | ⟨-, rfl⟩
    · exact F.typed i hi d' h
    · simp [hd]
  · rintro i hi - ⟨a, ⟨-, acc⟩ | ⟨-, acc⟩⟩
    · exact order i hi (accessed i a acc)
    · exact order i hi (accessed i a (.inl acc))

lemma HashInv.enter_out (hd : d.isAll = false) (ht : d.type = .output ∨ d.type = .inout)
    (sep : ¬ Reads (ops j) d.baseAddr) :
    HashInv V (enter ops j d) fin succ' (depHash fin hash j d) ∧
      ∀ i ∈ V, i ≠ j → Clash (ops i) d → fin i = true ∨ Path succ' i j := by
  obtain ⟨F, mem⟩ := H.find closed (a := d.baseAddr)
  have targets_eq : depTargets fin hash d = (findEntry fin hash d.baseAddr).2.targets := by
    unfold depTargets
    rcases ht with ht | ht <;> simp [ht]
  have hash_eq : depHash fin hash j d = setEntry (findEntry fin hash d.baseAddr).1 d.baseAddr ⟨some j, []⟩ := by
    unfold depHash
    rcases ht with ht | ht <;> simp [ht]
  have notIn : d.type ≠ .input := by
    rcases ht with ht | ht <;> simp [ht]
  have order : ∀ i ∈ V, Writes (ops i) d.baseAddr ∨ Reads (ops i) d.baseAddr →
      fin i = true ∨ Path succ' i j := fun i hi acc =>
    (F.covers _ _ mem).order closed hs (fun p hp => edges p (by rwa [targets_eq])) hi acc
  refine ⟨?_, ?_⟩
  · rw [hash_eq]
    refine F.set hs ⟨_, mem⟩ hd (.inr ht) (Covers.written hj ?_ ?_ ?_)
    · exact writes_enter.2 (.inr ⟨rfl, .inr ⟨rfl, ht⟩⟩)
    · rw [reads_enter]
      rintro (h | ⟨-, -, -, h⟩)
      · exact sep h
      · exact notIn h
    · intro i hi ne acc
      rw [writes_enter, reads_enter] at acc
      exact order i hi (by simpa [ne] using acc)
  · rintro i hi - ⟨a, ⟨all | ⟨rfl, -⟩, acc⟩ | ⟨⟨-, -, h⟩, -⟩⟩
    · simp [hd] at all
    · exact order i hi acc
    · exact absurd h notIn

lemma HashInv.enter_in (hd : d.isAll = false) (ht : d.type = .input) (sep : ¬ Writes (ops j) d.baseAddr) :
    HashInv V (enter ops j d) fin succ' (depHash fin hash j d) ∧
      ∀ i ∈ V, i ≠ j → Clash (ops i) d → fin i = true ∨ Path succ' i j := by
  obtain ⟨F, mem⟩ := H.find closed (a := d.baseAddr)
  have C := F.covers _ _ mem
  have writes_iff : ∀ i, Writes (enter ops j d i) d.baseAddr ↔ Writes (ops i) d.baseAddr := by
    intro i
    rw [writes_enter, TaskDep.Writes, hd, ht]
    simp
  have order : ∀ i ∈ V, Writes (ops i) d.baseAddr → fin i = true ∨ Path succ' i j := by
    intro i hi acc
    have follow : ∀ o, (findEntry fin hash d.baseAddr).2.out = some o → fin o = true ∨ j ∈ succ' o := by
      intro o ho
      cases hf : fin o
      · exact .inr (edges o (by simp [depTargets, ht, ho]) hf)
      · exact .inl rfl
    rcases C.writer i hi acc with h | ⟨o, ho, rfl | path⟩
    · exact .inl h
    · exact (follow i ho).imp_right Path.single
    · rcases follow o ho with hf | edge
      · exact .inl (path_finished closed path hf)
      · exact .inr ((path.mono hs).trans (.single edge))
  have hash_eq : depHash fin hash j d = setEntry (findEntry fin hash d.baseAddr).1 d.baseAddr
      ⟨(findEntry fin hash d.baseAddr).2.out, j :: (findEntry fin hash d.baseAddr).2.ins⟩ := by
    simp [depHash, ht]
  refine ⟨?_, ?_⟩
  · rw [hash_eq]
    refine F.set hs ⟨_, mem⟩ hd (.inl ht) ⟨?_, ?_, ?_, ?_, ?_⟩
    · intro o ho
      obtain ⟨oV, ow⟩ := C.out o ho
      exact ⟨oV, (writes_iff o).2 ow⟩
    · intro r hr
      rcases mem_cons.1 hr with rfl | hr
      · exact ⟨hj, reads_enter.2 (.inr ⟨rfl, hd, rfl, ht⟩)⟩
      · obtain ⟨rV, rr⟩ := C.ins r hr
        exact ⟨rV, reads_enter.2 (.inl rr)⟩
    · intro i hi acc
      exact (C.mono (fun _ h => h) hs).writer i hi ((writes_iff i).1 acc)
    · intro i hi acc
      rcases reads_enter.1 acc with acc | ⟨rfl, -⟩
      · rcases (C.mono (fun _ h => h) hs).reader i hi acc with h | h | h
        · exact .inl h
        · exact .inr (.inl (mem_cons_of_mem _ h))
        · exact .inr (.inr h)
      · exact .inr (.inl mem_cons_self)
    · intro r hr i hi acc
      rcases mem_cons.1 hr with rfl | hr
      · exact order i hi ((writes_iff i).1 acc)
      · exact (C.mono (fun _ h => h) hs).between r hr i hi ((writes_iff i).1 acc)
  · rintro i hi - ⟨a, ⟨all | ⟨-, h⟩, -⟩ | ⟨⟨-, rfl, -⟩, acc⟩⟩
    · simp [hd] at all
    · simp [ht] at h
    · exact order i hi acc

/-- One dependency of `j` is entered: `j` is ordered behind every earlier task that it clashes with,
and the hash takes it in. -/
theorem HashInv.enter_dep (fits : Fits (ops j) d) : HashInv V (enter ops j d) fin succ' (depHash fin hash j d) ∧
      ∀ i ∈ V, i ≠ j → Clash (ops i) d → fin i = true ∨ Path succ' i j := by
  rcases fits with ⟨hd, none⟩ | ⟨hd, ht, sep⟩
  · exact H.enter_all closed hs edges hj hd none
  · rcases ht with ht | ht
    · refine H.enter_in closed hs edges hj hd ht ?_
      rintro ⟨d', hd', all | ⟨addr, hw⟩⟩
      · simp [(sep d' hd').1] at all
      · simp [((sep d' hd').2 addr).1] at hw
    · refine H.enter_out closed hs edges hj hd ht ?_
      rintro ⟨d', hd', -, addr, -⟩
      have := ((sep d' hd').2 addr).2
      simp [this] at ht

omit [DecidableEq τ] hs edges in
lemma HashInv.targets (fits : Fits (ops j) d) {p} (hp : some p ∈ depTargets fin hash d) : p ∈ V ∧ p ≠ j := by
  obtain ⟨F, mem⟩ := H.find closed (a := d.baseAddr)
  have C := F.covers _ _ mem
  -- a task among the targets of an entry has accessed its address
  have target : ∀ a e, Covers V ops fin succ a e → some p ∈ e.targets →
      p ∈ V ∧ (Writes (ops p) a ∨ Reads (ops p) a) := by
    intro a e C hp
    unfold AddrEntry.targets at hp
    split at hp
    · obtain ⟨pV, pw⟩ := C.out p (by simpa [eq_comm] using hp)
      exact ⟨pV, .inl pw⟩
    · obtain ⟨pV, pr⟩ := C.ins p (by simpa using hp)
      exact ⟨pV, .inr pr⟩
  rcases fits with ⟨rfl, none⟩ | ⟨hd, ht, sep⟩
  · obtain ⟨kv, hkv, hp⟩ := mem_flatMap.1 hp
    obtain ⟨pV, acc⟩ := target _ _ (F.covers _ _ hkv) hp
    refine ⟨pV, ?_⟩
    rintro rfl
    rw [none] at acc
    rcases acc with ⟨_, h, -⟩ | ⟨_, h, -⟩ <;> cases h
  · rcases ht with ht | ht
    · have out : (findEntry fin hash d.baseAddr).2.out = some p := by
        simpa [depTargets, ht, eq_comm] using hp
      obtain ⟨pV, d', hd', acc⟩ := C.out p out
      refine ⟨pV, ?_⟩
      rintro rfl
      rcases acc with all | ⟨addr, hw⟩
      · simp [(sep d' hd').1] at all
      · simp [((sep d' hd').2 addr).1] at hw
    · have hp' : some p ∈ (findEntry fin hash d.baseAddr).2.targets := by
        unfold depTargets at hp
        rcases ht with ht | ht <;> simpa [ht] using hp
      obtain ⟨pV, acc⟩ := target _ _ C hp'
      refine ⟨pV, ?_⟩
      rintro rfl
      have clash : ∀ d' ∈ ops p, d'.baseAddr ≠ d.baseAddr := by
        intro d' hd' addr
        have := ((sep d' hd').2 addr).2
        simp [this] at ht
      rcases acc with ⟨d', hd', all | ⟨addr, -⟩⟩ | ⟨d', hd', -, addr, -⟩
      · simp [(sep d' hd').1] at all
      · exact clash d' hd' addr
      · exact clash d' hd' addr

end Step

def FitsAll : List TaskDep → List TaskDep → Prop
  | _, [] => True
  | ds, d :: rest => Fits ds d ∧ FitsAll (ds ++ [d]) rest

lemma Fits.known (h : Fits ds d) : ∀ v, d.type ≠ .other v := by
  intro v hv
  rcases h with ⟨rfl, -⟩ | ⟨-, ht, -⟩
  · cases hv
  · simp [hv] at ht

/-- The dependencies of `j` are entered one after another: a row of edges from tasks of `V`, which
order `j` behind every earlier task that it clashes with. -/
theorem HashInv.enter_deps {D : DagState τ} (rest : List TaskDep) (H : HashInv V ops fin (succs D.gnode) D.hash)
    (closed : ∀ p t, t ∈ succs D.gnode p → fin t = true → fin p = true)
    (hj : j ∈ V) (fj : fin j = false) (fits : FitsAll (ops j) rest) :
    ∃ ts hash', (∀ p, some p ∈ ts → p ∈ V ∧ p ≠ j) ∧ nodeProcessDeps fin D j rest =
        (⟨(precedeAll fin D.gnode j ts).1, hash'⟩, some (precedeAll fin D.gnode j ts).2) ∧
      HashInv V (update ops j (ops j ++ rest)) fin
        (succs (precedeAll fin D.gnode j ts).1) hash' ∧
      ∀ i ∈ V, i ≠ j → ∀ d ∈ rest, Clash (ops i) d →
        fin i = true ∨ Path (succs (precedeAll fin D.gnode j ts).1) i j := by
  induction rest generalizing D ops with
  | nil =>
    refine ⟨[], D.hash, by simp, rfl, ?_, by simp⟩
    simpa [precedeAll] using H
  | cons d rest ih =>
    obtain ⟨fit, fits⟩ := fits
    generalize hts : depTargets fin D.hash d = ts
    generalize hg : (precedeAll fin D.gnode j ts).1 = g
    have grow : ∀ p t, t ∈ succs D.gnode p → t ∈ succs g p := by
      rw [← hg]
      exact fun p t h => succs_precedeAll_sub _ h
    have edges : ∀ p, some p ∈ depTargets fin D.hash d → fin p = false → j ∈ succs g p := by
      rw [hts, ← hg]
      exact fun p h hf => succs_precedeAll_mem h hf
    obtain ⟨H', order⟩ := H.enter_dep closed grow edges hj fit
    have closed' : ∀ p t, t ∈ succs g p → fin t = true → fin p = true := by
      intro p t h ht
      rw [← hg] at h
      rcases mem_succs_precedeAll h with h | ⟨rfl, -⟩
      · exact closed p t h ht
      · simp [fj] at ht
    have prefix_eq : enter ops j d j = ops j ++ [d] := by simp [enter]
    obtain ⟨ts', hash', mem, run, inv, rest_order⟩ :=
      ih (D := ⟨g, depHash fin D.hash j d⟩) H' closed' (by rwa [prefix_eq])
    have row : precedeAll fin D.gnode j (ts ++ ts') = ((precedeAll fin g j ts').1,
          (precedeAll fin D.gnode j ts).2 + (precedeAll fin g j ts').2) := by
      rw [precedeAll_append, hg]
    have ops_eq : update (enter ops j d) j (enter ops j d j ++ rest) = update ops j (ops j ++ d :: rest) := by
      simp [enter]
    rw [ops_eq] at inv
    refine ⟨ts ++ ts', hash', ?_, ?_, ?_, ?_⟩
    · intro p hp
      rcases mem_append.1 hp with hp | hp
      · exact H.targets closed hj fit (by rwa [hts])
      · exact mem p hp
    · rw [nodeProcessDeps, nodeProcessDep_eq fit.known, hts, hg, row]
      simp only [run, Option.map_some]
    · rw [row]
      exact inv
    · intro i hi ne d' hd' clash
      rw [row]
      rcases mem_cons.1 hd' with rfl | hd'
      · exact (order i hi ne clash).imp_right fun path =>
          path.mono fun p t h => succs_precedeAll_sub _ h
      · exact rest_order i hi ne d' hd' (by simpa [enter, ne] using clash)

lemma fitsAll_normalDeps (h : ds.any TaskDep.isAll = true ∨ Plain ds) : FitsAll [] (normalDeps ds) := by
  unfold normalDeps
  split
  · exact ⟨.inl ⟨rfl, rfl⟩, trivial⟩
  · rename_i ha
    obtain ⟨typed, apart⟩ := h.resolve_left ha
    have notAll : ∀ d ∈ ds, d.isAll = false := by simpa using ha
    suffices run : ∀ pre, (∀ d ∈ pre, d.isAll = false) →
        (∀ d ∈ pre, ∀ d' ∈ ds, d.baseAddr = d'.baseAddr → d.type = .input ∧ d'.type = .input) →
        FitsAll pre ds from run [] (by simp) (by simp)
    clear h ha
    induction ds with
    | nil => exact fun _ _ _ => trivial
    | cons d ds ih =>
      intro pre hpre hsep
      obtain ⟨first, apart⟩ := pairwise_cons.1 apart
      have hd := notAll d mem_cons_self
      refine ⟨.inr ⟨hd, typed d mem_cons_self, fun d' hd' =>
        ⟨hpre d' hd', hsep d' hd' d mem_cons_self⟩⟩, ?_⟩
      refine ih (fun d' h => typed d' (mem_cons_of_mem _ h)) apart
        (fun d' h => notAll d' (mem_cons_of_mem _ h)) (pre ++ [d]) ?_ ?_
      · intro d' hd'
        rcases mem_append.1 hd' with h | h
        · exact hpre d' h
        · rwa [mem_singleton.1 h]
      · intro d' hd' d'' hd''
        rcases mem_append.1 hd' with h | h
        · exact hsep d' h d'' (mem_cons_of_mem _ hd'')
        · rw [mem_singleton.1 h]
          exact first d'' hd''

end Enter
end Kupl.Dag
