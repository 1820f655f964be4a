import Kupl.Loop.Private

/-!
# What a reduce region folds

When a user buffer of `kupl_parallel_for_reduce` ends up with the fold of what the bodies of the region
have written to their private items (`mt/kupl_parallel_for.cpp`).

The statements are about one user buffer `b`. Reduce calls from inside of the bodies spare `b` where they
do not reduce into it, and where they have no more items than come before those of `b` in the list: the
sets they start over begin at the first item. The chunk tasks of a region spare it where they run on
the executors selected.
-/

namespace Kupl.Loop
open Kupl.Range Kupl.Group Kupl.Cut List
open Function (update_apply update_of_ne update_self)

/-- A reduce call that neither reduces into a buffer nor touches the items of a list that do. -/
def SparesItems (items : List RdItem) (b : Nat) (inner : List RdItem) : Prop :=
  (∀ it ∈ inner, it.buffer ≠ b) ∧ ∀ j ∈ itemsAt b 0 items, inner.length ≤ j

/-- The steps that spare a buffer: reduce calls from inside of a body, and chunk tasks. -/
def Spares (b : Nat) (s : Reduction) : RdLabel → Prop
  | .call _ items | .region items => SparesItems s.items b items
  | .inline => s.geid ∈ s.pf.selected
  | .take i eid => ∀ t ∈ s.queued[i]?, t.executorId = eid ∨ eid ∈ s.pf.selected
  | _ => True

def RdFrame.isBody : RdFrame → Bool
  | .body _ => true
  | .call _ => false

/-- The item a value was written to, on its executor. -/
def RdWrite.key (w : RdWrite) : Nat × Nat := (w.eid, w.item)

namespace Reduction

/-- An executor whose set belongs to the region. -/
def Started (s : Reduction) (e : Nat) : Prop := e ∈ s.folds ∧ e ∉ s.enter ∧ e ∉ s.prepare

/-- The values the bodies of the region have written to an item on an executor. -/
def written (s : Reduction) (e j : Nat) : List (BitVec 32) :=
  under (s.wrote.map fun w => (w.key, w.value)) (e, j)

/-- What the items of an executor come to. -/
def total (s : Reduction) (e j : Nat) : BitVec 32 :=
  match s.items[j]? with
  | none => 0
  | some it => (s.written e j).foldl it.op.combine it.op.init

/-- The user buffers behind all that the bodies of the region have written on some executors. -/
def result (s : Reduction) (mem : Nat → BitVec 32) (eids : List Nat) : Nat → BitVec 32 :=
  eids.foldl (fun mem e => doReduce mem (s.total e) 0 s.items) mem

/-- The items of a set that have a buffer are as the bodies of the region have left them. -/
def Intact (s : Reduction) (b e : Nat) : Prop :=
  ∀ j ∈ itemsAt b 0 s.items, s.items[j]? = some ((s.priv e).item j) ∧ (s.priv e).data j = s.total e j

/-- A buffer has been combined with the sets folded so far, and nothing is left to run then. -/
def Gathered (s : Reduction) (b : Nat) (mem : Nat → BitVec 32) : Option (List Nat) → Prop
  | none => s.mem b = mem b
  | some rest => s.enter = [] ∧ s.prepare = [] ∧ s.todo = [] ∧ s.queued = [] ∧ s.bodies = [] ∧
      ∃ done, done ++ rest = s.folds ∧ s.mem b = s.result mem done b

/-- The numbers of the bodies of a region. -/
def parts (s : Reduction) : List Nat :=
  match s.kind with
  | .alone | .team => s.folds
  | .task => List.range s.pf.totalChunks.toNat

/-- The bodies that are left and those that were begun. -/
def pending (s : Reduction) : List Nat :=
  (s.todo ++ s.queued).map Task.taskId ++ (s.enter ++ s.ran)

/-- Who runs the bodies of a region. -/
structure Shape (s : Reduction) : Prop where
  nodup : s.folds.Nodup
  own : s.kind = .team → s.master = s.geid ∧ ∀ e ∈ s.folds, s.pf.egroup.tid e = 0 → e = s.master
  member : ∀ e ∈ s.enter, e ∈ s.folds
  enter : s.enter.Nodup
  plain : s.kind ≠ .task → s.prepare = [] ∧ s.todo = [] ∧ s.queued = []
  task : s.kind = .task → s.enter = []
  ready : s.queued ≠ [] → s.prepare = []
  bound : ∀ t ∈ s.todo ++ s.queued, t.executorId ∈ s.folds
  body : ∀ e ∈ s.bodies, e ∈ s.folds ∧ e ∉ s.enter ∧ s.prepare = []
  count : ∀ e, (s.frames e).countP RdFrame.isBody = s.bodies.count e
  ids : ∀ e id, RdFrame.body id ∈ s.frames e → id ∈ s.ran
  once : s.kind ≠ .task → s.bodies.Nodup
  left : s.kind ≠ .task → ∀ e ∈ s.left, e ∈ s.folds ∧ e ∉ s.enter ∧ e ∉ s.bodies

/-- The invariant of the runs that spare a buffer. -/
structure Inv (b : Nat) (mem : Nat → BitVec 32) (s : Reduction) : Prop extends s.Shape where
  calls : ∀ e items, RdFrame.call items ∈ s.frames e → SparesItems s.items b items
  inner : ∀ items ∈ s.inner, SparesItems s.items b items
  fresh : ∀ w ∈ s.wrote, s.Started w.eid ∧ w.body ∈ s.ran
  num : ∀ e, s.Started e → e ∉ s.called → (s.priv e).num = s.items.length
  intact : ∀ e, s.Started e → s.Intact b e
  gathered : s.Gathered b mem s.post

end Reduction

section Inner
variable {b : Nat} {mem : Nat → BitVec 32} {s : Reduction} {e : Nat} {items : List RdItem}

lemma Reduction.gather_other {eids : List Nat} (h : ∀ it ∈ items, it.buffer ≠ b) :
    s.gather eids items b = s.mem b := by
  unfold Reduction.gather
  generalize s.mem = m
  induction eids generalizing m with
  | nil => rfl
  | cons e eids ih =>
    rw [foldl_cons, ih]
    exact doReduce_other m _ h

lemma Reduction.Inv.setMem (I : s.Inv b mem) {m : Nat → BitVec 32} (h : m b = s.mem b) :
    Reduction.Inv b mem { s with mem := m } := by
  refine { I with gathered := ?_ }
  have gathered := I.gathered
  cases hp : s.post with
  | none =>
    rw [hp] at gathered
    exact h.trans gathered
  | some rest =>
    rw [hp] at gathered
    obtain ⟨h1, h2, h3, h4, h5, done, hd, eq⟩ := gathered
    exact ⟨h1, h2, h3, h4, h5, done, hd, h.trans eq⟩

lemma Reduction.Inv.pushCall (I : s.Inv b mem) (h : SparesItems s.items b items) :
    (s.push e (.call items)).Inv b mem := by
  refine { I with count := fun x => ?_, ids := fun x id hx => ?_, calls := fun x is hx => ?_ }
  all_goals simp only [Reduction.push, update_apply] at *
  · split
    · rename_i eq
      subst eq
      rw [countP_cons_of_neg (by simp [RdFrame.isBody])]
      exact I.count x
    · exact I.count x
  · split at hx
    · exact I.ids e id ((mem_cons.1 hx).resolve_left nofun)
    · exact I.ids x id hx
  · split at hx
    · rcases mem_cons.1 hx with eq | hx
      · cases eq
        exact h
      · exact I.calls e is hx
    · exact I.calls x is hx

lemma Reduction.Inv.popCall (I : s.Inv b mem) {fs : List RdFrame}
    (h : s.frames e = .call items :: fs) : (s.pop e).Inv b mem := by
  have tail : ∀ x f, f ∈ (s.pop e).frames x → f ∈ s.frames x := by
    intro x f hf
    simp only [Reduction.pop, update_apply] at hf
    split at hf
    · rename_i eq
      exact eq ▸ mem_of_mem_tail hf
    · exact hf
  refine { I with
    count := fun x => ?_
    ids := fun x id hx => I.ids x id (tail x _ hx)
    calls := fun x is hx => I.calls x is (tail x _ hx) }
  have count := I.count x
  simp only [Reduction.pop, update_apply]
  split
  · rename_i eq
    subst eq
    rw [h, countP_cons_of_neg (by simp [RdFrame.isBody])] at count
    rw [h]
    exact count
  · exact count

lemma Reduction.Inv.redup (I : s.Inv b mem) (h : SparesItems s.items b items) : (s.redup e items).Inv b mem := by
  refine { I with num := fun x hx not => ?_, intact := fun x hx j hj => ?_ }
  · have ne : x ≠ e := fun eq => not (eq ▸ mem_cons_self)
    simp only [Reduction.redup, Reduction.dup, update_of_ne ne]
    exact I.num x hx fun mem => not (mem_cons_of_mem _ mem)
  · have none : items[j]? = none := List.getElem?_eq_none (h.2 j hj)
    have kept : ((s.redup e items).priv x).item j = (s.priv x).item j ∧
        ((s.redup e items).priv x).data j = (s.priv x).data j := by
      simp only [Reduction.redup, Reduction.dup, update_apply]
      split
      · rename_i eq
        subst eq
        simp only [Private.dup, none, Option.getD_none, Option.map_none, and_self]
      · exact ⟨rfl, rfl⟩
    rw [kept.1, kept.2]
    exact I.intact x hx j hj

end Inner

section Step
variable {b : Nat} {mem : Nat → BitVec 32} {s : Reduction} {e id i : Nat} {fs : List RdFrame}

section
variable (I : s.Inv b mem)
include I

lemma Reduction.Inv.mem_bodies (h : s.frames e = .body id :: fs) : e ∈ s.bodies := by
  have count := I.count e
  rw [h, countP_cons_of_pos rfl] at count
  exact count_pos_iff.1 (by omega)

lemma Reduction.Inv.unfolded (h : s.enter ≠ [] ∨ s.prepare ≠ [] ∨ s.todo ≠ [] ∨
    s.queued ≠ [] ∨ s.bodies ≠ []) : s.post = none ∧ s.mem b = mem b := by
  have gathered := I.gathered
  cases hp : s.post with
  | none =>
    rw [hp] at gathered
    exact ⟨rfl, gathered⟩
  | some rest =>
    rw [hp] at gathered
    obtain ⟨h1, h2, h3, h4, h5, -⟩ := gathered
    simp [h1, h2, h3, h4, h5] at h

omit I in
lemma Reduction.gathered_none (post : s.post = none) (hm : s.mem b = mem b) : s.Gathered b mem s.post := by
  rw [post]
  exact hm

lemma Reduction.Inv.start (todo queued : List Task) (he : s.Started e) (prepared : s.prepare = [])
    (out : s.kind ≠ .task → e ∉ s.bodies ∧ e ∉ s.left)
    (plain : s.kind ≠ .task → todo = [] ∧ queued = [])
    (bound : ∀ t ∈ todo ++ queued, t ∈ s.todo ++ s.queued) (post : s.post = none) (hm : s.mem b = mem b) :
    Reduction.Inv b mem ({ s with todo, queued }.start e id) := by
  refine { I with
    plain := fun nt => ⟨(I.plain nt).1, plain nt⟩
    ready := fun _ => prepared
    bound := fun t ht => I.bound t (bound t ht)
    body := fun x hx => ?_
    count := fun x => ?_
    ids := fun x n hx => ?_
    once := fun nt => nodup_cons.2 ⟨(out nt).1, I.once nt⟩
    left := fun nt x hx => ?_
    calls := fun x items hx => ?_
    fresh := fun w hw => ⟨(I.fresh w hw).1, mem_cons_of_mem _ (I.fresh w hw).2⟩
    gathered := Reduction.gathered_none post hm }
  · rcases mem_cons.1 hx with rfl | hx
    · exact ⟨he.1, he.2.1, prepared⟩
    · exact I.body x hx
  · simp only [Reduction.start, Reduction.push, update_apply]
    split
    · rename_i eq
      subst eq
      rw [countP_cons_of_pos rfl, count_cons_self, I.count]
    · rename_i ne
      rw [count_cons_of_ne (Ne.symm ne), I.count]
  · simp only [Reduction.start, Reduction.push, update_apply] at hx
    split at hx
    · rcases mem_cons.1 hx with eq | hx
      · cases eq
        exact mem_cons_self
      · exact mem_cons_of_mem _ (I.ids e n hx)
    · exact mem_cons_of_mem _ (I.ids x n hx)
  · obtain ⟨h1, h2, h3⟩ := I.left nt x hx
    refine ⟨h1, h2, fun mem => ?_⟩
    rcases mem_cons.1 mem with rfl | mem
    · exact (out nt).2 hx
    · exact h3 mem
  · simp only [Reduction.start, Reduction.push, update_apply] at hx
    split at hx
    · exact I.calls e items ((mem_cons.1 hx).resolve_left nofun)
    · exact I.calls x items hx

lemma Reduction.Inv.dup_intact (not : ¬s.Started e) : (s.dup e s.items).Intact b e := by
  intro j hj
  obtain ⟨-, it, hit, -⟩ := mem_itemsAt.1 hj
  replace hit : s.items[j]? = some it := hit
  have nothing : s.written e j = [] := by
    refine under_eq_nil fun p hp eq => not ?_
    obtain ⟨w, hw, rfl⟩ := mem_map.1 hp
    have started := (I.fresh w hw).1
    rwa [show w.eid = e from congrArg Prod.fst eq] at started
  have total : (s.dup e s.items).total e j = it.op.init := by
    show s.total e j = _
    simp only [Reduction.total, hit, nothing, foldl_nil]
  rw [total]
  simp only [Reduction.dup, update_self, Private.dup, hit, Option.map_some, Option.getD_some, and_self]

lemma Reduction.Inv.dup (enter prepare : List Nat) (not : ¬s.Started e)
    (enters : enter.Sublist s.enter ∧ ∀ x ∈ s.enter, x ∉ enter → x = e)
    (prepares : prepare ⊆ s.prepare ∧ ∀ x ∈ s.prepare, x ∉ prepare → x = e) (post : s.post = none)
    (hm : s.mem b = mem b) : Reduction.Inv b mem ({ s with enter, prepare }.dup e s.items) := by
  have old : ∀ x, ({ s with enter, prepare }.dup e s.items).Started x → x ≠ e → s.Started x :=
    fun x hx ne => ⟨hx.1, fun h => ne (enters.2 x h hx.2.1), fun h => ne (prepares.2 x h hx.2.2)⟩
  have nil : s.prepare = [] → prepare = [] := fun h => eq_nil_of_subset_nil (h ▸ prepares.1)
  refine { I with
    member := fun x hx => I.member x (enters.1.subset hx)
    enter := I.enter.sublist enters.1
    plain := fun nt => ⟨nil (I.plain nt).1, (I.plain nt).2⟩
    task := fun t => eq_nil_of_subset_nil (I.task t ▸ enters.1.subset)
    ready := fun h => nil (I.ready h)
    body := fun x hx => ?_
    left := fun nt x hx => ?_
    fresh := fun w hw => ⟨?_, (I.fresh w hw).2⟩
    num := fun x hx nc => ?_
    intact := fun x hx j hj => ?_
    gathered := Reduction.gathered_none post hm }
  · obtain ⟨h1, h2, h3⟩ := I.body x hx
    exact ⟨h1, fun h => h2 (enters.1.subset h), nil h3⟩
  · obtain ⟨h1, h2, h3⟩ := I.left nt x hx
    exact ⟨h1, fun h => h2 (enters.1.subset h), h3⟩
  · obtain ⟨h1, h2, h3⟩ := (I.fresh w hw).1
    exact ⟨h1, fun h => h2 (enters.1.subset h), fun h => h3 (prepares.1 h)⟩
  · by_cases eq : x = e
    · subst eq
      simp only [Reduction.dup, update_self, Private.dup]
    · simp only [Reduction.dup, update_of_ne eq]
      exact I.num x (old x hx eq) nc
  · by_cases eq : x = e
    · subst eq
      exact I.dup_intact not j hj
    · have kept : ({ s with enter, prepare }.dup e s.items).priv x = s.priv x :=
        update_of_ne eq _ _
      rw [kept]
      exact I.intact x (old x hx eq) j hj

omit I in
lemma Reduction.written_append {w : RdWrite} {x j : Nat} : Reduction.written { s with wrote := s.wrote ++ [w] } x j =
      if w.key = (x, j) then s.written x j ++ [w.value] else s.written x j := by
  simp only [Reduction.written, map_append, map_cons, map_nil]
  exact under_append _ _ _ _

omit I in
lemma Reduction.total_append {w : RdWrite} {it : RdItem} {x j : Nat}
    (hit : s.items[w.item]? = some it) : Reduction.total { s with wrote := s.wrote ++ [w] } x j =
      if w.key = (x, j) then it.op.combine (s.total x j) w.value else s.total x j := by
  unfold Reduction.total
  rw [Reduction.written_append]
  by_cases eq : w.key = (x, j)
  · have item : w.item = j := congrArg Prod.snd eq
    rw [item] at hit
    simp only [if_pos eq, hit, foldl_append, foldl_cons, foldl_nil]
  · simp only [if_neg eq]

omit I in
lemma Reduction.write_data {op : RdOp} {x : BitVec 32} {y j : Nat} : ((s.write e i op x).priv y).data j =
      if (e, i) = (y, j) then op.combine ((s.priv y).data j) x else (s.priv y).data j := by
  simp only [Reduction.write, update_apply, Prod.mk.injEq]
  by_cases same : y = e
  · subst same
    simp only [if_true, true_and, update_apply, eq_comm (a := i)]
    split
    · rename_i eq
      rw [eq]
    · rfl
  · rw [if_neg same, if_neg fun h => same h.1.symm]

omit I in
lemma Reduction.write_item {op : RdOp} {x : BitVec 32} {y : Nat} :
    ((s.write e i op x).priv y).item = (s.priv y).item ∧
      ((s.write e i op x).priv y).num = (s.priv y).num := by
  simp only [Reduction.write, update_apply]
  split
  · rename_i eq
    subst eq
    exact ⟨rfl, rfl⟩
  · exact ⟨rfl, rfl⟩

lemma Reduction.Inv.write {it : RdItem} {x : BitVec 32}
    (h : s.frames e = .body id :: fs) (hit : s.items[i]? = some it) :
    Reduction.Inv b mem { s.write e i it.op x with wrote := s.wrote ++ [⟨e, i, id, x⟩] } := by
  have inside := I.mem_bodies h
  have started : s.Started e :=
    ⟨(I.body e inside).1, (I.body e inside).2.1, by rw [(I.body e inside).2.2]; exact not_mem_nil⟩
  obtain ⟨post, hm⟩ := I.unfolded (.inr (.inr (.inr (.inr (ne_nil_of_mem inside)))))
  refine { I with
    fresh := fun w hw => ?_
    num := fun y hy nc => ?_
    intact := fun y hy j hj => ?_
    gathered := Reduction.gathered_none post hm }
  · rcases mem_append.1 hw with hw | hw
    · exact I.fresh w hw
    · rw [mem_singleton.1 hw]
      exact ⟨started, I.ids e id (h ▸ mem_cons_self)⟩
  · exact Reduction.write_item.2.trans (I.num y hy nc)
  · obtain ⟨item, data⟩ := I.intact y hy j hj
    refine ⟨item.trans (congrArg some (congrFun Reduction.write_item.1 j).symm), ?_⟩
    refine Reduction.write_data.trans ?_
    rw [data]
    exact (@Reduction.total_append s ⟨e, i, id, x⟩ it y j hit).symm

lemma Reduction.Inv.writeInner {items : List RdItem} {it : RdItem} {x : BitVec 32} (h : s.frames e = .call items :: fs)
    (hit : items[i]? = some it) : (s.write e i it.op x).Inv b mem := by
  have spares := I.calls e items (h ▸ mem_cons_self)
  refine { I with
    num := fun y hy nc => Reduction.write_item.2.trans (I.num y hy nc)
    intact := fun y hy j hj => ?_ }
  have lt := (List.getElem?_eq_some_iff.1 hit).1
  have ne : (e, i) ≠ (y, j) := by
    intro eq
    cases eq
    exact absurd (spares.2 i hj) (by omega)
  obtain ⟨item, data⟩ := I.intact y hy j hj
  refine ⟨item.trans (congrArg some (congrFun Reduction.write_item.1 j).symm), ?_⟩
  refine Reduction.write_data.trans ?_
  rw [if_neg ne]
  exact data

lemma Reduction.Inv.leave (h : s.frames e = .body id :: fs) :
    Reduction.Inv b mem { s.pop e with bodies := s.bodies.erase e, left := s.left ++ [e] } := by
  have inside := I.mem_bodies h
  obtain ⟨post, hm⟩ := I.unfolded (.inr (.inr (.inr (.inr (ne_nil_of_mem inside)))))
  have tail : ∀ x f, f ∈ (s.pop e).frames x → f ∈ s.frames x := by
    intro x f hf
    simp only [Reduction.pop, update_apply] at hf
    split at hf
    · rename_i eq
      exact eq ▸ mem_of_mem_tail hf
    · exact hf
  refine { I with
    body := fun x hx => I.body x (mem_of_mem_erase hx)
    count := fun x => ?_
    ids := fun x n hx => I.ids x n (tail x _ hx)
    once := fun nt => (I.once nt).erase e
    left := fun nt x hx => ?_
    calls := fun x items hx => I.calls x items (tail x _ hx)
    gathered := Reduction.gathered_none post hm }
  · have count := I.count x
    simp only [Reduction.pop, update_apply]
    split
    · rename_i eq
      subst eq
      rw [h, countP_cons_of_pos rfl] at count
      rw [h, tail_cons, count_erase_self]
      omega
    · rename_i ne
      rw [count_erase_of_ne ne, count]
  · rcases mem_append.1 hx with hx | hx
    · obtain ⟨h1, h2, h3⟩ := I.left nt x hx
      exact ⟨h1, h2, fun h => h3 (mem_of_mem_erase h)⟩
    · rw [mem_singleton.1 hx]
      obtain ⟨h1, h2, -⟩ := I.body e inside
      exact ⟨h1, h2, (I.once nt).not_mem_erase⟩

lemma Reduction.Inv.queue {t : Task} {ts : List Task} (prepared : s.prepare = []) (h : s.todo = t :: ts) :
    Reduction.Inv b mem { s with todo := ts, queued := s.queued ++ [t] } := by
  have some : s.todo ≠ [] := by simp [h]
  obtain ⟨post, hm⟩ := I.unfolded (.inr (.inr (.inl some)))
  have perm : (s.todo ++ s.queued).Perm (ts ++ (s.queued ++ [t])) := by
    rw [h, cons_append, ← append_assoc]
    exact (perm_append_singleton t (ts ++ s.queued)).symm
  exact { I with
    plain := fun nt => absurd (I.plain nt).2.1 some
    ready := fun _ => prepared
    bound := fun x hx => I.bound x (perm.mem_iff.2 hx)
    gathered := Reduction.gathered_none post hm }

lemma Reduction.Inv.post (post : s.post = none) (behind : s.Behind e) :
    Reduction.Inv b mem { s with post := some s.folds } := by
  have hm : s.mem b = mem b := by
    have gathered := I.gathered
    rw [post] at gathered
    exact gathered
  have done : s.enter = [] ∧ s.prepare = [] ∧ s.todo = [] ∧ s.queued = [] ∧ s.bodies = [] := by
    -- on a team the one that folds has waited for all others
    have all : s.kind ≠ .task → ∀ x ∈ s.folds, x ∈ s.left := by
      intro nt x hx
      unfold Reduction.Behind at behind
      cases kind : s.kind with
      | alone =>
        simp only [kind, Reduction.folds, mem_singleton] at behind hx
        rw [hx, ← behind.1]
        exact behind.2
      | team =>
        obtain ⟨own, first⟩ := I.own kind
        simp only [kind] at behind
        have lead := first e (I.left nt e behind.1).1 behind.2.1
        refine behind.2.2 lead own x ?_
        simpa only [Reduction.folds, kind] using hx
      | task => exact absurd kind nt
    by_cases task : s.kind = .task
    · unfold Reduction.Behind at behind
      simp only [task] at behind
      exact ⟨I.task task, behind.2⟩
    · obtain ⟨h1, h2, h3⟩ := I.plain task
      refine ⟨eq_nil_iff_forall_not_mem.2 fun x hx => ?_, h1, h2, h3,
        eq_nil_iff_forall_not_mem.2 fun x hx => ?_⟩
      · exact (I.left task x (all task x (I.member x hx))).2.1 hx
      · exact (I.left task x (all task x (I.body x hx).1)).2.2 hx
  obtain ⟨h1, h2, h3, h4, h5⟩ := done
  exact { I with gathered := ⟨h1, h2, h3, h4, h5, [], rfl, hm⟩ }

lemma Reduction.Inv.fold {eids : List Nat} (post : s.post = some (e :: eids)) :
    Reduction.Inv b mem { s with mem := s.gather [e] s.items, post := some eids } := by
  have gathered := I.gathered
  rw [post] at gathered
  obtain ⟨h1, h2, h3, h4, h5, done, hd, hm⟩ := gathered
  have started : s.Started e := by
    refine ⟨hd ▸ mem_append_right _ mem_cons_self, ?_, ?_⟩
    · rw [h1]
      exact not_mem_nil
    · rw [h2]
      exact not_mem_nil
  refine { I with gathered := ⟨h1, h2, h3, h4, h5, done ++ [e], ?_, ?_⟩ }
  · rw [append_assoc]
    exact hd
  · have step : s.result mem (done ++ [e]) = doReduce (s.result mem done) (s.total e) 0 s.items :=
      foldl_append
    show doReduce s.mem (s.priv e).data 0 s.items b = s.result mem (done ++ [e]) b
    rw [step]
    exact doReduce_congr hm fun j hj => (I.intact e started j hj).2

lemma Reduction.Inv.enters (he : e ∈ s.enter) : Reduction.Inv b mem
      (({ s with enter := s.enter.erase e }.dup e s.items).start e e) := by
  have nt : s.kind ≠ .task := by
    intro task
    rw [I.task task] at he
    cases he
  obtain ⟨prepare, todo, queued⟩ := I.plain nt
  obtain ⟨post, hm⟩ := I.unfolded (.inl (ne_nil_of_mem he))
  have dup := I.dup (s.enter.erase e) s.prepare (fun h => h.2.1 he)
    ⟨erase_sublist, fun x hx hn => by
      by_contra ne
      exact hn ((mem_erase_of_ne ne).2 hx)⟩
    ⟨List.Subset.refl _, fun x hx hn => absurd hx hn⟩ post hm
  refine dup.start s.todo s.queued
    ⟨I.member e he, I.enter.not_mem_erase, ?_⟩ prepare (fun _ => ⟨fun h => ?_, fun h => ?_⟩)
    (fun _ => ⟨todo, queued⟩) (fun t ht => ht) post hm
  · show e ∉ s.prepare
    rw [prepare]
    exact not_mem_nil
  · exact (I.body e h).2.1 he
  · exact (I.left nt e h).2.1 he

lemma Reduction.Inv.prepares {eids : List Nat} (h : s.prepare = e :: eids) :
    Reduction.Inv b mem ({ s with prepare := eids }.dup e s.items) := by
  have mem : e ∈ s.prepare := h ▸ mem_cons_self
  obtain ⟨post, hm⟩ := I.unfolded (.inr (.inl (ne_nil_of_mem mem)))
  refine I.dup s.enter eids (fun st => st.2.2 mem)
    ⟨List.Sublist.refl _, fun x hx hn => absurd hx hn⟩ ⟨?_, fun x hx hn => ?_⟩ post hm
  · rw [h]
    exact subset_cons_self _ _
  · rw [h] at hx
    exact (mem_cons.1 hx).resolve_right hn

lemma Reduction.Inv.takes {t : Task} (todo queued : List Task) (prepared : s.prepare = []) (he : e ∈ s.folds)
    (perm : (s.todo ++ s.queued).Perm (t :: (todo ++ queued))) :
    Reduction.Inv b mem ({ s with todo, queued }.start e t.taskId) := by
  have left : s.todo ≠ [] ∨ s.queued ≠ [] := by
    by_contra none
    simp only [not_or, not_not] at none
    rw [none.1, none.2] at perm
    cases perm.length_eq
  have task : s.kind = .task := by
    by_contra nt
    obtain ⟨-, h1, h2⟩ := I.plain nt
    exact left.elim (fun h => h h1) fun h => h h2
  obtain ⟨post, hm⟩ := I.unfolded (.inr (.inr (left.imp id .inl)))
  refine I.start todo queued ⟨he, ?_, ?_⟩ prepared (fun nt => absurd task nt) (fun nt => absurd task nt)
    (fun x hx => perm.mem_iff.2 (mem_cons_of_mem _ hx)) post hm
  · rw [I.task task]
    exact not_mem_nil
  · rw [prepared]
    exact not_mem_nil

omit I in
lemma perm_take {todo queued : List Task} {t : Task} (h : queued[i]? = some t) :
    (todo ++ queued).Perm (t :: (todo ++ queued.eraseIdx i)) := by
  obtain ⟨lt, rfl⟩ := List.getElem?_eq_some_iff.1 h
  exact ((getElem_cons_eraseIdx_perm lt).symm.append_left todo).trans perm_middle

lemma Reduction.Inv.step {steals : Bool} {s' : Reduction} {a : RdLabel} (hg : Spares b s a)
    (h : reductionStep steals s a = some s') : s'.Inv b mem := by
  cases a with
  | enter e =>
    simp only [reductionStep] at h
    split at h
    · rename_i he
      cases h
      exact I.enters he
    · cases h
  | prepare =>
    simp only [reductionStep] at h
    split at h
    · cases h
    · rename_i hp
      cases h
      exact I.prepares hp
  | queue =>
    simp only [reductionStep] at h
    split at h
    · rename_i hp ht
      cases h
      exact I.queue hp ht
    · cases h
  | inline =>
    simp only [reductionStep] at h
    split at h
    · rename_i t ts hp ht
      cases h
      have task : s.kind = .task := by
        by_contra nt
        rw [(I.plain nt).2.1] at ht
        cases ht
      have folds : s.folds = s.pf.selected := by
        simp only [Reduction.folds, task]
      have perm : (s.todo ++ s.queued).Perm (t :: (ts ++ s.queued)) := by
        rw [ht]
        exact .refl _
      exact I.takes ts s.queued hp (folds ▸ hg) perm
    · cases h
  | take i e =>
    simp only [reductionStep] at h
    split at h
    · cases h
    · rename_i t ht
      split at h
      · cases h
        have hq : s.queued ≠ [] := by
          intro nil
          rw [nil] at ht
          cases ht
        have task : s.kind = .task := by
          by_contra nt
          exact hq (I.plain nt).2.2
        have folds : s.folds = s.pf.selected := by
          simp only [Reduction.folds, task]
        refine I.takes s.todo (s.queued.eraseIdx i) (I.ready hq) ?_ (perm_take ht)
        obtain bound | selected := hg t ht
        · exact bound ▸ I.bound t (mem_append_right _ (mem_of_getElem? ht))
        · exact folds ▸ selected
      · cases h
  | write e i x =>
    simp only [reductionStep] at h
    split at h
    · cases h
    · rename_i hf
      obtain ⟨it, hit, rfl⟩ := Option.map_eq_some_iff.1 h
      exact I.write hf hit
    · rename_i hf
      obtain ⟨it, hit, rfl⟩ := Option.map_eq_some_iff.1 h
      exact I.writeInner hf hit
  | call e items =>
    simp only [reductionStep] at h
    split at h
    · cases h
    · cases h
      exact (I.redup hg).pushCall hg
  | ret e =>
    simp only [reductionStep] at h
    split at h
    · rename_i hf
      cases h
      exact (I.popCall hf).setMem (Reduction.gather_other (I.calls e _ (hf ▸ mem_cons_self)).1)
    · cases h
  | region items =>
    simp only [reductionStep] at h
    split at h
    · cases h
    · cases h
      refine { I with inner := fun is his => ?_ }
      rcases mem_cons.1 his with rfl | his
      · exact hg
      · exact I.inner is his
  | ready e =>
    simp only [reductionStep] at h
    split at h
    · cases h
    · rename_i hi
      cases h
      exact I.redup (I.inner _ (hi ▸ mem_cons_self))
  | join e =>
    simp only [reductionStep] at h
    split at h
    · cases h
    · rename_i hi
      cases h
      exact I.pushCall (I.inner _ (hi ▸ mem_cons_self))
  | quit e =>
    simp only [reductionStep] at h
    split at h
    · rename_i hf
      cases h
      exact I.popCall hf
    · cases h
  | gather eids =>
    simp only [reductionStep] at h
    split at h
    · cases h
    · rename_i items rest hi
      cases h
      have other : s.gather eids items b = s.mem b :=
        Reduction.gather_other (I.inner _ (hi ▸ mem_cons_self)).1
      exact { I.setMem other with
        inner := fun is his => I.inner is (hi ▸ mem_cons_of_mem _ his) }
  | leave e =>
    simp only [reductionStep] at h
    split at h
    · rename_i hf
      cases h
      exact I.leave hf
    · cases h
  | post e =>
    simp only [reductionStep] at h
    split at h
    · rename_i hp
      cases h
      exact I.post hp.1 hp.2
    · cases h
  | fold =>
    simp only [reductionStep] at h
    split at h
    · rename_i hp
      cases h
      exact I.fold hp
    · cases h

end

lemma reductionStep_fixed {steals : Bool} {s' : Reduction} {a : RdLabel} (h : reductionStep steals s a = some s') :
    s'.kind = s.kind ∧ s'.items = s.items ∧ s'.geid = s.geid ∧ s'.pf = s.pf := by
  unfold reductionStep at h
  repeat' split at h
  all_goals first
    | cases h
      exact ⟨rfl, rfl, rfl, rfl⟩
    | obtain ⟨it, -, rfl⟩ := Option.map_eq_some_iff.1 h
      exact ⟨rfl, rfl, rfl, rfl⟩
    | cases h

lemma reductionStep_parts {steals : Bool} {s' : Reduction} {a : RdLabel}
    (h : reductionStep steals s a = some s') : s'.parts = s.parts := by
  obtain ⟨kind, -, geid, hpf⟩ := reductionStep_fixed h
  unfold Reduction.parts Reduction.folds
  rw [kind, geid, hpf]

lemma reductionStep_pending {steals : Bool} {s' : Reduction} {a : RdLabel}
    (h : reductionStep steals s a = some s') : s'.pending.Perm s.pending := by
  unfold Reduction.pending
  cases a with
  | enter e =>
    simp only [reductionStep] at h
    split at h
    · rename_i he
      cases h
      refine List.Perm.append_left _ ?_
      exact perm_middle.trans ((perm_cons_erase he).symm.append_right s.ran)
    · cases h
  | queue =>
    simp only [reductionStep] at h
    split at h
    · rename_i t ts _ ht
      cases h
      refine (List.Perm.map _ ?_).append_right _
      rw [ht, ← append_assoc]
      exact perm_append_singleton t (ts ++ s.queued)
    · cases h
  | inline =>
    simp only [reductionStep] at h
    split at h
    · rename_i t ts _ ht
      cases h
      show ((ts ++ s.queued).map Task.taskId ++ (s.enter ++ t.taskId :: s.ran)).Perm _
      rw [ht, ← append_assoc, ← append_assoc]
      exact perm_middle
    · cases h
  | take i e =>
    simp only [reductionStep] at h
    split at h
    · cases h
    · rename_i t ht
      split at h
      · cases h
        show ((s.todo ++ s.queued.eraseIdx i).map Task.taskId ++ (s.enter ++ t.taskId :: s.ran)).Perm _
        rw [← append_assoc, ← append_assoc]
        refine perm_middle.trans ?_
        exact (((perm_take ht).map Task.taskId).symm.append_right s.enter).append_right s.ran
      · cases h
  | prepare | write | call | ret | region | ready | join | quit | gather | leave | post | fold =>
    simp only [reductionStep] at h
    repeat' split at h
    all_goals first
      | cases h
        exact .refl _
      | obtain ⟨it, -, rfl⟩ := Option.map_eq_some_iff.1 h
        exact .refl _
      | cases h

end Step

end Kupl.Loop
