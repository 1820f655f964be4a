import Kupl.Loop.Fold
import Kupl.Loop.Reduction

/-!
# Reduce calls from inside of reduce regions, and chunk tasks on other executors

Regions of `kupl_parallel_for_reduce` of `mt/kupl_parallel_for.cpp` from their begin on
(`beginReduction_inv`), for `KUPL_LOOP_POLICY_TASK` as well as for the others.

Whatever the order of the steps, a user buffer that every step of the region spares ends up with what the
bodies have written (`reduction_spared`). Where that is said of chunk tasks, it does not depend on the
executors that run them (`taskReduction_same`). Reduce calls from inside of a body with as many items as
there are before those of the buffer, or more, and chunk tasks on other executors break it.
-/

namespace Kupl.Loop
open Kupl.Range Kupl.Group Kupl.Cut List

/-- The caller of a region runs it alone, or its group has a member for each thread and it has chunk
tasks, or it is the first member and selected. -/
def Leads (env : Env) (g : EgroupInfo) (k : Int) (req : Request) : Prop :=
  req.Quick env g k ∨ k.toNat ≤ g.eidSet.card ∧ (req.IsTask ∨ g.tid env.geid = 0 ∧
    env.geid ∈ g.limit k.toNat)

section Begin
variable {n : Nat} {env : Env} {E : Egroups} {P : Slots} {req : Request} {g : EgroupInfo} {k : Int}
  {s : Reduction} {b : Nat} {mem : Nat → BitVec 32}

lemma regionTasks_executor {region master : Nat} {base remain : Int} {eids : List Nat} {eidx taskId : Nat} {t : Task}
    (h : t ∈ regionTasks region master base remain eids eidx taskId) : t.executorId ∈ eids := by
  induction eids generalizing eidx taskId with
  | nil => cases h
  | cons eid eids ih =>
    rw [regionTasks, mem_append] at h
    obtain h | h := h
    · obtain ⟨id, -, rfl⟩ := mem_map.1 h
      exact mem_cons_self
    · exact mem_cons_of_mem _ (ih h)

/-- Nothing of a region has happened yet. -/
structure Reduction.Fresh (mem : Nat → BitVec 32) (s : Reduction) : Prop where
  queued : s.queued = []
  ran : s.ran = []
  bodies : s.bodies = []
  left : s.left = []
  frames : ∀ e, s.frames e = []
  inner : s.inner = []
  post : s.post = none
  mem : s.mem = mem
  wrote : s.wrote = []
  waits : ∀ e ∈ s.folds, e ∈ s.enter ∨ e ∈ s.prepare

lemma Reduction.Fresh.inv (F : s.Fresh mem) (nodup : s.folds.Nodup)
    (own : s.kind = .team → s.master = s.geid ∧ ∀ e ∈ s.folds, s.pf.egroup.tid e = 0 → e = s.master)
    (member : ∀ e ∈ s.enter, e ∈ s.folds) (enter : s.enter.Nodup)
    (plain : s.kind ≠ .task → s.prepare = [] ∧ s.todo = []) (task : s.kind = .task → s.enter = [])
    (bound : ∀ t ∈ s.todo, t.executorId ∈ s.folds) :
    s.Inv b mem where
  nodup := nodup
  own := own
  member := member
  enter := enter
  plain nt := ⟨(plain nt).1, (plain nt).2, F.queued⟩
  task := task
  ready h := absurd F.queued h
  bound t ht := by
    rw [F.queued, append_nil] at ht
    exact bound t ht
  body e he := by
    rw [F.bodies] at he
    cases he
  count e := by
    rw [F.frames, F.bodies]
    rfl
  ids e id h := by
    rw [F.frames] at h
    cases h
  once _ := by
    rw [F.bodies]
    exact nodup_nil
  left _ e he := by
    rw [F.left] at he
    cases he
  calls e items h := by
    rw [F.frames] at h
    cases h
  inner items h := by
    rw [F.inner] at h
    cases h
  fresh w hw := by
    rw [F.wrote] at hw
    cases hw
  num e he _ := absurd (F.waits e he.1) fun h => h.elim he.2.1 he.2.2
  intact e he := absurd (F.waits e he.1) fun h => h.elim he.2.1 he.2.2
  gathered := gathered_none F.post (congrFun F.mem b)

variable {items : List RdItem} {priv : Nat → Private}

lemma startTeam_reduction {level : Nat} {pf : Pf} (I : pf.egroup.Ok) (zero : pf.egroup.tid env.geid = 0)
    (sel : env.geid ∈ pf.selected) (card : pf.numThreads.toNat ≤ pf.egroup.eidSet.card)
    (hs : beginReduction env items priv mem (startTeam env P level env.geid pf) = some s) :
    s.Inv b mem ∧ s.pending.Perm s.parts := by
  have nodup : pf.selected.Nodup := I.limit_nodup card
  have team : teamEids env pf env.geid = pf.selected := teamEids_selected nodup sel
  have slot : (startTeam env P level env.geid pf).1 level env.geid = pf.setMaster env.geid :=
    startTeam_own sel
  have begun : s.kind = .team ∧ s.geid = env.geid ∧ s.master = env.geid ∧
      s.pf = pf.setMaster env.geid ∧ s.enter = pf.selected ∧ s.prepare = [] ∧ s.todo = [] ∧
      s.pending = s.enter ∧ (s.folds = s.pf.selected → s.Fresh mem) := by
    have shape := (Option.some.inj hs).symm
    subst shape
    refine ⟨rfl, rfl, rfl, slot, team, rfl, rfl, append_nil _, fun folds => ?_⟩
    refine ⟨rfl, rfl, rfl, rfl, fun _ => rfl, rfl, rfl, rfl, rfl, fun e he => .inl ?_⟩
    have he : e ∈ ((startTeam env P level env.geid pf).1 level env.geid).selected := folds ▸ he
    rw [slot] at he
    show e ∈ teamEids env pf env.geid
    exact team ▸ he
  obtain ⟨kind, geid, master, hpf, enter, prepare, todo, pending, fresh⟩ := begun
  have folds : s.folds = pf.selected := by
    simp only [Reduction.folds, kind, hpf]
    rfl
  have nt : s.kind ≠ .task := by
    rw [kind]
    decide
  have parts : s.parts = s.folds := by
    simp only [Reduction.parts, kind]
  refine ⟨(fresh (by rw [folds, hpf]; rfl)).inv (folds ▸ nodup) (fun _ => ?_) (fun e he => ?_)
    (enter ▸ nodup) (fun _ => ⟨prepare, todo⟩) (fun task => absurd task nt) (fun t ht => ?_), ?_⟩
  · refine ⟨master.trans geid.symm, fun e he h => ?_⟩
    rw [folds] at he
    rw [hpf] at h
    rw [master]
    exact I.tid_inj (mem_of_mem_limit he) (h.trans zero.symm)
  · rw [folds, ← enter]
    exact he
  · rw [todo] at ht
    cases ht
  · rw [pending, parts, folds, enter]

lemma TaskSlot.ids {d : PfDesc} {range : NdRange} {master : Nat} {pf : Pf} (hb : Built n E)
    (hd : req.check env E = some d) (hdr : d.range = some range) (hr : req.resolve env E = some (g, k))
    (isTask : req.IsTask) (slot : TaskSlot g k range master pf) (pos : 0 < k) :
    (beginTasks 0 pf).map Task.taskId = List.range pf.totalChunks.toNat := by
  obtain ⟨dim, block, dir⟩ := Request.check_task hd isTask hdr
  have total : pf.totalChunks = (calcChunk (range.ndRange 0)).chunks := by
    rw [slot.totalChunks]
    simp [Range.calcChunkInfo, dim]
  rw [total]
  exact beginTasks_ids slot (Request.resolve_ok hb hr) (Request.resolve_size hr pos) pos dim block dir

lemma beginReduction_inv (hb : Built n E) (hr : req.resolve env E = some (g, k)) (leads : Leads env g k req)
    (hs : beginReduction env items priv mem (beginRegion env E P req) = some s) :
    s.Inv b mem ∧ s.pending.Perm s.parts := by
  have I : g.Ok := Request.resolve_ok hb hr
  generalize hout : beginRegion env E P req = out at hs
  have begins : Begins env E P req out := hout ▸ beginRegion_begins
  cases begins with
  | rejected => cases hs
  | quick =>
    cases hs
    exact ⟨Reduction.Fresh.inv ⟨rfl, rfl, rfl, rfl, fun _ => rfl, rfl, rfl, rfl, rfl, fun e he => .inl he⟩
      (nodup_singleton _) (by rintro ⟨⟩) (fun e he => he) (nodup_singleton _)
      (fun _ => ⟨rfl, rfl⟩) (by rintro ⟨⟩) (by rintro _ ⟨⟩), .refl _⟩
  | @run g' k' pf hr' quick nt eg ek _ _ =>
    rw [hr] at hr'
    cases hr'
    obtain ⟨card, h⟩ := leads.resolve_left quick
    obtain ⟨zero, sel⟩ := h.resolve_left nt
    have master : masterEid env g = env.geid := if_pos (mem_of_mem_limit sel)
    subst eg ek
    simp only [startRun] at hs
    split at hs
    · simp only [startOmp] at hs
      split at hs <;> cases hs
    · rw [master] at hs
      exact startTeam_reduction I zero sel card hs
  | @task d g' k' range P' start hd hdr hr' quick isTask hstart _ _ slot =>
    rw [hr] at hr'
    cases hr'
    obtain ⟨card, -⟩ := leads.resolve_left quick
    obtain rfl | rfl := hstart
    · cases hs
    · have slot := slot (by rintro ⟨⟩)
      simp only [beginReduction] at hs
      split at hs
      · cases hs
      · rename_i pos
        cases hs
        rw [slot.numThreads] at pos
        have selected : (P' (req.level env) (masterEid env g)).selected = g.limit k.toNat := by
          rw [Pf.selected, slot.egroup, slot.numThreads]
        refine ⟨Reduction.Fresh.inv ⟨rfl, rfl, rfl, rfl, fun _ => rfl, rfl, rfl, rfl, rfl, fun e he => .inr he⟩
          ?_ (by rintro ⟨⟩) (by rintro _ ⟨⟩) nodup_nil (fun nt => absurd rfl nt) (fun _ => rfl)
          (fun t ht => regionTasks_executor ht), ?_⟩
        · show (P' (req.level env) (masterEid env g)).selected.Nodup
          rw [selected]
          exact I.limit_nodup card
        · have ids := slot.ids hb hd hdr hr isTask (by omega)
          show ((beginTasks 0 _ ++ []).map Task.taskId ++ []).Perm _
          rw [append_nil, append_nil, ids]
          exact .refl _

end Begin

section Run
variable {s : Reduction} {b e j : Nat} {op : RdOp} {mem : Nat → BitVec 32}

/-- What the bodies have written to the items with a buffer. -/
def Reduction.contributions (s : Reduction) (b : Nat) : List RdWrite :=
  s.wrote.filter fun w => w.item ∈ itemsAt b 0 s.items

/-- What one body has written to the items with a buffer. -/
def Reduction.partValues (s : Reduction) (b id : Nat) : List (BitVec 32) :=
  under ((s.contributions b).map fun w => (w.body, w.value)) id

/-- A buffer is kept from all but the bodies of the region: the items that have it are as these left
them, in sets that were started for the region and are of its size unless a call from inside has started
them over; and once all sets are folded it holds what they have written, from each executor once. -/
structure Reduction.Kept (b : Nat) (mem : Nat → BitVec 32) (s : Reduction) : Prop where
  sets : ∀ e, s.Started e → s.Intact b e ∧ (e ∉ s.called → (s.priv e).num = s.items.length)
  own : ∀ w ∈ s.wrote, s.Started w.eid
  once : s.folds.Nodup
  result : s.post = some [] → s.mem b = s.result mem s.folds b

/-- Every body of the region was run once, in a set that was started for it, and a buffer holds what
they have written, one body after the other. -/
structure Reduction.Whole (b : Nat) (op : RdOp) (mem : Nat → BitVec 32) (s : Reduction) : Prop where
  once : s.ran.Perm s.parts
  own : ∀ w ∈ s.wrote, s.Started w.eid ∧ w.body ∈ s.ran
  result : s.mem b = (s.parts.flatMap (s.partValues b)).foldl op.combine (mem b)

lemma Reduction.Inv.kept (I : s.Inv b mem) : s.Kept b mem := by
  refine ⟨fun e he => ⟨I.intact e he, I.num e he⟩, fun w hw => (I.fresh w hw).1, I.nodup, fun post => ?_⟩
  have gathered := I.gathered
  rw [post] at gathered
  obtain ⟨-, -, -, -, -, done, all, hm⟩ := gathered
  rw [append_nil] at all
  rwa [all] at hm

lemma Reduction.total_at (one : OneOp s.items b op) (hj : j ∈ itemsAt b 0 s.items) :
    s.total e j = (s.written e j).foldl op.combine op.init := by
  obtain ⟨-, it, hit, buffer⟩ := mem_itemsAt.1 hj
  replace hit : s.items[j]? = some it := hit
  obtain ⟨combine, init⟩ := one it (mem_of_getElem? hit) buffer
  simp only [Reduction.total, hit, combine, init]

lemma Reduction.result_at (one : OneOp s.items b op) (eids : List Nat) :
    s.result mem eids b = (eids ×ˢ itemsAt b 0 s.items).foldl
      (fun x k => op.combine x ((s.written k.1 k.2).foldl op.combine op.init)) (mem b) := by
  induction eids generalizing mem with
  | nil => rfl
  | cons e eids ih =>
    have head : s.result mem (e :: eids) = s.result (doReduce mem (s.total e) 0 s.items) eids := rfl
    rw [head, ih, doReduce_at mem _ one, product_cons, foldl_append, foldl_map]
    congr 1
    exact foldl_ext _ _ _ fun x j hj => by rw [Reduction.total_at one hj]

lemma Reduction.written_eq (hj : j ∈ itemsAt b 0 s.items) :
    s.written e j = under ((s.contributions b).map fun w => (w.key, w.value)) (e, j) := by
  unfold Reduction.written Reduction.contributions under
  rw [filter_map, filter_map, filter_filter]
  congr 2
  refine filter_congr fun w _ => ?_
  by_cases eq : w.key = (e, j)
  · have item : w.item = j := congrArg Prod.snd eq
    simp [eq, item, hj]
  · simp [eq]

lemma Reduction.Inv.parts_nodup (I : s.Inv b mem) : s.parts.Nodup := by
  unfold Reduction.parts
  split
  · exact I.nodup
  · exact I.nodup
  · exact nodup_range

lemma Reduction.Inv.whole (I : s.Inv b mem) (one : OneOp s.items b op)
    (parts : s.pending.Perm s.parts) (post : s.post = some []) : s.Whole b op mem := by
  have gathered := I.gathered
  rw [post] at gathered
  obtain ⟨enter, prepare, todo, queued, -, -⟩ := gathered
  have once : s.ran.Perm s.parts := by
    unfold Reduction.pending at parts
    rwa [todo, queued, enter] at parts
  refine ⟨once, I.fresh, ?_⟩
  let log := (s.contributions b).map fun w => (w.key, w.value)
  have inside : ∀ p ∈ log, p.1 ∈ s.folds ×ˢ itemsAt b 0 s.items := by
    intro p hp
    obtain ⟨w, hw, rfl⟩ := mem_map.1 hp
    obtain ⟨hw, item⟩ := mem_filter.1 hw
    exact pair_mem_product.2 ⟨(I.fresh w hw).1.1, of_decide_eq_true item⟩
  have bodies : ∀ p ∈ (s.contributions b).map fun w => (w.body, w.value), p.1 ∈ s.parts := by
    intro p hp
    obtain ⟨w, hw, rfl⟩ := mem_map.1 hp
    exact once.mem_iff.1 (I.fresh w (mem_filter.1 hw).1).2
  have nodup : (s.folds ×ˢ itemsAt b 0 s.items).Nodup := I.nodup.product itemsAt_nodup
  -- gathered by executor and item, as the code does, and by body
  calc s.mem b = s.result mem s.folds b := I.kept.result post
    _ = (s.folds ×ˢ itemsAt b 0 s.items).foldl
        (fun x k => op.combine x ((under log k).foldl op.combine op.init)) (mem b) := by
      rw [Reduction.result_at one]
      refine foldl_ext _ _ _ fun x k hk => ?_
      rw [Reduction.written_eq (pair_mem_product.1 hk).2]
    _ = ((s.contributions b).map RdWrite.value).foldl op.combine (mem b) := by
      rw [gather_eq (fun x => RdOp.combine_init) nodup inside, map_map]
      rfl
    _ = (s.parts.flatMap (s.partValues b)).foldl op.combine (mem b) := by
      have perm := flatMap_under_perm I.parts_nodup bodies
      rw [map_map] at perm
      exact (perm.foldl_eq _).symm

end Run

instance (items : List RdItem) (b : Nat) (inner : List RdItem) : Decidable (SparesItems items b inner) :=
  inferInstanceAs (Decidable (_ ∧ _))

instance (b : Nat) (s : Reduction) : ∀ a, Decidable (Spares b s a)
  | .call _ items | .region items => inferInstanceAs (Decidable (SparesItems s.items b items))
  | .inline => inferInstanceAs (Decidable (s.geid ∈ s.pf.selected))
  | .take i eid =>
    inferInstanceAs (Decidable (∀ t ∈ s.queued[i]?, t.executorId = eid ∨ eid ∈ s.pf.selected))
  | .enter _ | .prepare | .queue | .write _ _ _ | .ret _ | .ready _ | .join _ | .quit _ | .gather _
  | .leave _ | .post _ | .fold => isTrue trivial

section Regions
variable {n : Nat} {steals : Bool} {env : Env} {E : Egroups} {P : Slots} {desc : PfDesc}
  {func : Option Nat} {args : Nat} {items : List RdItem} {priv : Nat → Private}
  {mem : Nat → BitVec 32} {g : EgroupInfo} {k : Int} {s : Reduction} {b : Nat}

lemma reduction_inv (hb : Built n E) (hr : (intReduce desc func args items).resolve env E = some (g, k))
    (leads : Leads env g k (intReduce desc func args items))
    (h : (reduction steals env E P desc func args items priv mem).Reach (Spares b) s) :
    s.Inv b mem ∧ s.pending.Perm s.parts ∧ s.items = items ∧ ∃ s₀, beginReduction env items priv mem
        (beginRegion env E P (intReduce desc func args items)) = some s₀ ∧ s.parts = s₀.parts := by
  induction h with
  | init hi =>
    obtain ⟨I, parts⟩ := beginReduction_inv hb hr leads hi
    refine ⟨I, parts, ?_, _, hi, rfl⟩
    simp only [reduction] at hi
    generalize beginRegion env E P (intReduce desc func args items) = r at hi
    obtain ⟨P', start⟩ := r
    cases start with
    | error | omp => cases hi
    | quick | team =>
      cases hi
      rfl
    | task =>
      simp only [beginReduction] at hi
      split at hi
      · cases hi
      · cases hi
        rfl
  | step _ hg hs ih =>
    obtain ⟨I, parts, eq, s₀, h₀, same⟩ := ih
    obtain ⟨-, is, -, -⟩ := reductionStep_fixed hs
    have kept := reductionStep_parts hs
    refine ⟨I.step hg hs, ?_, is.trans eq, s₀, h₀, kept.trans same⟩
    rw [kept]
    exact (reductionStep_pending hs).trans parts

end Regions

section Clobbered

/-- A reduce region on two executors of a group of four, with chunks handed out statically. -/
def staticSum (items : List RdItem) : Machine Reduction RdLabel :=
  reduction false fourEnv (fourGroup [0, 1]) (fun _ _ => .zero) { lineDesc 4 with policy := .static }
    (some 1) 0 items (fun _ => ⟨0, fun _ => ⟨.add, 0⟩, fun _ => 0⟩) fun _ => 0

def staticSumRun (g : Reduction → RdLabel → Prop) [∀ s a, Decidable (g s a)] (items : List RdItem)
    (w : List RdLabel) : Option Reduction :=
  (beginReduction fourEnv items (fun _ => ⟨0, fun _ => ⟨.add, 0⟩, fun _ => 0⟩) (fun _ => 0)
    (beginRegion fourEnv (fourGroup [0, 1]) (fun _ _ => .zero)
      (intReduce { lineDesc 4 with policy := .static } (some 1) 0 items))).bind
    fun s => (staticSum items).run g s w

/-- Between its body's writes executor `0` makes a reduce call with one item. -/
def nestedRun : List RdLabel :=
  [.enter 0, .enter 1, .write 0 0 5, .write 0 1 5, .call 0 [⟨.add, 9⟩], .write 0 0 7, .ret 0,
    .write 1 0 6, .write 1 1 6, .leave 0, .leave 1, .post 0, .fold, .fold]

end Clobbered

section Assigned
variable {n : Nat} {steals steals' : Bool} {env : Env} {E : Egroups} {P : Slots} {desc : PfDesc}
  {func : Option Nat} {args : Nat} {items : List RdItem} {priv : Nat → Private}
  {mem : Nat → BitVec 32} {g : EgroupInfo} {k : Int} {s s' : Reduction} {b : Nat} {op : RdOp}

/-- A reduce region of two chunk tasks on two executors of a group of four, and its runs. -/
def taskSumRun (executors : List Int) (g : Reduction → RdLabel → Prop) [∀ s a, Decidable (g s a)]
    (w : List RdLabel) : Option Reduction :=
  (beginReduction fourEnv [⟨.add, 0⟩] (fun _ => ⟨1, fun _ => ⟨.add, 0⟩, fun _ => 0⟩) (fun _ => 0)
    (beginRegion fourEnv (fourGroup executors) (fun _ _ => .zero)
      (intReduce (lineDesc 2) (some 1) 0 [⟨.add, 0⟩]))).bind
    fun s => (reduction false fourEnv (fourGroup executors) (fun _ _ => .zero) (lineDesc 2) (some 1) 0
      [⟨.add, 0⟩] (fun _ => ⟨1, fun _ => ⟨.add, 0⟩, fun _ => 0⟩) fun _ => 0).run g s w

/-- Both tasks are run by the executors they are bound to. -/
def boundRun (e e' : Nat) : List RdLabel :=
  [.prepare, .prepare, .queue, .queue, .take 0 e, .write e 0 5, .leave e, .take 0 e', .write e' 0 6,
    .leave e', .post 0, .fold, .fold]

def inlineRun (e : Nat) : List RdLabel :=
  [.prepare, .prepare, .inline, .write 0 0 5, .leave 0, .queue, .take 0 e, .write e 0 6, .leave e,
    .post 0, .fold, .fold]

end Assigned

end Kupl.Loop
