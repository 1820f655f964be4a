import Kupl.Range.Bounds
import Kupl.Taskloop.Boxes
import Kupl.Taskloop.Ids

/-!
# What the tasks of a loop hold

When the tasks that `kupl_graph_add_taskloop` of `src/mt/kupl_graph.cpp` creates hold each point of the
range once (`graphAddTaskloop_exact`).

The blocks are counted and cut by the blocksize alone. A step that does not divide it leaves the iterates
behind the first block off the ones of the range (`graphAddTaskloop_astray`), and the length of a dimension
that goes down counts as negative: mostly there is no task then (`kupl_calc_chunk_info`, which counts for
`kupl_parallel_for`, counts by `step * blocksize` and asks for its sign).
-/

namespace Kupl.Taskloop
open Range Kupl.Group Word Kupl.Cut List Option

lemma mapM_eq_some {α β : Type*} {f : α → Option β} {l : List α} {l' : List β} :
    l.mapM f = some l' ↔ l.map f = l'.map some := by
  induction l generalizing l' with
  | nil => cases l' <;> simp
  | cons a l ih =>
    cases l' with
    | nil => cases h : f a <;> cases h' : l.mapM f <;> simp [mapM_cons, h, h']
    | cons b l' =>
      rw [map_cons, map_cons, cons_eq_cons, ← ih]
      cases h : f a <;> cases h' : l.mapM f <;> simp [mapM_cons, h, h']

lemma mapM_isSome {α β : Type*} {f : α → Option β} {l : List α} :
    (l.mapM f).isSome ↔ ∀ a ∈ l, (f a).isSome := by
  induction l with
  | nil => simp
  | cons a l ih =>
    rw [forall_mem_cons, ← ih]
    cases h : f a <;> cases h' : l.mapM f <;> simp [mapM_cons, h, h']

lemma tdiv_tdiv (a : Nat) (b c : Int) : ((a : Int).tdiv b).tdiv c = (a : Int).tdiv (b * c) := by
  have nat : ∀ m n : Nat, ((a : Int).tdiv m).tdiv n = (a : Int).tdiv (m * n) := by
    intro m n
    rw [← Int.ofNat_tdiv, ← Int.ofNat_tdiv, ← Nat.cast_mul, ← Int.ofNat_tdiv, Nat.div_div_eq_div_mul]
  obtain ⟨m, rfl | rfl⟩ := b.eq_nat_or_neg <;> obtain ⟨n, rfl | rfl⟩ := c.eq_nat_or_neg <;>
    simp only [Int.tdiv_neg, Int.neg_tdiv, neg_mul, mul_neg, neg_neg, nat]

section Count
variable {r : NdRange} {d : KuplRange} {c : Int} {n : Nat}

lemma blockCount64_eq (ok : DimOk .task d c) (roomy : d.Roomy) : blockCount64 d = some d.loopBlocks := by
  have hb := ok.blocksize
  have dir := ok.roomy_dir roomy
  rw [int64Max_eq] at dir
  have small : d.blocksize ≤ |c| := by
    rw [ok.chunksize, abs_mul, abs_of_pos (by omega : 0 < d.blocksize)]
    exact le_mul_of_one_le_left (by omega) (Int.one_le_abs ok.before.step_ne)
  have small : d.blocksize ≤ c ∨ d.blocksize ≤ -c := le_abs.1 small
  have length : Fits 64 (d.upper - d.lower) := by rw [fits64_iff]; omega
  have sum : Fits 64 (d.upper - d.lower + d.blocksize) := by rw [fits64_iff]; omega
  have last : Fits 64 (d.upper - d.lower + d.blocksize - 1) := by rw [fits64_iff]; omega
  simp only [blockCount64, sub_eq length, add_eq sum, sub_eq last, bind_eq_bind, Option.bind_some]
  exact div_eq (by omega) (last.tdiv_of_ne (.inl (by omega)))

lemma totalTasks64_eq {total : Int} (ok : RangeOk .task r) (roomy : r.Roomy) : totalTasks64 r = some total ↔
      (∀ d ≤ r.dim.toNat, Fits 64 (r.blocksBefore d)) ∧ total = r.blocksBefore r.dim.toNat := by
  have counts : ∀ d < r.dim.toNat, blockCount64 (r.ndRange d) = some (r.ndRange d).loopBlocks := by
    intro d hd
    obtain ⟨c, hc, -⟩ := ok.dims d hd
    exact blockCount64_eq hc (roomy d hd)
  simp only [totalTasks64, bind_eq_bind]
  generalize r.dim.toNat = n at *
  induction n generalizing total with
  | zero =>
    have one : Fits 64 1 := by decide
    have first : r.blocksBefore 0 = 1 := rfl
    simp [first, one, eq_comm]
  | succ n ih =>
    have ih := fun total => @ih total fun d hd => counts d (by omega)
    rw [range_succ, foldlM_append]
    simp only [foldlM_cons, foldlM_nil, counts n (by omega), bind_eq_bind,
      Option.bind_some, Option.bind_eq_some_iff, Option.some_inj, Option.pure_def, exists_eq_right, ih,
      mul_eq_some, NdRange.blocksBefore_succ]
    constructor
    · rintro ⟨t, ⟨fits, rfl⟩, fit, rfl⟩
      refine ⟨fun d hd => ?_, rfl⟩
      cases Nat.lt_succ_iff_lt_or_eq.1 (Nat.lt_succ_of_le hd) with
      | inl lt => exact fits d (by omega)
      | inr last =>
        rw [last, NdRange.blocksBefore_succ]
        exact fit
    · rintro ⟨fits, rfl⟩
      have last := fits (n + 1) le_rfl
      rw [NdRange.blocksBefore_succ] at last
      exact ⟨_, ⟨fun d hd => fits d (by omega), rfl⟩, last, rfl⟩

end Count

section Blocks
variable {info : TaskloopInfo} {range r : NdRange} {d : KuplRange} {c idx : Int} {id n : Nat}

/-- The bounds of a block stay in `int64_t`. -/
structure BlockFits (d : KuplRange) (idx : Int) : Prop where
  offset : Fits 64 (idx * d.blocksize)
  lower : Fits 64 (d.lower + idx * d.blocksize)
  upper : Fits 64 (d.lower + idx * d.blocksize + d.blocksize)

lemma block64_eq (hb : 1 ≤ d.blocksize) {r : KuplRange} :
    block64 d idx = some r ↔ BlockFits d idx ∧ r = d.cell idx := by
  simp only [block64, bind_eq_bind, Option.bind_eq_some_iff, mul_eq_some, add_eq_some, Option.some_inj]
  constructor
  · rintro ⟨_, ⟨offset, rfl⟩, _, ⟨lower, rfl⟩, _, ⟨upper, rfl⟩, rfl⟩
    refine ⟨⟨offset, lower, upper⟩, ?_⟩
    rw [KuplRange.cell, if_pos (by omega)]
  · rintro ⟨fit, rfl⟩
    refine ⟨_, ⟨fit.offset, rfl⟩, _, ⟨fit.lower, rfl⟩, _, ⟨fit.upper, rfl⟩, ?_⟩
    rw [KuplRange.cell, if_pos (by omega)]

/-- A range with the blocks of a task in its first dimensions. -/
def boxed (range : NdRange) (id n : Nat) : NdRange :=
  { range with ndRange := fun d => if d < n then (range.box id).ndRange d else range.ndRange d }

lemma boxed_succ : (boxed range id n).set n ((range.box id).ndRange n) = boxed range id (n + 1) := by
  unfold boxed NdRange.set
  congr 1
  funext d
  by_cases eq : d = n
  · subst eq
    simp
  · have lt : d < n + 1 ↔ d < n := by omega
    simp [Function.update_of_ne eq, lt]

lemma taskRange64_eq (hb : ∀ d < range.dim.toNat, 1 ≤ (range.ndRange d).blocksize) (dim : info.dim = range.dim)
    (blocks : ∀ d < range.dim.toNat, info.blocks d = (range.ndRange d).loopBlocks) :
    taskRange64 info range id = some r ↔ (∀ d < range.dim.toNat, BlockFits (range.ndRange d) (range.index id d)) ∧
        r = boxed range id range.dim.toNat := by
  have rounds : ∀ n ≤ range.dim.toNat, ∀ s,
      (List.range n).foldlM (blockRound64 info range) ((id : Int), range) = some s ↔
        (∀ d < n, BlockFits (range.ndRange d) (range.index id d)) ∧
          s = ((id : Int).tdiv (range.blocksBefore n), boxed range id n) := by
    intro n hn
    induction n with
    | zero =>
      intro s
      have first : (id : Int).tdiv (range.blocksBefore 0) = id := Int.tdiv_one _
      have none : boxed range id 0 = range := by simp [boxed]
      simp [first, none, eq_comm]
    | succ n ih =>
      intro s
      rw [range_succ, foldlM_append]
      simp only [bind_eq_bind, Option.bind_eq_some_iff, foldlM_cons, foldlM_nil,
        Option.pure_def, Option.some_inj, exists_eq_right, ih (by omega), blockRound64,
        Option.map_eq_some_iff, blocks n (by omega)]
      constructor
      · rintro ⟨_, ⟨fits, rfl⟩, b, hblk, rfl⟩
        obtain ⟨fit, rfl⟩ := (block64_eq (hb n (by omega))).1 hblk
        refine ⟨fun d hd => ?_, ?_⟩
        · cases Nat.lt_succ_iff_lt_or_eq.1 hd with
          | inl lt => exact fits d lt
          | inr last => exact last ▸ fit
        · rw [tdiv_tdiv, ← NdRange.blocksBefore_succ, ← boxed_succ]
          rfl
      · rintro ⟨fits, rfl⟩
        refine ⟨_, ⟨fun d hd => fits d (by omega), rfl⟩, (range.box id).ndRange n, ?_, ?_⟩
        · exact (block64_eq (hb n (by omega))).2 ⟨fits n (by omega), rfl⟩
        · rw [tdiv_tdiv, ← NdRange.blocksBefore_succ, boxed_succ]
  unfold taskRange64
  rw [dim, Option.map_eq_some_iff]
  constructor
  · rintro ⟨s, hs, rfl⟩
    obtain ⟨fits, rfl⟩ := (rounds _ le_rfl s).1 hs
    exact ⟨fits, rfl⟩
  · rintro ⟨fits, rfl⟩
    exact ⟨_, (rounds _ le_rfl _).2 ⟨fits, rfl⟩, rfl⟩

lemma mem_boxed {x : Nat → Int} : (boxed range id range.dim.toNat).Mem x ↔ (range.box id).Mem x := by
  refine forall_congr' fun d => imp_congr_right fun hd => ?_
  have hd : d < range.dim.toNat := Int.lt_toNat.2 hd
  simp only [boxed, if_pos hd]

lemma BlockFits.up (ok : DimOk .task d c) (hl : Fits 64 d.lower) (hu : Fits 64 d.upper) (pos : 0 < d.step)
    (nonneg : 0 ≤ idx) (lt : idx * d.blocksize < d.upper - d.lower) : BlockFits d idx := by
  have hb := ok.blocksize
  have far := (ok.far (by decide)).1
  have chunk : d.blocksize ≤ c := by
    rw [ok.chunksize]
    exact le_mul_of_one_le_left (by omega) (by omega)
  have low : 0 ≤ idx * d.blocksize := mul_nonneg nonneg (by omega)
  have dir := ok.dir
  rw [int64Max_eq] at far dir
  rw [fits64_iff] at hl hu
  refine ⟨?_, ?_, ?_⟩ <;> rw [fits64_iff] <;> omega

end Blocks

/-- The blocks of a range can be shared among the executors of a group: there are tasks, their bounds stay
in `int64_t`, and those that are created hold the range. -/
structure Fitting (g : EgroupInfo) (r : NdRange) : Prop where
  blocks : 0 < r.blocksBefore r.dim.toNat
  room : ∀ d < r.dim.toNat, (r.ndRange d).step < 0 → Fits 64 ((r.ndRange d).lower + (r.ndRange d).blocksize)
  members : 5 * (g.size : Int) ≤ r.blocksBefore r.dim.toNat → g.eidSet.card = g.size
  aligned : ∃ k, linearStart (r.blocksBefore r.dim.toNat).toNat g.size g.eidSet.card =
    place r.counts k ∧ r.Aligned k

section Tasks
variable {g : EgroupInfo} {info : TaskloopInfo} {r : NdRange} {l : List (Nat × Int)} {ids : List Nat}
  {tasks : List LoopTask} {total : Nat}

structure Numbered (info : TaskloopInfo) (r : NdRange) (l : List (Nat × Int)) (ids : List Nat) : Prop where
  perm : (l.map Prod.snd).Perm (ids.map Int.ofNat)
  blocksize : ∀ d < r.dim.toNat, 1 ≤ (r.ndRange d).blocksize
  dim : info.dim = r.dim
  blocks : ∀ d < r.dim.toNat, info.blocks d = (r.ndRange d).loopBlocks

lemma Numbered.mem (N : Numbered info r l ids) {t : Nat × Int} (ht : t ∈ l) :
    t.2.toNat ∈ ids ∧ t.2 = (t.2.toNat : Nat) := by
  obtain ⟨id, hid, eq⟩ := mem_map.1 (N.perm.subset (mem_map_of_mem ht))
  have eq : (id : Int) = t.2 := eq
  rw [← eq, Int.toNat_natCast]
  exact ⟨hid, rfl⟩

lemma Numbered.isSome (N : Numbered info r l ids) :
    (l.mapM fun t => (taskRange64 info r t.2).map (LoopTask.mk t.1)).isSome ↔
      ∀ id ∈ ids, ∀ d < r.dim.toNat, BlockFits (r.ndRange d) (r.index id d) := by
  have task : ∀ id : Nat, (taskRange64 info r id).isSome ↔
      ∀ d < r.dim.toNat, BlockFits (r.ndRange d) (r.index id d) := by
    intro id
    rw [isSome_iff_exists]
    simp only [taskRange64_eq N.blocksize N.dim N.blocks]
    exact ⟨fun ⟨_, fits, _⟩ => fits, fun fits => ⟨_, fits, rfl⟩⟩
  simp only [mapM_isSome, isSome_map]
  constructor
  · intro all id hid
    obtain ⟨t, ht, eq⟩ := mem_map.1 (N.perm.symm.subset (mem_map_of_mem hid))
    have here := all t ht
    rw [eq] at here
    exact (task id).1 here
  · intro all t ht
    obtain ⟨mem, eq⟩ := N.mem ht
    rw [eq]
    exact (task _).2 (all _ mem)

lemma Numbered.exact_iff (N : Numbered info r l ids) (nodup : ids.Nodup)
    (run : (l.mapM fun t => (taskRange64 info r t.2).map (LoopTask.mk t.1)) = some tasks) :
    (Outcome.created tasks).Exact r ↔ r.Tiled (· ∈ ids) := by
  rw [mapM_eq_some] at run
  have count : ∀ x : Nat → Int, tasks.countP (fun t => decide (t.range.Mem x)) =
      ids.countP fun id => decide ((r.box id).Mem x) := by
    intro x
    let held : Option LoopTask → Bool := fun o => o.elim false fun t => decide (t.range.Mem x)
    calc tasks.countP (fun t => decide (t.range.Mem x))
        = (tasks.map some).countP held := by rw [countP_map]; rfl
      _ = l.countP (fun t => held ((taskRange64 info r t.2).map (LoopTask.mk t.1))) := by
          rw [← run, countP_map]; rfl
      _ = l.countP (fun t => decide ((r.box t.2.toNat).Mem x)) := by
          apply countP_congr
          intro t ht
          have here := mem_map_of_mem (f := fun t : Nat × Int =>
            (taskRange64 info r t.2).map (LoopTask.mk t.1)) ht
          rw [run] at here
          obtain ⟨u, -, hu⟩ := mem_map.1 here
          obtain ⟨b, hb, rfl⟩ := Option.map_eq_some_iff.1 hu.symm
          obtain ⟨-, eq⟩ := N.mem ht
          rw [hb]
          rw [eq, taskRange64_eq N.blocksize N.dim N.blocks] at hb
          rw [hb.2]
          show decide ((boxed r _ _).Mem x) = true ↔ _
          simp only [mem_boxed]
      _ = (l.map Prod.snd).countP (fun i => decide ((r.box i.toNat).Mem x)) := by
          rw [countP_map]; rfl
      _ = (ids.map Int.ofNat).countP (fun i => decide ((r.box i.toNat).Mem x)) := N.perm.countP_eq _
      _ = ids.countP fun id => decide ((r.box id).Mem x) := by rw [countP_map]; rfl
  simp only [Outcome.Exact, count, countP_unique_iff nodup]
  constructor
  · intro all
    refine ⟨fun x mem => ((all x).1 mem).exists, fun x i j hi hj memi memj => ?_, fun x id => (all x).2 id⟩
    exact ((all x).1 ((all x).2 i hi memi)).unique ⟨hi, memi⟩ ⟨hj, memj⟩
  · intro T x
    refine ⟨fun mem => ?_, T.inside x⟩
    obtain ⟨id, hid, held⟩ := T.held x mem
    exact ⟨id, ⟨hid, held⟩, fun j hj => T.once x j id hj.1 hid hj.2 held⟩

lemma blockFits_of_aligned {k id : Nat} (ok : RangeOk .task r) (A : r.Aligned k)
    (room : ∀ d < r.dim.toNat, (r.ndRange d).step < 0 → Fits 64 ((r.ndRange d).lower + (r.ndRange d).blocksize))
    (counts : ∀ d < r.dim.toNat, 0 < r.counts d) (few : id < place r.counts k) :
    ∀ d < r.dim.toNat, BlockFits (r.ndRange d) (r.index id d) := by
  intro d hd
  obtain ⟨c, hc, -⟩ := ok.dims d hd
  have lower := ok.lower d hd
  have first : BlockFits (r.ndRange d) 0 := by
    rcases hc.before with ⟨pos, lt⟩ | ⟨neg, -⟩
    · exact .up hc lower (ok.upper d hd) pos le_rfl (by omega)
    · refine ⟨?_, ?_, ?_⟩ <;> rw [zero_mul]
      · decide
      · rwa [add_zero]
      · rw [add_zero]
        exact room d hd neg
  have zero : r.index id d = 0 → BlockFits (r.ndRange d) (r.index id d) := fun eq => eq ▸ first
  cases Nat.lt_or_ge d k with
  | inl early =>
    rcases A.cut d early with one | ⟨pos, blocks, -⟩
    · exact zero (NdRange.index_zero (by rw [one, Nat.mod_one]))
    · have digit := Nat.mod_lt (id / place r.counts d) (counts d hd)
      have index : r.index id d = _ := NdRange.index_of_pos blocks
      obtain ⟨-, lt⟩ | ⟨neg, -⟩ := hc.before
      · have up : 0 < (r.ndRange d).loopBlocks :=
          (KuplRange.lt_loopBlocks hc.blocksize lt).2 (by omega)
        refine .up hc lower (ok.upper d hd) pos (by omega) ?_
        apply (KuplRange.lt_loopBlocks hc.blocksize lt).1
        unfold NdRange.counts at digit index
        omega
      · omega
  | inr late =>
    apply zero
    apply NdRange.index_zero
    have last := @digit_eq_zero r.counts id k d (fun e he => counts e (by omega)) few late
    rw [last, Nat.zero_mod]

lemma tasks_exact_iff (ok : RangeOk .task r) (sound : r.Sound) (I : g.Ok) (ne : g.size ≠ 0)
    (hinfo : info = taskloopInfo r g.size (r.blocksBefore r.dim.toNat))
    (blocks : ∀ d < r.dim.toNat, info.blocks d = (r.ndRange d).loopBlocks) :
    (match (taskloopTasks g info).mapM fun t : Nat × Int =>
        (taskRange64 info r t.2).map (LoopTask.mk t.1) with
      | none => Outcome.undefined
      | some tasks => .created tasks).Exact r ↔ Fitting g r := by
  have pos : 0 < g.size := Nat.pos_of_ne_zero ne
  cases lt_or_ge 0 (r.blocksBefore r.dim.toNat) with
  | inr nonpos =>
    rw [hinfo, taskloopTasks_nil pos nonpos]
    refine ⟨fun all => ?_, fun fit => absurd fit.blocks (not_lt_of_ge nonpos)⟩
    have held := all fun d => (r.ndRange d).lower
    rw [if_pos sound.mem_lower] at held
    cases held
  | inl positive =>
    obtain ⟨total, htotal⟩ := Int.eq_ofNat_of_zero_le positive.le
    have hplace : place r.counts r.dim.toNat = total := by
      rw [← NdRange.natAbs_blocksBefore, htotal, Int.natAbs_natCast]
    have S : Shares info total g.size := by
      rw [hinfo, htotal]
      exact taskloopInfo_shares pos
    have counts : ∀ d < r.dim.toNat, 0 < r.counts d :=
      fun d hd => NdRange.counts_pos (by omega : 0 < _) hd
    have le : g.eidSet.card ≤ g.size := I.card_le
    have start := @linearStart_le total g.size g.eidSet.card le
    obtain ⟨l, hl⟩ : ∃ l, l = taskloopTasks g info := ⟨_, rfl⟩
    have N : Numbered info r l (taskNumbers total g.size g.eidSet.card) :=
      ⟨hl ▸ taskloopTasks_ids S I rfl, sound.blocksize, by rw [hinfo]; rfl, blocks⟩
    have few : linearStart total g.size g.eidSet.card ≤ place r.counts r.dim.toNat := by omega
    have tiled := NdRange.tiled_iff sound few (by omega)
    simp only [← mem_range] at tiled
    rw [← hl]
    constructor
    · intro all
      cases run : l.mapM fun t => (taskRange64 info r t.2).map (LoopTask.mk t.1) with
      | none =>
        rw [run] at all
        exact all.elim
      | some tasks =>
        rw [run] at all
        have T := (N.exact_iff taskNumbers_nodup run).1 all
        have zero := T.zero sound fun id hid => hplace ▸ taskNumbers_lt le hid
        have members := taskNumbers_members pos le zero
        rw [taskNumbers_eq members, tiled] at T
        refine ⟨positive, fun d hd _ => ?_, fun many => members (by omega), ?_⟩
        · have fits := N.isSome.1 (by rw [run]; rfl) 0 zero d hd
          rw [NdRange.index_zero (by simp)] at fits
          simpa using fits.upper
        · rw [htotal, Int.toNat_natCast]
          exact T
    · intro fit
      have members : g.size * 5 ≤ total → g.eidSet.card = g.size := by
        intro many
        apply fit.members
        omega
      obtain ⟨k, eq, A⟩ := fit.aligned
      rw [htotal, Int.toNat_natCast] at eq
      have defined := N.isSome.2 fun id hid => by
        rw [taskNumbers_eq members, mem_range, eq] at hid
        exact blockFits_of_aligned ok A fit.room counts hid
      obtain ⟨tasks, run⟩ := isSome_iff_exists.1 defined
      rw [run]
      apply (N.exact_iff taskNumbers_nodup run).2
      rw [taskNumbers_eq members, tiled]
      exact ⟨k, eq, A⟩

end Tasks

/-- A call whose graph, description and group are in order. -/
structure Called (E : Egroups) (graph : Bool) (desc : TaskloopDesc) (g : EgroupInfo) : Prop where
  graph : graph = true
  fieldMask : desc.fieldMask = fieldDefault
  func : desc.func ≠ none
  egroup : ∃ egroup, desc.egroup = some egroup ∧ (E egroup).cur = g
  size : Loop.curSize g ≠ 0

section Call
variable {n : Nat} {E : Egroups} {managed graph : Bool} {desc : TaskloopDesc} {g : EgroupInfo} {range r : NdRange}

lemma taskloopCheck_called (input : desc.range = some range) (call : Called E graph desc g) :
    taskloopCheck E graph desc = (checkRange64 range .task).map fun range => range.map fun range => (range, g) := by
  obtain ⟨egroup, hg, rfl⟩ := call.egroup
  obtain ⟨func, hf⟩ := ne_none_iff_exists'.1 call.func
  simp only [taskloopCheck, input, hg, hf]
  apply if_neg
  simp [call.graph, call.fieldMask, call.size]

lemma taskloopCheck_error (none : ∀ g, ¬Called E graph desc g) : taskloopCheck E graph desc = some Option.none := by
  unfold taskloopCheck
  split
  · rename_i func egroup range hf hg hr
    apply if_pos
    rw [← not_not (a := _ ∨ _)]
    intro fine
    simp only [not_or, Bool.not_eq_false, ne_eq, not_not] at fine
    exact none _ ⟨fine.1, fine.2.1, by simp [hf], ⟨egroup, hg, rfl⟩, fine.2.2⟩
  · rfl

lemma checkRange_mem (accepted : checkRange range .task = some r) {x : Nat → Int} : r.Mem x ↔ range.Mem x := by
  obtain ⟨-, -, dim, all⟩ := checkRange_spec accepted
  unfold NdRange.Mem
  rw [dim]
  refine forall_congr' fun d => imp_congr_right fun hd => ?_
  obtain ⟨c, hc⟩ := all d (by omega)
  obtain ⟨lower, upper, step⟩ := checkDim_bounds hc
  simp only [KuplRange.Mem, KuplRange.Before, lower, upper, step]

/-- The call fails, or creates tasks that hold each point of an accepted range once, if and only if its
computations stay in `int64_t` and, on a thread with an executor, the range fits the group. -/
theorem graphAddTaskloop_exact (built : Built n E) (input : desc.range = some range)
    (typed : ∀ d < range.dim.toNat, (range.ndRange d).Typed) (accepted : checkRange range .task = some r) :
    (graphAddTaskloop E managed graph desc).Exact range ↔ ∀ g, Called E graph desc g →
      r.Roomy ∧ (∀ d ≤ r.dim.toNat, Fits 64 (r.blocksBefore d)) ∧ (managed = true → Fitting g r) := by
  have same : ∀ o : Outcome, o.Exact range ↔ o.Exact r := by
    intro o
    cases o with
    | error | undefined => rfl
    | created tasks => simp only [Outcome.Exact, checkRange_mem accepted]
  rw [same]
  by_cases call : ∃ g, Called E graph desc g
  · obtain ⟨g, call⟩ := call
    have only : ∀ g', Called E graph desc g' → g' = g := by
      intro g' call'
      obtain ⟨h, hg, rfl⟩ := call.egroup
      obtain ⟨h', hg', rfl⟩ := call'.egroup
      rw [Option.some.inj (hg.symm.trans hg')]
    have unique : (∀ g, Called E graph desc g → r.Roomy ∧
        (∀ d ≤ r.dim.toNat, Fits 64 (r.blocksBefore d)) ∧ (managed = true → Fitting g r)) ↔
        r.Roomy ∧ (∀ d ≤ r.dim.toNat, Fits 64 (r.blocksBefore d)) ∧ (managed = true → Fitting g r) :=
      ⟨fun all => all g call, fun fit g' call' => only g' call' ▸ fit⟩
    rw [unique]
    have ok := checkRange_ok accepted typed
    have sound := checkRange_sound accepted
    obtain ⟨egroup, -, hcur⟩ := call.egroup
    have I : g.Ok := hcur ▸ (built.ok egroup).1
    have size := curSize_eq call.size
    have ne : g.size ≠ 0 := size ▸ call.size
    unfold graphAddTaskloop
    rw [taskloopCheck_called input call, (checkRange64_eq accepted typed).2.2]
    by_cases roomy : r.Roomy
    · have roomy' : ∀ d < r.dim.toNat, (r.ndRange d).Roomy := roomy
      rw [if_pos roomy']
      simp only [map_some, size]
      have blocks := fun total => @totalTasks64_eq r total ok roomy
      by_cases fits : ∀ d ≤ r.dim.toNat, Fits 64 (r.blocksBefore d)
      · rw [(blocks _).2 ⟨fits, rfl⟩]
        rw [and_iff_right roomy, and_iff_right fits]
        cases managed with
        | false => simp [Outcome.Exact]
        | true =>
          simp only [Bool.true_eq_false, if_false, true_imp_iff]
          refine tasks_exact_iff ok sound I ne rfl fun d hd => ?_
          obtain ⟨c, hc, -⟩ := ok.dims d hd
          simp only [taskloopInfo, blockCount64_eq hc (roomy d hd), getD_some]
      · cases count : totalTasks64 r with
        | none =>
          refine ⟨False.elim, fun fit => fits fit.2.1⟩
        | some total => exact absurd ((blocks total).1 count).1 fits
    · have roomy' : ¬∀ d < r.dim.toNat, (r.ndRange d).Roomy := roomy
      rw [if_neg roomy']
      exact ⟨False.elim, fun fit => roomy fit.1⟩
  · unfold graphAddTaskloop
    rw [taskloopCheck_error (not_exists.1 call)]
    exact ⟨fun _ g here => absurd ⟨g, here⟩ call, fun _ => trivial⟩

/-- Blocks of one step each, shared among two executors. -/
theorem graphAddTaskloop_exact_even : ∃ E, Built 2 E ∧
    (graphAddTaskloop E true true ⟨3, some 0, 0, some ⟨1, fun _ => ⟨0, 4, 2, 2⟩⟩, some 0⟩).Exact
      ⟨1, fun _ => ⟨0, 4, 2, 2⟩⟩ := by
  have built : Built 2 _ := .create 0 .none (rfl : egroupCreate 2 [0, 1] = some _)
  have typed : (⟨0, 4, 2, 2⟩ : KuplRange).Typed := ⟨by decide, by decide, by decide, by decide⟩
  refine ⟨_, built, (graphAddTaskloop_exact built rfl (fun _ _ => typed) rfl).2 fun g call => ?_⟩
  obtain ⟨h, hg, rfl⟩ := call.egroup
  cases hg
  refine ⟨fun d hd => ?_, by decide, fun _ => ⟨by decide, by decide, by decide, 1, by decide, ?_⟩⟩
  · have first : d < 1 := hd
    obtain rfl : d = 0 := by omega
    decide
  · refine ⟨by decide, by decide, fun d hd late => ?_⟩
    have first : d < 1 := hd
    omega

/-- A step of `2` in blocks of `1`: the second of three tasks is a point between the iterates. And a range
that goes down has no task. -/
theorem graphAddTaskloop_astray : ∃ E, Built 1 E ∧ (checkRange ⟨1, fun _ => ⟨0, 3, 2, 1⟩⟩ .task).isSome ∧
    ¬(graphAddTaskloop E true true ⟨3, some 0, 0, some ⟨1, fun _ => ⟨0, 3, 2, 1⟩⟩, some 0⟩).Exact
      ⟨1, fun _ => ⟨0, 3, 2, 1⟩⟩ ∧
    (checkRange ⟨1, fun _ => ⟨4, 0, -1, 1⟩⟩ .task).isSome ∧
    ¬(graphAddTaskloop E true true ⟨3, some 0, 0, some ⟨1, fun _ => ⟨4, 0, -1, 1⟩⟩, some 0⟩).Exact
      ⟨1, fun _ => ⟨4, 0, -1, 1⟩⟩ := by
  have built : Built 1 _ := .create 0 .none (rfl : egroupCreate 1 [0] = some _)
  refine ⟨_, built, by decide, fun all => ?_, by decide, fun all => ?_⟩
  · exact absurd (all fun _ => 1) (by decide)
  · exact absurd (all fun _ => 4) (by decide)

end Call
end Kupl.Taskloop
