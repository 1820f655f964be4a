import Kupl.Range.Divide

/-!
# When the boxes of the threads partition the range

`divide_range` of `mt/kupl_parallel_for.cpp`, read as a tree of cuts: `divideTree` follows both
halves of every cut, and its leaves are the boxes `ndStaticRange` hands to the threads
(`divideRange_box`). Every cut point is an iterate of the whole range counted from its `lower`
(`Aligned`), so a cut loses no point and separates its halves (`divideTree_separating`); the halves
stay inside of the box exactly as `CutsInside` says (`divideTree_nested_iff`).
-/

namespace Kupl.Range
open Kupl.Cut List

lemma KuplRange.Before.trans {r : KuplRange} {a b c} (h1 : r.Before a b) (h2 : r.Before b c) : r.Before a c := by
  unfold KuplRange.Before at *; omega

section Cut
variable {r : KuplRange} {c : Int} (ne : r.step ≠ 0)

lemma KuplRange.Mem.cut {x} (h : r.Mem x) (ne : r.step ≠ 0) :
    ({ r with upper := r.lower + c * r.step } : KuplRange).Mem x ∨
      ({ r with lower := r.lower + c * r.step } : KuplRange).Mem x := by
  obtain ⟨k, rfl, bef⟩ := h
  rcases lt_or_ge (k : Int) c with lt | ge
  · exact .inl ⟨k, rfl, (KuplRange.before_iff ne _ _ _).mpr lt⟩
  · refine .inr ⟨(k - c).toNat, ?_, bef⟩
    rw [Int.toNat_of_nonneg (by omega)]
    ring

include ne

lemma KuplRange.cut_disjoint {x} (h1 : ({ r with upper := r.lower + c * r.step } : KuplRange).Mem x)
    (h2 : ({ r with lower := r.lower + c * r.step } : KuplRange).Mem x) : False := by
  obtain ⟨k, rfl, bef⟩ := h1
  obtain ⟨j, e, _⟩ := h2
  have lt : (k : Int) < c := (KuplRange.before_iff ne _ _ _).mp bef
  have e : ((k : Int) - c - j) * r.step = 0 := by simp only at e; linarith
  have := (Int.mul_eq_zero.mp e).resolve_right ne
  omega

lemma KuplRange.CutInside.left {x} (h : r.CutInside (r.lower + c * r.step))
    (hx : ({ r with upper := r.lower + c * r.step } : KuplRange).Mem x) : r.Mem x := by
  obtain ⟨k, rfl, bef⟩ := hx
  have lt : (k : Int) < c := (KuplRange.before_iff ne _ _ _).mp bef
  have low : r.Before r.lower (r.lower + c * r.step) := by
    simpa using (KuplRange.before_iff ne r.lower 0 c).mpr (by omega)
  have last := h.1 low
  refine ⟨k, rfl, ?_⟩
  have e : r.lower + c * r.step - r.step = r.lower + (c - 1) * r.step := by ring
  rw [e] at last
  rcases lt_or_eq_of_le (show (k : Int) ≤ c - 1 by omega) with lt | eq
  · exact ((KuplRange.before_iff ne _ _ _).mpr lt).trans last
  · simpa only [eq] using last

lemma KuplRange.CutInside.right {x} (h : r.CutInside (r.lower + c * r.step))
    (hx : ({ r with lower := r.lower + c * r.step } : KuplRange).Mem x) : r.Mem x := by
  obtain ⟨k, rfl, bef⟩ := hx
  change r.Before (r.lower + c * r.step + k * r.step) r.upper at bef
  change r.Mem (r.lower + c * r.step + k * r.step)
  have pos : 0 ≤ c + k := by
    by_contra neg
    -- the cut would come before `lower`, so nothing is left behind it
    have low : r.Before (r.lower + c * r.step) r.lower := by
      simpa using (KuplRange.before_iff ne r.lower c 0).mpr (by omega)
    apply h.2 low
    rcases Nat.eq_zero_or_pos k with rfl | hk
    · simpa using bef
    · have := (KuplRange.before_iff ne (r.lower + c * r.step) 0 k).mpr (by omega)
      exact KuplRange.Before.trans (by simpa using this) bef
  refine ⟨(c + k).toNat, ?_, bef⟩
  rw [Int.toNat_of_nonneg pos]
  ring

lemma KuplRange.last_mem (h : r.Before r.lower (r.lower + c * r.step)) :
    ({ r with upper := r.lower + c * r.step } : KuplRange).Mem (r.lower + (c - 1) * r.step) := by
  have lt : 0 < c := (KuplRange.before_iff ne r.lower 0 c).mp (by simpa using h)
  refine ⟨(c - 1).toNat, ?_, ?_⟩
  · rw [Int.toNat_of_nonneg (by omega)]
  · exact (KuplRange.before_iff ne r.lower (c - 1) c).mpr (by omega)

lemma KuplRange.cutInside_of_subset (hl : ∀ x, ({ r with upper := r.lower + c * r.step } : KuplRange).Mem x →
    r.Mem x)
    (hr : ∀ x, ({ r with lower := r.lower + c * r.step } : KuplRange).Mem x → r.Mem x) :
    r.CutInside (r.lower + c * r.step) := by
  constructor
  · intro low
    obtain ⟨k, _, bef⟩ := hl _ (KuplRange.last_mem ne low)
    have e : r.lower + c * r.step - r.step = r.lower + (c - 1) * r.step := by ring
    rwa [e]
  · intro low upp
    obtain ⟨k, e, _⟩ := hr (r.lower + c * r.step) ⟨0, by simp, upp⟩
    rw [e] at low
    have := (KuplRange.before_iff ne r.lower k 0).mp (by simpa using low)
    omega

end Cut

lemma KuplRange.exists_mem {r : KuplRange} : (∃ x, r.Mem x) ↔ r.Before r.lower r.upper := by
  constructor
  · rintro ⟨_, k, rfl, bef⟩
    unfold KuplRange.Before at *
    rcases bef with ⟨pos, lt⟩ | ⟨neg, lt⟩
    · have : 0 ≤ (k : Int) * r.step := Int.mul_nonneg (by omega) (by omega)
      omega
    · have : (k : Int) * r.step ≤ 0 := Int.mul_nonpos_of_nonneg_of_nonpos (by omega) (by omega)
      omega
  · intro h
    exact ⟨r.lower, 0, by simp, h⟩

lemma NdRange.mem_set {range : NdRange} {d : Nat} {r x} (hd : d < range.dim) : (range.set d r).Mem x ↔
      r.Mem (x d) ∧ ∀ e : Nat, e < range.dim → e ≠ d → (range.ndRange e).Mem (x e) := by
  constructor
  · intro h
    refine ⟨by simpa using h d hd, fun e he ne => ?_⟩
    have := h e he
    rwa [NdRange.set_other ne] at this
  · rintro ⟨hx, hy⟩ e he
    by_cases ne : e = d
    · subst ne; simpa using hx
    · rw [NdRange.set_other ne]; exact hy e he ne

lemma getMaxRangeDim_lt {range : NdRange} (h : 1 ≤ range.dim) : (getMaxRangeDim range : Int) < range.dim := by
  suffices H : ∀ l : List Nat, (∀ i ∈ l, (i : Int) < range.dim) →
    ∀ s : Int × Nat, (s.2 : Int) < range.dim →
      ((l.foldl (fun (s : Int × Nat) i =>
        let r := range.ndRange i
        let currentChunks := divup (r.upper - r.lower) r.step
        if currentChunks > s.1 then (currentChunks, i) else s) s).2 : Int) < range.dim by
    refine H _ (fun i hi => ?_) (0, 0) (show (0 : Int) < range.dim by omega)
    rw [mem_range] at hi
    omega
  intro l
  induction l with
  | nil => exact fun _ s hs => hs
  | cons i l ih =>
    intro hl s hs
    rw [foldl_cons]
    apply ih (fun j hj => hl j (mem_cons_of_mem _ hj))
    dsimp only
    split
    · exact hl i mem_cons_self
    · exact hs

/-- A box of the division: its dimensions step as those of the range do, from one of its iterates. -/
structure Aligned (pf : PfRange) (range : NdRange) : Prop where
  dim : range.dim = pf.range.dim
  step : ∀ d : Nat, d < range.dim → (range.ndRange d).step = (pf.range.ndRange d).step
  lower : ∀ d : Nat, d < range.dim → ∃ a : Int,
    (range.ndRange d).lower = (pf.range.ndRange d).lower + a * (pf.range.ndRange d).step

/-- The slot of a region whose range passed the check under `KUPL_LOOP_POLICY_STATIC`. -/
structure StaticPf (pf : PfRange) : Prop where
  dim : 1 ≤ pf.range.dim
  step : ∀ d : Nat, d < pf.range.dim → (pf.range.ndRange d).step ≠ 0
  chunksize : ∀ d : Nat, d < pf.range.dim → (pf.chunkInfo d).chunksize = (pf.range.ndRange d).step

lemma StaticPf.of_check {range r} (h : checkRange range .static = some r) : StaticPf (calcChunkInfo r) := by
  obtain ⟨h1, _, _, all⟩ := checkRange_spec h
  refine ⟨h1, fun d hd => ?_, fun d hd => ?_⟩
  · have := checkRange_before h hd
    unfold KuplRange.Before at this
    simp only [calcChunkInfo]; omega
  · obtain ⟨c, hc⟩ := all d hd
    simp [calcChunkInfo, calcChunk, checkDim_static hc]

section Node
variable {pf : PfRange} {range : NdRange} (sp : StaticPf pf) (al : Aligned pf range)
include sp al
variable {d : Nat}

section
variable (hd : d < range.dim)
include hd

lemma divideMid_eq (n : Nat) : ∃ c : Int, divideMid pf d n =
    (range.ndRange d).lower + c * (range.ndRange d).step := by
  obtain ⟨a, ha⟩ := al.lower d hd
  have hd' : (d : Int) < pf.range.dim := al.dim ▸ hd
  refine ⟨leftChunks pf d n - a, ?_⟩
  rw [divideMid, sp.chunksize d hd', ha, al.step d hd]
  ring

lemma Aligned.step_ne : (range.ndRange d).step ≠ 0 := by
  rw [al.step d hd]
  exact sp.step d (al.dim ▸ hd)

lemma Aligned.setLower (n : Nat) : Aligned pf (range.setLower d (divideMid pf d n)) := by
  refine ⟨al.dim, fun e he => ?_, fun e he => ?_⟩
  all_goals by_cases ne : e = d
  · subst ne; simpa [NdRange.setLower] using al.step e hd
  · rw [NdRange.setLower, NdRange.set_other ne]; exact al.step e he
  · subst ne
    refine ⟨leftChunks pf e n, ?_⟩
    simp only [NdRange.setLower, NdRange.set_same, divideMid, sp.chunksize e (al.dim ▸ hd)]
  · rw [NdRange.setLower, NdRange.set_other ne]; exact al.lower e he

lemma points_cut (n : Nat) : range.points ⊆ (range.setUpper d (divideMid pf d n)).points ∪
      (range.setLower d (divideMid pf d n)).points := by
  intro x hx
  obtain ⟨c, e⟩ := divideMid_eq sp al hd n
  simp only [Set.mem_union, NdRange.points, Set.mem_ofPred_eq, NdRange.setUpper, NdRange.setLower,
    NdRange.mem_set hd, e]
  rcases (hx d hd).cut (c := c) (al.step_ne sp hd) with h | h
  · exact .inl ⟨h, fun i hi _ => hx i hi⟩
  · exact .inr ⟨h, fun i hi _ => hx i hi⟩

lemma points_disjoint (n : Nat) : Disjoint (range.setUpper d (divideMid pf d n)).points
      (range.setLower d (divideMid pf d n)).points := by
  obtain ⟨c, e⟩ := divideMid_eq sp al hd n
  rw [Set.disjoint_left]
  intro x h1 h2
  simp only [NdRange.points, Set.mem_ofPred_eq, NdRange.setUpper, NdRange.setLower, NdRange.mem_set hd, e] at h1 h2
  exact KuplRange.cut_disjoint (al.step_ne sp hd) h1.1 h2.1

lemma points_subset_iff (n : Nat) : ((range.setUpper d (divideMid pf d n)).points ⊆ range.points ∧
      (range.setLower d (divideMid pf d n)).points ⊆ range.points) ↔
    (range.ndRange d).CutInside (divideMid pf d n) ∨ range.EmptyBeside d := by
  obtain ⟨c, e⟩ := divideMid_eq sp al hd n
  have ne := al.step_ne sp hd
  have mem {x r} : (range.set d r).Mem x ↔ _ := NdRange.mem_set hd
  simp only [NdRange.points, Set.ofPred_subset_ofPred, NdRange.setUpper, NdRange.setLower, mem, e]
  constructor
  · rintro ⟨hl, hr⟩
    by_cases emp : range.EmptyBeside d
    · exact .inr emp
    · left
      -- a point of the other dimensions carries every iterate of the cut one
      have pick (i : Nat) : ∃ y, (i : Int) < range.dim → i ≠ d → (range.ndRange i).Mem y := by
        by_cases hi : (i : Int) < range.dim ∧ i ≠ d
        · have : ∃ y, (range.ndRange i).Mem y := by
            rw [KuplRange.exists_mem]
            by_contra bef
            exact emp ⟨i, by omega, hi.2, bef⟩
          obtain ⟨y, hy⟩ := this
          exact ⟨y, fun _ _ => hy⟩
        · exact ⟨0, fun h1 h2 => absurd ⟨h1, h2⟩ hi⟩
      choose y hy using pick
      have beside (x : Int) (i : Nat) (hi : (i : Int) < range.dim) (hne : i ≠ d) :
          (range.ndRange i).Mem (Function.update y d x i) := by
        rw [Function.update_of_ne hne]; exact hy i hi hne
      apply KuplRange.cutInside_of_subset ne
      · intro x hx
        simpa using hl (Function.update y d x) ⟨by simpa using hx, beside x⟩ d hd
      · intro x hx
        simpa using hr (Function.update y d x) ⟨by simpa using hx, beside x⟩ d hd
  · rintro (ins | ⟨i, hi, hne, bef⟩)
    · constructor <;> rintro x ⟨hx, hy⟩ i hi <;> by_cases hne : i = d
      · subst hne; exact ins.left ne hx
      · exact hy i hi hne
      · subst hne; exact ins.right ne hx
      · exact hy i hi hne
    · constructor <;> rintro x ⟨_, hy⟩ <;>
        exact absurd (KuplRange.exists_mem.mp ⟨_, hy i (by omega) hne⟩) bef

end

end Node

lemma Aligned.setUpper {pf range} (al : Aligned pf range) (d : Nat) (mid : Int) :
    Aligned pf (range.setUpper d mid) := by
  refine ⟨al.dim, fun e he => ?_, fun e he => ?_⟩
  all_goals by_cases ne : e = d
  · subst ne; simpa [NdRange.setUpper] using al.step e he
  · rw [NdRange.setUpper, NdRange.set_other ne]; exact al.step e he
  · subst ne; simpa [NdRange.setUpper] using al.lower e he
  · rw [NdRange.setUpper, NdRange.set_other ne]; exact al.lower e he

/-- The boxes of an interval of threads, from left to right. -/
def divideBoxes (pf : PfRange) : Nat → NdRange → Nat → List NdRange
  | 0, range, _ => [range]
  | depth + 1, range, n =>
    if n ≤ 1 then [range]
    else
      let d := getMaxRangeDim range
      let mid := divideMid pf d n
      divideBoxes pf depth (range.setUpper d mid) (n / 2) ++ divideBoxes pf depth (range.setLower d mid) (n - n / 2)

/-- The cuts of an interval of threads. -/
def divideTree (pf : PfRange) : Nat → NdRange → Nat → CutTree (Nat → Int)
  | 0, range, _ => .leaf range.points
  | depth + 1, range, n =>
    if n ≤ 1 then .leaf range.points
    else
      let d := getMaxRangeDim range
      let mid := divideMid pf d n
      .node range.points (divideTree pf depth (range.setUpper d mid) (n / 2))
        (divideTree pf depth (range.setLower d mid) (n - n / 2))

@[simp] lemma divideTree_region (pf : PfRange) (depth : Nat) (range n) :
    (divideTree pf depth range n).region = range.points := by
  cases depth with
  | zero => rfl
  | succ depth => unfold divideTree; split <;> rfl

lemma divideTree_leaves (pf : PfRange) (depth : Nat) (range n) :
    (divideTree pf depth range n).leaves = (divideBoxes pf depth range n).map NdRange.points := by
  induction depth generalizing range n with
  | zero => rfl
  | succ depth ih =>
    unfold divideTree divideBoxes
    split
    · rfl
    · simp only [CutTree.leaves, ih, map_append]

lemma divideBoxes_length (pf : PfRange) {depth n : Nat} (range) (h1 : 1 ≤ n) (h2 : n ≤ depth) :
    (divideBoxes pf depth range n).length = n := by
  induction depth generalizing range n with
  | zero => omega
  | succ depth ih =>
    unfold divideBoxes
    split
    · simp only [length_singleton]; omega
    · rw [length_append, ih _ (by omega) (by omega), ih _ (by omega) (by omega)]
      omega

lemma divideRange_box (pf : PfRange) {depth n : Nat} (range head i) (h1 : 1 ≤ n) (h2 : n ≤ depth) (hi : i < n) :
    divideRange pf (head + i) depth range head n = (divideBoxes pf depth range n)[i]? := by
  induction depth generalizing range head n i with
  | zero => omega
  | succ depth ih =>
    unfold divideRange divideBoxes
    by_cases one : n ≤ 1
    · obtain rfl : n = 1 := by omega
      obtain rfl : i = 0 := by omega
      simp
    · rw [if_neg (by omega), if_neg one]
      have len : (divideBoxes pf depth (range.setUpper (getMaxRangeDim range)
          (divideMid pf (getMaxRangeDim range) n)) (n / 2)).length = n / 2 :=
        divideBoxes_length pf _ (by omega) (by omega)
      by_cases left : i < n / 2
      · rw [if_pos (by omega), ih _ _ _ (by omega) (by omega) left, List.getElem?_append_left (by omega)]
      · have e : head + i = head + n / 2 + (i - n / 2) := by omega
        rw [if_neg (by omega), e, ih _ _ _ (by omega) (by omega) (by omega), List.getElem?_append_right (by omega), len]

lemma divideTree_separating {pf range} (sp : StaticPf pf) (al : Aligned pf range) (depth n) :
    (divideTree pf depth range n).Separating := by
  induction depth generalizing range n with
  | zero => trivial
  | succ depth ih =>
    unfold divideTree
    split
    · trivial
    · have hd : (getMaxRangeDim range : Int) < range.dim := getMaxRangeDim_lt (al.dim ▸ sp.dim)
      simp only [CutTree.Separating, divideTree_region]
      exact ⟨points_cut sp al hd n, points_disjoint sp al hd n, ih (al.setUpper _ _) _, ih (al.setLower sp hd n) _⟩

lemma divideTree_nested_iff {pf range} (sp : StaticPf pf) (al : Aligned pf range) (depth n) :
    (divideTree pf depth range n).Nested ↔ CutsInside pf depth range n := by
  induction depth generalizing range n with
  | zero => exact Iff.rfl
  | succ depth ih =>
    unfold divideTree CutsInside
    split
    · exact Iff.rfl
    · have hd : (getMaxRangeDim range : Int) < range.dim := getMaxRangeDim_lt (al.dim ▸ sp.dim)
      simp only [CutTree.Nested, divideTree_region, ih (al.setUpper _ _), ih (al.setLower sp hd n),
        ← and_assoc, points_subset_iff sp al hd n]

open Classical in
lemma divideTree_count (pf : PfRange) (depth range n) (x : Nat → Int) : (divideTree pf depth range n).count x =
      (divideBoxes pf depth range n).countP fun b => decide (b.Mem x) := by
  rw [CutTree.count, divideTree_leaves, countP_map]
  refine countP_congr fun b _ => ?_
  rw [Function.comp_apply, decide_eq_true_iff, decide_eq_true_iff]
  exact Iff.rfl

lemma partitions_iff_count {range : NdRange} {tnum : Nat} (ht : 1 ≤ tnum) :
    Partitions range tnum ↔ ∀ x, (divideBoxes (calcChunkInfo range) tnum range tnum).countP
      (fun b => decide (b.Mem x)) = ind range.points x := by
  have len := divideBoxes_length (calcChunkInfo range) range ht (le_refl tnum)
  have get (tid) (lt : tid < tnum) : ndStaticRange range tid tnum =
      (divideBoxes (calcChunkInfo range) tnum range tnum)[tid]? := by
    simpa [ndStaticRange] using
      divideRange_box (calcChunkInfo range) range 0 tid ht (le_refl tnum) lt
  generalize divideBoxes (calcChunkInfo range) tnum range tnum = boxes at *
  constructor
  · rintro ⟨box, hbox, hone, hsub⟩ x
    have at_tid {tid b} (h : boxes[tid]? = some b) : tid < tnum ∧ b = box tid := by
      have lt : tid < tnum := len ▸ (List.getElem?_eq_some_iff.mp h).1
      rw [← get tid lt, hbox tid lt] at h
      exact ⟨lt, (Option.some.inj h).symm⟩
    by_cases hx : x ∈ range.points
    · rw [ind_of_mem hx, countP_eq_one_iff]
      obtain ⟨tid, ⟨lt, mem⟩, uniq⟩ := hone x hx
      refine ⟨tid, ⟨box tid, (get tid lt).symm.trans (hbox tid lt), by simpa using mem⟩, ?_⟩
      rintro j ⟨b, hb, hm⟩
      obtain ⟨ltj, rfl⟩ := at_tid hb
      exact uniq j ⟨ltj, by simpa using hm⟩
    · rw [ind_of_not_mem hx, countP_eq_zero]
      intro b hb hm
      obtain ⟨tid, h⟩ := mem_iff_getElem?.mp hb
      obtain ⟨lt, rfl⟩ := at_tid h
      exact hx (hsub tid lt x (by simpa using hm))
  · intro h
    have at_tid (tid) (lt : tid < tnum) : boxes[tid]? = some (boxes[tid]?.getD range) := by
      rw [List.getElem?_eq_getElem (len ▸ lt)]; rfl
    refine ⟨fun tid => boxes[tid]?.getD range, fun tid lt => (get tid lt).trans (at_tid tid lt),
      fun x hx => ?_, fun tid lt x hx => ?_⟩
    · have one := (h x).trans (ind_of_mem hx)
      obtain ⟨tid, ⟨b, hb, hm⟩, uniq⟩ := countP_eq_one_iff.mp one
      have lt : tid < tnum := len ▸ (List.getElem?_eq_some_iff.mp hb).1
      refine ⟨tid, ⟨lt, by simpa [hb] using hm⟩, ?_⟩
      rintro j ⟨ltj, hj⟩
      exact uniq j ⟨_, at_tid j ltj, by simpa using hj⟩
    · by_contra out
      have zero := (h x).trans (ind_of_not_mem out)
      rw [countP_eq_zero] at zero
      exact zero _ (mem_of_getElem? (at_tid tid lt)) (by simpa using hx)

/-- The boxes of `divide_range` partition an accepted range if and only if no cut point falls outside
of the box it cuts. -/
theorem divideRange_partition_iff {range r : NdRange} {tnum : Nat} (acc : checkRange range .static = some r)
    (ht : 1 ≤ tnum) : Partitions r tnum ↔ CutsInside (calcChunkInfo r) tnum r tnum := by
  classical
  have sp := StaticPf.of_check acc
  have al : Aligned (calcChunkInfo r) r :=
    ⟨rfl, fun _ _ => rfl, fun d _ => ⟨0, by simp [calcChunkInfo]⟩⟩
  rw [partitions_iff_count ht, ← divideTree_nested_iff sp al,
    ← CutTree.partition_iff_nested (divideTree_separating sp al _ _)]
  simp only [divideTree_count, divideTree_region]

/-- Two dimensions with step `1`, from `0` up to `m` and `n`. -/
def plane (m n : Int) : NdRange where
  dim := 2
  ndRange d := if d = 0 then ⟨0, m, 1, 1⟩ else ⟨0, n, 1, 1⟩

/-- Three rows of four columns, divided among three threads. -/
theorem divideRange_partition_plane : ∃ r, checkRange (plane 4 3) .static = some r ∧ Partitions r 3 := by
  have acc : (checkRange (plane 4 3) .static).isSome := by decide
  obtain ⟨r, hr⟩ := Option.isSome_iff_exists.mp acc
  have ins : (checkRange (plane 4 3) .static).all fun r =>
      decide (CutsInside (calcChunkInfo r) 3 r 3) := by decide
  rw [hr] at ins
  exact ⟨r, hr, (divideRange_partition_iff hr (by decide)).mpr (by simpa using ins)⟩

/-- Seven columns of one row divided among four threads: the point `(2, 0)` is run by the threads `0`
and `2`. -/
theorem divideRange_overlap : ¬∀ (range r : NdRange) (tnum : Nat), 2 ≤ r.dim →
    checkRange range .static = some r →
      1 ≤ tnum → tnum ≤ (calcChunkInfo r).totalChunks → Partitions r tnum := by
  intro parts
  have acc : (checkRange (plane 7 1) .static).isSome := by decide
  obtain ⟨r, hr⟩ := Option.isSome_iff_exists.mp acc
  have size : (checkRange (plane 7 1) .static).all fun r =>
      decide (2 ≤ r.dim ∧ 4 ≤ (calcChunkInfo r).totalChunks) := by decide
  have ends : ∀ tid ∈ [0, 2], (checkRange (plane 7 1) .static).all fun r =>
      (ndStaticRange r tid 4).all fun b => decide (b.dim = 2 ∧ (b.ndRange 0).step = 1 ∧
        (b.ndRange 0).lower ≤ 2 ∧ 2 < (b.ndRange 0).upper ∧ b.ndRange 1 = ⟨0, 1, 1, 1⟩) := by
    decide
  rw [hr] at size ends
  obtain ⟨dim, chunks⟩ : 2 ≤ r.dim ∧ 4 ≤ (calcChunkInfo r).totalChunks := by simpa using size
  obtain ⟨box, hbox, hone, hsub⟩ := parts _ r 4 dim hr (by decide) chunks
  let x : Nat → Int := fun d => if d = 0 then 2 else 0
  have mem {tid} (h : tid ∈ [0, 2]) (lt : tid < 4) : (box tid).Mem x := by
    have e := ends tid h
    rw [Option.all_some, hbox tid lt, Option.all_some, decide_eq_true_eq] at e
    obtain ⟨bdim, bstep, blow, bupp, brow⟩ := e
    intro d hd
    obtain rfl | rfl : d = 0 ∨ d = 1 := by omega
    · refine ⟨(2 - ((box tid).ndRange 0).lower).toNat, ?_, .inl ⟨by omega, bupp⟩⟩
      rw [bstep, Int.toNat_of_nonneg (by omega)]
      simp [x]
    · rw [brow]
      exact ⟨0, by simp [x], .inl ⟨by decide, by simp [x]⟩⟩
  obtain ⟨tid, _, uniq⟩ := hone x (hsub 0 (by decide) x (mem (by simp) (by decide)))
  have h0 := uniq 0 ⟨by decide, mem (by simp) (by decide)⟩
  have h2 := uniq 2 ⟨by decide, mem (by simp) (by decide)⟩
  omega

end Kupl.Range
