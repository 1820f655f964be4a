import Kupl.Places.Parser

/-!
# The processors that a subplace marks

A `cpu_set_t` as the set of its processors, and the loops of `kupl_process_subplace_list` as visits of
lists of numbers: `visit` marks the available ones of a list. The numbers that the loops visit are
those of the subplace, up to wrapping and, with a stride, up to the first one that is not available.
-/

namespace Kupl.Places
open List

def procs (set : CpuSet) : Finset Nat := (Finset.range cpuSetsize).filter fun k => set.getLsbD k

/-- The values of `int`. -/
def InInt (n : Int) : Prop := -2147483648 ≤ n ∧ n ≤ 2147483647

section Wrap

variable {n : Int}

lemma wrap_eq (fits : InInt n) : wrap n = n := by
  apply Int.bmod_eq_of_le
  · have := fits.1
    omega
  · have := fits.2
    omega

lemma wrap_inInt : InInt (wrap n) := by
  have low : -((2 ^ 32 / 2 : Nat) : Int) ≤ wrap n := Int.le_bmod (by decide)
  have high : wrap n < ((2 ^ 32 + 1) / 2 : Nat) := Int.bmod_lt (by decide)
  constructor <;> omega

lemma wrap_add {m : Int} : wrap (wrap n + m) = wrap (n + m) := Int.bmod_add_bmod

lemma wrap_high (low : 2147483648 ≤ n) (high : n < 4294967296) : wrap n = n - 4294967296 := by
  apply (Int.bmod_eq_iff (by decide)).2
  refine ⟨by omega, by omega, ?_⟩
  exact ⟨-1, by omega⟩

lemma clamp_inInt : InInt (clamp n) := by
  unfold clamp intMax InInt
  split <;> (try split) <;> constructor <;> omega

lemma clamp_cases : clamp n = n ∧ -2147483638 < n ∧ n < 2147483638 ∨ clamp n = intMax ∧ 2147483638 ≤ n ∨
    clamp n = -intMax ∧ n ≤ -2147483638 := by
  unfold clamp
  split
  · exact .inr (.inl ⟨rfl, by assumption⟩)
  split
  · exact .inr (.inr ⟨rfl, by assumption⟩)
  · exact .inl ⟨rfl, by omega, by omega⟩

end Wrap

section Procs

variable {set set' : CpuSet} {k : Nat} {cpu : Int}

lemma mem_procs : k ∈ procs set ↔ set.getLsbD k := by
  unfold procs
  rw [Finset.mem_filter, Finset.mem_range, and_iff_right_iff_imp]
  exact BitVec.lt_of_getLsbD

lemma lt_of_mem_procs (mem : k ∈ procs set) : k < cpuSetsize := BitVec.lt_of_getLsbD (mem_procs.1 mem)

@[simp] lemma procs_zero : procs 0 = ∅ := by
  apply Finset.eq_empty_of_forall_notMem
  intro k mem
  have := mem_procs.1 mem
  rw [BitVec.ofNat_eq_ofNat, BitVec.getLsbD_zero] at this
  cases this

def Available (avail : Finset Nat) (cpu : Int) : Prop := ∃ k ∈ avail, (k : Int) = cpu

instance (avail : Finset Nat) (cpu : Int) : Decidable (Available avail cpu) :=
  inferInstanceAs (Decidable (∃ k ∈ avail, (k : Int) = cpu))

lemma Available.bounds (A : Available (procs set) cpu) : 0 ≤ cpu ∧ cpu < 1024 := by
  obtain ⟨k, mem, rfl⟩ := A
  have lt : k < 1024 := lt_of_mem_procs mem
  omega

lemma isset_iff (fits : InInt cpu) : isset cpu set ↔ Available (procs set) cpu := by
  unfold isset
  constructor
  · intro is
    have lt : cpuIndex cpu < 1024 := BitVec.lt_of_getLsbD is
    refine ⟨_, mem_procs.2 is, ?_⟩
    unfold cpuIndex at lt ⊢
    have := fits.1
    have := fits.2
    omega
  · rintro ⟨k, mem, rfl⟩
    have lt : k < 1024 := lt_of_mem_procs mem
    have index : cpuIndex k = k := by
      unfold cpuIndex
      omega
    rw [index]
    exact mem_procs.1 mem

lemma procs_setCpu (lt : k < cpuSetsize) : procs (setCpu k set) = procs set ∪ {k} := by
  have index : cpuIndex k = k := by
    unfold cpuIndex
    have lt : k < 1024 := lt
    omega
  ext j
  rw [Finset.mem_union, Finset.mem_singleton, mem_procs, mem_procs, setCpu, index, BitVec.getLsbD_or, Bool.or_eq_true,
    BitVec.getLsbD_twoPow, Bool.and_eq_true, decide_eq_true_eq, decide_eq_true_eq]
  constructor
  · rintro (old | ⟨-, new⟩)
    · exact .inl old
    · exact .inr new.symm
  · rintro (old | new)
    · exact .inl old
    · exact .inr ⟨lt, new.symm⟩

lemma procs_complement : procs ((set ^^^ set') &&& set') = procs set' \ procs set := by
  ext k
  rw [Finset.mem_sdiff, mem_procs, mem_procs, mem_procs, BitVec.getLsbD_and, BitVec.getLsbD_xor]
  cases set.getLsbD k <;> cases set'.getLsbD k <;> decide

lemma cpuCount_eq_zero : cpuCount set = 0 ↔ procs set = ∅ := by
  unfold cpuCount
  rw [countP_eq_zero, Finset.eq_empty_iff_forall_notMem]
  constructor
  · intro none k mem
    exact none k (mem_range.2 (lt_of_mem_procs mem)) (mem_procs.1 mem)
  · intro none k _ is
    exact none k (mem_procs.2 is)

end Procs

/-! ## Visits -/

section Visit

variable {f : CpuSet} {s : St} {cpu : Int} {L : List Int} {avail : Finset Nat} {k : Nat}

lemma usable_iff (fits : InInt cpu) : usable f cpu ↔ Available (procs f) cpu := by
  unfold usable
  rw [Bool.and_eq_true, decide_eq_true_eq, isset_iff fits, and_iff_right_iff_imp]
  exact fun A => A.bounds.2

lemma mem_availableOf : k ∈ availableOf avail L ↔ k ∈ avail ∧ (k : Int) ∈ L := Finset.mem_filter

lemma availableOf_cons : availableOf avail (cpu :: L) = availableOf avail [cpu] ∪ availableOf avail L := by
  ext k
  rw [Finset.mem_union, mem_availableOf, mem_availableOf, mem_availableOf, mem_cons, mem_singleton]
  exact and_or_left

lemma availableOf_eq_empty : availableOf avail L = ∅ ↔ ∀ cpu ∈ L, ¬ Available avail cpu := by
  rw [Finset.eq_empty_iff_forall_notMem]
  constructor
  · rintro none _ mem ⟨k, inAvail, rfl⟩
    exact none k (mem_availableOf.2 ⟨inAvail, mem⟩)
  · intro none k mem
    obtain ⟨inAvail, mem⟩ := mem_availableOf.1 mem
    exact none k mem ⟨k, inAvail, rfl⟩

/-- The number of available numbers in a list, repetitions included. -/
def hitsOf (avail : Finset Nat) (L : List Int) : Nat := L.countP fun cpu => Available avail cpu

lemma hitsOf_eq_zero : hitsOf avail L = 0 ↔ availableOf avail L = ∅ := by
  unfold hitsOf
  simp only [countP_eq_zero, availableOf_eq_empty, decide_eq_true_eq]

lemma hitsOf_cons (A : Available avail cpu) : hitsOf avail (cpu :: L) = hitsOf avail L + 1 :=
  countP_cons_of_pos (decide_eq_true A)

lemma hitsOf_cons_not (N : ¬ Available avail cpu) : hitsOf avail (cpu :: L) = hitsOf avail L :=
  countP_cons_of_neg (by rwa [decide_eq_true_eq])

lemma markCpu_available (A : Available (procs f) cpu) : markCpu f cpu s = (s.test cpu).set cpu := by
  obtain ⟨low, high⟩ := A.bounds
  have fits : InInt cpu := ⟨by omega, by omega⟩
  have inSet : ¬ (cpuSetsize : Int) ≤ cpu := Int.not_le.2 high
  unfold markCpu
  rw [if_neg inSet, if_pos ((isset_iff fits).2 A)]

lemma markCpu_not (fits : InInt cpu) (N : ¬ Available (procs f) cpu) :
    markCpu f cpu s = s ∨ markCpu f cpu s = s.test cpu := by
  unfold markCpu
  split
  · exact .inl rfl
  · rw [if_neg (fun is => N ((isset_iff fits).1 is))]
    exact .inr rfl

/-- The numbers of a list are marked one after the other. -/
def visit (f : CpuSet) (L : List Int) (s : St) : St := L.foldl (fun s cpu => markCpu f cpu s) s

lemma visit_cons : visit f (cpu :: L) s = visit f L (markCpu f cpu s) := rfl

lemma visit_spec (fits : ∀ cpu ∈ L, InInt cpu) (isInt : InInt s.size) :
    procs (visit f L s).mask = procs s.mask ∪ availableOf (procs f) L ∧
      (visit f L s).size = wrap (s.size + hitsOf (procs f) L) ∧ (visit f L s).places = s.places := by
  induction L generalizing s with
  | nil =>
    refine ⟨?_, ?_, rfl⟩
    · have none : availableOf (procs f) [] = ∅ := availableOf_eq_empty.2 nofun
      rw [none, Finset.union_empty]
      rfl
    · have none : hitsOf (procs f) [] = 0 := rfl
      rw [none, Int.natCast_zero, Int.add_zero]
      exact (wrap_eq isInt).symm
  | cons cpu L ih =>
    have rest {s} (isInt : InInt s.size) := ih (s := s) (fun c mem => fits c (mem_cons_of_mem cpu mem)) isInt
    rw [visit_cons]
    by_cases A : Available (procs f) cpu
    · rw [markCpu_available A]
      obtain ⟨mask, size, places⟩ := rest (s := (s.test cpu).set cpu) wrap_inInt
      refine ⟨?_, ?_, places⟩
      · obtain ⟨k, mem, rfl⟩ := A
        have one : availableOf (procs f) [(k : Int)] = {k} := by
          ext j
          rw [mem_availableOf, mem_singleton, Finset.mem_singleton, Int.natCast_inj]
          constructor
          · exact fun is => is.2
          · rintro rfl
            exact ⟨mem, rfl⟩
        have added : procs ((s.test k).set k).mask = procs s.mask ∪ {k} := procs_setCpu (lt_of_mem_procs mem)
        rw [mask, added, availableOf_cons, one, Finset.union_assoc]
      · have counted : ((s.test cpu).set cpu).size = wrap (s.size + 1) := rfl
        rw [size, counted, hitsOf_cons A, wrap_add, Int.natCast_succ, Int.add_right_comm, Int.add_assoc]
    · have none : availableOf (procs f) [cpu] = ∅ := availableOf_eq_empty.2 fun c mem => by
        rwa [mem_singleton.1 mem]
      have same : (markCpu f cpu s).mask = s.mask ∧ (markCpu f cpu s).size = s.size ∧
          (markCpu f cpu s).places = s.places := by
        obtain is | is := markCpu_not (s := s) (fits cpu mem_cons_self) A <;> rw [is] <;> exact ⟨rfl, rfl, rfl⟩
      obtain ⟨mask, size, places⟩ := rest (s := markCpu f cpu s) (by rw [same.2.1]; exact isInt)
      refine ⟨?_, ?_, places.trans same.2.2⟩
      · rw [mask, same.1, availableOf_cons, none, Finset.empty_union]
      · rw [size, same.2.1, hitsOf_cons_not A]

end Visit

/-! ## The numbers of the loops -/

/-- The numbers that a subplace `start : count` visits. -/
def runNumbers : Nat → Int → List Int
  | 0, _ => []
  | n + 1, start => start :: runNumbers n (wrap (start + 1))

/-- The numbers that a subplace `start : count : stride` visits. -/
def stridedNumbers (f : CpuSet) (stride : Int) : Nat → Int → List Int
  | 0, _ => []
  | n + 1, start => start :: stridedNumbers f stride n (if usable f start then wrap (start + stride) else start)

def Subplace.visits (f : CpuSet) : Subplace → List Int
  | .one start => [start]
  | .run start count => runNumbers count.toNat start
  | .strided start count stride => stridedNumbers f stride count.toNat start

section Numbers

variable {f : CpuSet} {s : St} {n : Nat} {start stride cpu : Int} {avail : Finset Nat} {k : Nat}

lemma markRun_eq : markRun f n start s = visit f (runNumbers n start) s := by
  induction n generalizing start s with
  | zero => rfl
  | succ n ih => exact ih

lemma markStrided_eq : markStrided f stride n start s = visit f (stridedNumbers f stride n start) s := by
  induction n generalizing start s with
  | zero => rfl
  | succ n ih => exact ih

lemma Subplace.exec_eq {p : Subplace} : p.exec f s = visit f (p.visits f) s := by
  cases p with
  | one => rfl
  | run => exact markRun_eq
  | strided => exact markStrided_eq

lemma runNumbers_fits (fits : InInt start) (mem : cpu ∈ runNumbers n start) : InInt cpu := by
  induction n generalizing start with
  | zero => cases mem
  | succ n ih =>
    cases mem with
    | head => exact fits
    | tail _ mem => exact ih wrap_inInt mem

lemma stridedNumbers_fits (fits : InInt start) (mem : cpu ∈ stridedNumbers f stride n start) : InInt cpu := by
  induction n generalizing start with
  | zero => cases mem
  | succ n ih =>
    cases mem with
    | head => exact fits
    | tail _ mem =>
      refine ih ?_ mem
      split
      · exact wrap_inInt
      · exact fits

lemma mem_progression : cpu ∈ progression start n stride ↔ ∃ i < n, cpu = start + (i : Nat) * stride := by
  unfold progression
  rw [mem_map]
  constructor
  · rintro ⟨i, mem, rfl⟩
    exact ⟨i, mem_range.1 mem, rfl⟩
  · rintro ⟨i, lt, rfl⟩
    exact ⟨i, mem_range.2 lt, rfl⟩

lemma progression_succ : progression start (n + 1) stride = start :: progression (start + stride) n stride := by
  unfold progression
  rw [range_succ_eq_map, map_cons, map_map]
  congr 1
  · rw [Int.natCast_zero, Int.zero_mul, Int.add_zero]
  · apply map_congr_left
    intro i _
    show start + ((i + 1 : Nat) : Int) * stride = _
    rw [Int.natCast_succ, Int.add_mul, Int.one_mul]
    omega

lemma runNumbers_eq (fits : InInt start) : runNumbers n start = (progression start n 1).map wrap := by
  induction n generalizing start with
  | zero => rfl
  | succ n ih =>
    rw [runNumbers, progression_succ, map_cons, wrap_eq fits, ih wrap_inInt]
    congr 1
    unfold progression
    rw [map_map, map_map]
    apply map_congr_left
    intro i _
    exact wrap_add

lemma wrap_step (A : Available (procs f) start) (low : -intMax ≤ stride) (high : stride ≤ intMax) :
    wrap (start + stride) = start + stride ∨
      ¬ Available (procs f) (wrap (start + stride)) ∧ ¬ Available (procs f) (start + stride) := by
  obtain ⟨nonneg, lt⟩ := A.bounds
  unfold intMax at low high
  by_cases fits : start + stride < 2147483648
  · exact .inl (wrap_eq ⟨by omega, by omega⟩)
  · right
    rw [wrap_high (by omega) (by omega)]
    constructor <;> intro A' <;> have := A'.bounds <;> omega

lemma mem_strided (fits : InInt start) (low : -intMax ≤ stride) (high : stride ≤ intMax) :
    k ∈ availableOf (procs f) (stridedNumbers f stride n start) ↔
      ∃ i < n, (k : Int) = start + (i : Nat) * stride ∧
        ∀ l ≤ i, Available (procs f) (start + (l : Nat) * stride) := by
  induction n generalizing start with
  | zero =>
    rw [mem_availableOf]
    constructor
    · rintro ⟨-, mem⟩
      cases mem
    · rintro ⟨i, lt, -⟩
      cases lt
  | succ n ih =>
    have first : start + ((0 : Nat) : Int) * stride = start := by rw [Int.natCast_zero, Int.zero_mul, Int.add_zero]
    have next (l : Nat) : start + ((l + 1 : Nat) : Int) * stride = start + stride + l * stride := by
      rw [Int.natCast_succ, Int.add_mul, Int.one_mul, Int.add_comm (l * stride), Int.add_assoc]
    rw [mem_availableOf, stridedNumbers, mem_cons]
    by_cases A : Available (procs f) start
    · rw [if_pos ((usable_iff fits).2 A)]
      have rest := mem_availableOf.symm.trans (@ih (wrap (start + stride)) wrap_inInt)
      constructor
      · rintro ⟨inAvail, is | mem⟩
        · refine ⟨0, Nat.zero_lt_succ n, is.trans first.symm, fun l le => ?_⟩
          rw [Nat.le_zero.1 le, first]
          exact A
        · obtain ⟨i, lt, eq, all⟩ := rest.1 ⟨inAvail, mem⟩
          obtain same | ⟨stuck, -⟩ := wrap_step A low high
          · rw [same] at eq all
            refine ⟨i + 1, Nat.succ_lt_succ lt, eq.trans (next i).symm, fun l le => ?_⟩
            cases l with
            | zero =>
              rw [first]
              exact A
            | succ l =>
              rw [next]
              exact all l (Nat.le_of_succ_le_succ le)
          · refine absurd (all 0 (Nat.zero_le i)) ?_
            rwa [Int.natCast_zero, Int.zero_mul, Int.add_zero]
      · rintro ⟨i, lt, eq, all⟩
        have inAvail : k ∈ procs f := by
          obtain ⟨j, mem, is⟩ := all i (Nat.le_refl i)
          have same : (j : Int) = k := is.trans eq.symm
          cases Int.natCast_inj.1 same
          exact mem
        cases i with
        | zero => exact ⟨inAvail, .inl (eq.trans first)⟩
        | succ i =>
          refine ⟨inAvail, .inr ?_⟩
          obtain same | ⟨-, stuck⟩ := wrap_step A low high
          · refine (rest.2 ⟨i, Nat.lt_of_succ_lt_succ lt, ?_, fun l le => ?_⟩).2
            · rw [same]
              exact eq.trans (next i)
            · rw [same, ← next]
              exact all (l + 1) (Nat.succ_le_succ le)
          · refine absurd (all 1 (Nat.succ_le_succ (Nat.zero_le i))) ?_
            rwa [Int.natCast_one, Int.one_mul]
    · rw [if_neg (fun is => A ((usable_iff fits).1 is))]
      have rest := mem_availableOf.symm.trans (ih fits)
      constructor
      · rintro ⟨inAvail, is | mem⟩
        · exact absurd ⟨k, inAvail, is⟩ A
        · obtain ⟨i, lt, eq, all⟩ := rest.1 ⟨inAvail, mem⟩
          exact ⟨i, Nat.lt_succ_of_lt lt, eq, all⟩
      · rintro ⟨i, lt, eq, all⟩
        refine absurd (all 0 (Nat.zero_le i)) ?_
        rwa [first]

lemma strided_stuck (fits : InInt start) (low : -intMax ≤ stride) (high : stride ≤ intMax)
    (N : ¬ Available (procs f) start) : hitsOf (procs f) (stridedNumbers f stride n start) = 0 := by
  rw [hitsOf_eq_zero, Finset.eq_empty_iff_forall_notMem]
  intro k mem
  obtain ⟨i, -, -, all⟩ := (mem_strided fits low high).1 mem
  refine N ?_
  have := all 0 (Nat.zero_le i)
  rwa [Int.natCast_zero, Int.zero_mul, Int.add_zero] at this

lemma strided_hits (fits : InInt start) (low : -intMax ≤ stride) (high : stride ≤ intMax) :
    hitsOf (procs f) (stridedNumbers f stride n start) ≤ hitsOf (procs f) (progression start n stride) := by
  induction n generalizing start with
  | zero => exact Nat.le_refl 0
  | succ n ih =>
    rw [progression_succ, stridedNumbers]
    by_cases A : Available (procs f) start
    · rw [if_pos ((usable_iff fits).2 A), hitsOf_cons A, hitsOf_cons A]
      apply Nat.succ_le_succ
      obtain same | ⟨stuck, -⟩ := wrap_step A low high
      · have moved : InInt (start + stride) := by
          rw [← same]
          exact wrap_inInt
        rw [same]
        exact ih moved
      · rw [strided_stuck wrap_inInt low high stuck]
        exact Nat.zero_le _
    · rw [if_neg (fun is => A ((usable_iff fits).1 is)), hitsOf_cons_not A, strided_stuck fits low high A]
      exact Nat.zero_le _

lemma run_hits (low : 0 ≤ start) (fits : InInt start) (few : (n : Int) ≤ intMax) :
    hitsOf (procs f) (runNumbers n start) ≤ hitsOf (procs f) (progression start n 1) := by
  rw [runNumbers_eq fits, hitsOf, hitsOf, countP_map]
  apply countP_mono_left
  intro cpu mem
  simp only [Function.comp_apply, decide_eq_true_eq]
  intro A
  have bounds := A.bounds
  obtain ⟨i, lt, rfl⟩ := mem_progression.1 mem
  unfold intMax at few
  unfold InInt at fits
  rw [Int.mul_one] at A bounds ⊢
  by_cases top : start + i < 2147483648
  · rwa [wrap_eq ⟨by omega, by omega⟩] at A
  · rw [wrap_high (by omega) (by omega)] at bounds
    omega

lemma strided_small (found : ∃ i < n, (k : Int) = start + (i : Nat) * stride ∧
      ∀ l ≤ i, Available (procs f) (start + (l : Nat) * stride)) :
    ∃ i < n, i < 1024 ∧ (i = 0 ∨ -1024 < stride ∧ stride < 1024) ∧ (k : Int) = start + (i : Nat) * stride ∧
      ∀ l ≤ i, Available (procs f) (start + (l : Nat) * stride) := by
  obtain ⟨i, lt, eq, all⟩ := found
  have first := (all 0 (Nat.zero_le i)).bounds
  have last := (all i (Nat.le_refl i)).bounds
  rw [Int.natCast_zero, Int.zero_mul, Int.add_zero] at first
  cases i with
  | zero => exact ⟨0, lt, by decide, .inl rfl, eq, all⟩
  | succ i =>
    have second := (all 1 (Nat.succ_le_succ (Nat.zero_le i))).bounds
    rw [Int.natCast_one, Int.one_mul] at second
    have small : -1024 < stride ∧ stride < 1024 := by
      constructor <;> omega
    by_cases few : i + 1 < 1024
    · exact ⟨i + 1, lt, few, .inr small, eq, all⟩
    · have still : stride = 0 := by
        by_contra moves
        have large : (1024 : Int) ≤ (i + 1 : Nat) := by omega
        obtain up | down := Int.lt_or_gt_of_ne moves
        · have := Int.mul_le_mul_of_nonneg_left (show stride ≤ -1 by omega) (Int.le_trans (by decide) large)
          omega
        · have := Int.mul_le_mul_of_nonneg_left (show 1 ≤ stride by omega) (Int.le_trans (by decide) large)
          omega
      refine ⟨0, Nat.zero_lt_of_lt lt, by decide, .inl rfl, ?_, fun l le => all l (Nat.le_trans le (Nat.zero_le _))⟩
      rw [eq, still, Int.mul_zero, Int.mul_zero]

lemma strided_read {c : Nat} (nonneg : 0 ≤ start) :
    (∃ i < (clamp c).toNat, (k : Int) = clamp start + (i : Nat) * clamp stride ∧
        ∀ l ≤ i, Available (procs f) (clamp start + (l : Nat) * clamp stride)) ↔
      ∃ i < c, (k : Int) = start + (i : Nat) * stride ∧
        ∀ l ≤ i, Available (procs f) (start + (l : Nat) * stride) := by
  have top : intMax = 2147483647 := rfl
  have isStart {m : Int} (A : Available (procs f) (m + ((0 : Nat) : Int) * stride)) : m < 1024 := by
    have := A.bounds.2
    rwa [Int.natCast_zero, Int.zero_mul, Int.add_zero] at this
  have isStart' {m : Int} (A : Available (procs f) (m + ((0 : Nat) : Int) * clamp stride)) : m < 1024 := by
    have := A.bounds.2
    rwa [Int.natCast_zero, Int.zero_mul, Int.add_zero] at this
  constructor
  · intro found
    obtain ⟨i, lt, few, small, eq, all⟩ := strided_small found
    have lt_start := isStart' (all 0 (Nat.zero_le i))
    have same : clamp start = start := by
      obtain ⟨is, _⟩ | ⟨is, _⟩ | ⟨is, _⟩ := @clamp_cases start
      · exact is
      · omega
      · omega
    have lt_c : i < c := by
      obtain ⟨is, _⟩ | ⟨is, _⟩ | ⟨is, _⟩ := @clamp_cases c <;> omega
    rw [same] at eq all
    obtain rfl | ⟨low, high⟩ := small
    · refine ⟨0, lt_c, ?_, fun l le => ?_⟩
      · rwa [Int.natCast_zero, Int.zero_mul] at eq ⊢
      · have A := all 0 (Nat.le_refl 0)
        rw [Nat.le_zero.1 le]
        rwa [Int.natCast_zero, Int.zero_mul] at A ⊢
    · have same' : clamp stride = stride := by
        obtain ⟨is, _⟩ | ⟨is, _⟩ | ⟨is, _⟩ := @clamp_cases stride
        · exact is
        · omega
        · omega
      rw [same'] at eq all
      exact ⟨i, lt_c, eq, all⟩
  · intro found
    obtain ⟨i, lt, few, small, eq, all⟩ := strided_small found
    have lt_start := isStart (all 0 (Nat.zero_le i))
    have lt_c : i < (clamp c).toNat := by
      obtain ⟨is, _⟩ | ⟨is, _⟩ | ⟨is, _⟩ := @clamp_cases c <;> omega
    rw [clamp_small (n := start) (by omega) (by omega)]
    obtain rfl | ⟨low, high⟩ := small
    · refine ⟨0, lt_c, ?_, fun l le => ?_⟩
      · rwa [Int.natCast_zero, Int.zero_mul] at eq ⊢
      · have A := all 0 (Nat.le_refl 0)
        rw [Nat.le_zero.1 le]
        rwa [Int.natCast_zero, Int.zero_mul] at A ⊢
    · rw [clamp_small (n := stride) (by omega) (by omega)]
      exact ⟨i, lt_c, eq, all⟩

lemma steady_iff (steady : Steady avail (progression start n stride)) :
    k ∈ availableOf avail (progression start n stride) ↔
      ∃ i < n, (k : Int) = start + (i : Nat) * stride ∧
        ∀ l ≤ i, Available avail (start + (l : Nat) * stride) := by
  have length : (progression start n stride).length = n := by rw [progression, length_map, length_range]
  have get {i} (h : i < (progression start n stride).length) :
      (progression start n stride)[i] = start + (i : Nat) * stride := by
    simp only [progression, getElem_map, getElem_range]
  rw [mem_availableOf, mem_progression]
  constructor
  · rintro ⟨inAvail, i, lt, eq⟩
    refine ⟨i, lt, eq, fun l le => ?_⟩
    obtain rfl | below := Nat.eq_or_lt_of_le le
    · exact ⟨k, inAvail, eq⟩
    · have := steady l i (by rw [length]; omega) (by rw [length]; exact lt) below
        ⟨k, inAvail, by rw [get]; exact eq⟩
      rwa [get] at this
  · rintro ⟨i, lt, eq, all⟩
    obtain ⟨j, mem, is⟩ := all i (Nat.le_refl i)
    have same : (j : Int) = k := is.trans eq.symm
    cases Int.natCast_inj.1 same
    exact ⟨mem, i, lt, eq⟩

lemma run_read {s c : Nat} : k ∈ availableOf (procs f) (runNumbers (clamp c).toNat (clamp s)) ↔
    k ∈ availableOf (procs f) (progression s c 1) := by
  have top : intMax = 2147483647 := rfl
  have bound : InInt (clamp s) := clamp_inInt
  rw [mem_availableOf, mem_availableOf, runNumbers_eq bound, mem_map, mem_progression]
  apply and_congr_right
  intro inAvail
  have lt_k : k < 1024 := lt_of_mem_procs inAvail
  constructor
  · rintro ⟨cpu, mem, is⟩
    obtain ⟨i, lt, rfl⟩ := mem_progression.1 mem
    rw [Int.mul_one] at is
    refine ⟨k - s, ?_⟩
    rw [Int.mul_one]
    have inRange : clamp s + i < 2147483648 := by
      by_contra high
      have := bound.2
      rw [wrap_high (by omega) (by obtain ⟨is, _⟩ | ⟨is, _⟩ | ⟨is, _⟩ := @clamp_cases c <;> omega)] at is
      obtain ⟨is, _⟩ | ⟨is, _⟩ | ⟨is, _⟩ := @clamp_cases c <;> omega
    have nonneg : 0 ≤ clamp s := clamp_nonneg (Int.natCast_nonneg s)
    rw [wrap_eq ⟨by omega, by omega⟩] at is
    obtain ⟨_, _⟩ | ⟨_, _⟩ | ⟨_, _⟩ := @clamp_cases s <;> obtain ⟨_, _⟩ | ⟨_, _⟩ | ⟨_, _⟩ :=
      @clamp_cases c <;>
      constructor <;> omega
  · rintro ⟨i, lt, eq⟩
    rw [Int.mul_one] at eq
    refine ⟨k, mem_progression.2 ⟨i, ?_, ?_⟩, wrap_eq ⟨by omega, by omega⟩⟩
    · obtain ⟨_, _⟩ | ⟨_, _⟩ | ⟨_, _⟩ := @clamp_cases c <;> omega
    · rw [clamp_small (by omega) (by omega), eq, Int.mul_one]

section Subplace

variable {ts : List Token} {p : Subplace} (P : IsSubplace ts p)
include P

lemma IsSubplace.fits (mem : cpu ∈ p.read.visits f) : InInt cpu := by
  cases P with
  | one n =>
    rw [mem_singleton.1 mem]
    exact clamp_inInt
  | run n c => exact runNumbers_fits clamp_inInt mem
  | strided n c S => exact stridedNumbers_fits clamp_inInt mem

lemma IsSubplace.denotes : p.Denotes (procs f) (availableOf (procs f) (p.read.visits f)) := by
  have top : intMax = 2147483647 := rfl
  cases P with
  | one n =>
    have same : availableOf (procs f) [clamp n] = availableOf (procs f) [(n : Int)] := by
      ext k
      rw [mem_availableOf, mem_availableOf, mem_singleton, mem_singleton]
      apply and_congr_right
      intro inAvail
      have lt_k : k < 1024 := lt_of_mem_procs inAvail
      obtain ⟨_, _⟩ | ⟨_, _⟩ | ⟨_, _⟩ := @clamp_cases n <;> constructor <;> omega
    exact ⟨Finset.subset_of_eq same, fun _ => same⟩
  | run n c =>
    have same : availableOf (procs f) (runNumbers (clamp c).toNat (clamp n)) =
      availableOf (procs f) (progression n c 1) :=
      Finset.ext fun k => run_read
    exact ⟨Finset.subset_of_eq same, fun _ => same⟩
  | @strided n c ts d S =>
    have bound : InInt (clamp d) := clamp_inInt
    have low : -intMax ≤ clamp d := by
      obtain ⟨_, _⟩ | ⟨_, _⟩ | ⟨_, _⟩ := @clamp_cases d <;> omega
    have high : clamp d ≤ intMax := by
      obtain ⟨_, _⟩ | ⟨_, _⟩ | ⟨_, _⟩ := @clamp_cases d <;> omega
    have marked (k : Nat) : k ∈ availableOf (procs f) (stridedNumbers f (clamp d) (clamp c).toNat (clamp n)) ↔
        ∃ i < c, (k : Int) = n + (i : Nat) * d ∧ ∀ l ≤ i, Available (procs f) (n + (l : Nat) * d) :=
      (mem_strided clamp_inInt low high).trans (strided_read (Int.natCast_nonneg n))
    constructor
    · intro k mem
      obtain ⟨i, lt, eq, all⟩ := (marked k).1 mem
      obtain ⟨j, inAvail, is⟩ := all i (Nat.le_refl i)
      have same : (j : Int) = k := is.trans eq.symm
      cases Int.natCast_inj.1 same
      exact mem_availableOf.2 ⟨inAvail, mem_progression.2 ⟨i, lt, eq⟩⟩
    · intro steady
      exact Finset.ext fun k => (marked k).trans (steady_iff (steady n c d rfl)).symm

lemma IsSubplace.hits_le : hitsOf (procs f) (p.read.visits f) ≤ hitsOf (procs f) p.read.numbers := by
  have top : intMax = 2147483647 := rfl
  cases P with
  | one n => exact Nat.le_refl _
  | run n c =>
    apply run_hits (clamp_nonneg (Int.natCast_nonneg n)) clamp_inInt
    obtain ⟨_, _⟩ | ⟨_, _⟩ | ⟨_, _⟩ := @clamp_cases c <;> omega
  | @strided n c ts d S =>
    apply strided_hits clamp_inInt
    · obtain ⟨_, _⟩ | ⟨_, _⟩ | ⟨_, _⟩ := @clamp_cases d <;> omega
    · obtain ⟨_, _⟩ | ⟨_, _⟩ | ⟨_, _⟩ := @clamp_cases d <;> omega

end Subplace

end Numbers

end Kupl.Places
