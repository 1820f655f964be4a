import Kupl.Script.Fence

/-!
# Broadcasts: the flags (`kupl_bcast.cpp`)

A broadcast works on the same offset of the windows of all ranks, byte by byte, and on three windows of counters, in
each of which every rank has a counter for every rank. What a rank does in a broadcast depends on the size of the
communicator, its rank and the root only, so that each algorithm is a script for each rank.

| source | here |
|---|---|
| `notify_root_win`, `notify_others_win`, `p2p_win` | `rootFlags`, `othersFlags`, `p2pFlags` |
| `kupl_memcpy` from one window to the other | `memcpy` |
| `notify_root`, `notify_others` | `notifyRoot`, `notifyOthers` |
| `kupl_shm_fence` | `fence` |

A counter is only counted up by one rank (`writer`), so that to count it up is one step; a wait that finds too little
leaves everything as it is.
-/

namespace Kupl.Bcast
open Script List

/-- The windows of counters, and the fences that ranks have come to. -/
inductive Win where
  | notifyRoot
  | notifyOthers
  | p2p
  | fence
deriving DecidableEq

/-- The counter for rank `id` in the window of a rank. -/
structure Flag where
  win : Win
  rank : Nat
  id : Nat
deriving DecidableEq

abbrev Byte := Nat × Nat

abbrev Code := List (Instr Flag Byte)

/-- The flags of `notify_root_win` at a rank. -/
def rootFlags (rank id : Nat) : Flag := ⟨.notifyRoot, rank, id⟩

/-- The flags of `notify_others_win` at a rank. -/
def othersFlags (rank id : Nat) : Flag := ⟨.notifyOthers, rank, id⟩

/-- The flags of `p2p_win` at a rank. -/
def p2pFlags (rank id : Nat) : Flag := ⟨.p2p, rank, id⟩

def fenceFlag (id : Nat) : Flag := ⟨.fence, id, id⟩

/-- (C++ `kupl_memcpy`). -/
def memcpy (dst src offset size : Nat) : Code :=
  (List.range size).map fun i => .copy (dst, offset + i) (src, offset + i)

/-- (C++ `notify_root`). -/
def notifyRoot (flags : Nat → Flag) (start end_ myid root : Nat) : Code :=
  if myid = root then
    .inc (flags myid) :: ((List.range' start (end_ - start)).filter fun i => myid ≠ i).map fun i =>
      .waitLe (flags myid) (flags i)
  else [.inc (flags myid)]

/-- (C++ `notify_others`). -/
def notifyOthers (flags : Nat → Flag) (myid root : Nat) : Code :=
  if myid = root then [.inc (flags root)]
  else [.waitLt (flags myid) (flags root), .inc (flags myid)]

/-- A fence (C++ `kupl_shm_fence`), by what it promises: nobody leaves it before all have come to it. -/
def fence (numprocs myid : Nat) : Code :=
  .inc (fenceFlag myid) :: (List.range numprocs).map fun i => .waitLe (fenceFlag myid) (fenceFlag i)

/-- A rank writes its first bytes to one rank after the other, and tells each that it has. -/
def help (tell : Nat → Flag) (ranks : List Nat) (myid size : Nat) : Code :=
  ranks.flatMap fun i => memcpy i myid 0 size ++ [.inc (tell i)]

/-- The rank that counts a flag up: its own one, but for `p2p_win` the rank that has the window. -/
def writer (f : Flag) : Nat := if f.win = .p2p then f.rank else f.id

variable {flags : Nat → Flag} {f : Flag} {start end_ myid root dst src offset size i q : Nat} {l l' : Byte}

/-! ## What stands in these scripts -/

lemma mem_memcpy : Instr.copy l l' ∈ memcpy dst src offset size ↔
    l.1 = dst ∧ l' = (src, l.2) ∧ offset ≤ l.2 ∧ l.2 < offset + size := by
  rw [memcpy, mem_map]
  constructor
  · rintro ⟨i, mem, is⟩
    have lt := mem_range.1 mem
    cases is
    exact ⟨rfl, rfl, by dsimp only; omega, by dsimp only; omega⟩
  · rintro ⟨rfl, rfl, le, lt⟩
    refine ⟨l.2 - offset, mem_range.2 (by omega), ?_⟩
    have back : offset + (l.2 - offset) = l.2 := by omega
    rw [back]

lemma memcpy_only {x : Instr Flag Byte} (mem : x ∈ memcpy dst src offset size) : ∃ l l', x = .copy l l' := by
  obtain ⟨i, -, rfl⟩ := mem_map.1 mem
  exact ⟨_, _, rfl⟩

lemma count_memcpy : (memcpy dst src offset size).count (.inc f) = 0 := by
  apply count_eq_zero.2
  intro mem
  obtain ⟨l, l', is⟩ := memcpy_only mem
  cases is

lemma copy_notMem_notifyRoot : Instr.copy l l' ∉ notifyRoot flags start end_ myid root := by
  rw [notifyRoot]
  split
  · rw [mem_cons, mem_map]
    rintro (is | ⟨i, -, is⟩)
    · cases is
    · cases is
  · rw [mem_singleton]
    nofun

lemma copy_notMem_notifyOthers : Instr.copy l l' ∉ notifyOthers flags myid root := by
  rw [notifyOthers]
  split
  · rw [mem_singleton]
    nofun
  · rw [mem_cons, mem_singleton]
    nofun

lemma add_notMem_memcpy {l a b : Byte} : Instr.add l a b ∉ memcpy dst src offset size := by
  intro mem
  obtain ⟨l, l', is⟩ := memcpy_only mem
  cases is

lemma add_notMem_notifyRoot {l a b : Byte} : Instr.add l a b ∉ notifyRoot flags start end_ myid root := by
  rw [notifyRoot]
  split
  · rw [mem_cons, mem_map]
    rintro (is | ⟨i, -, is⟩)
    · cases is
    · cases is
  · rw [mem_singleton]
    nofun

lemma add_notMem_notifyOthers {l a b : Byte} : Instr.add l a b ∉ notifyOthers flags myid root := by
  rw [notifyOthers]
  split
  · rw [mem_singleton]
    nofun
  · rw [mem_cons, mem_singleton]
    nofun

lemma load_notMem_notifyOthers {c : Flag} : .load c ∉ notifyOthers flags myid root := by
  rw [notifyOthers]
  split
  · rw [mem_singleton]
    nofun
  · rw [mem_cons, mem_singleton]
    nofun

lemma load_notMem_notifyRoot {c : Flag} : .load c ∉ notifyRoot flags start end_ myid root := by
  rw [notifyRoot]
  split
  · rw [mem_cons, mem_map]
    rintro (is | ⟨i, -, is⟩)
    · cases is
    · cases is
  · rw [mem_singleton]
    nofun

lemma load_notMem_memcpy {c : Flag} : .load c ∉ memcpy dst src offset size := by
  intro mem
  obtain ⟨l, l', is⟩ := memcpy_only mem
  cases is

lemma count_notifyRoot : (notifyRoot flags start end_ myid root).count (.inc f) = if f = flags myid then 1 else 0 := by
  have waits : (((List.range' start (end_ - start)).filter fun i => myid ≠ i).map fun i =>
      (.waitLe (flags myid) (flags i) : Instr Flag Byte)).count (.inc f) = 0 := by
    apply count_eq_zero.2
    intro mem
    obtain ⟨i, -, is⟩ := mem_map.1 mem
    cases is
  rw [notifyRoot]
  split
  · rw [← singleton_append, count_append, waits, count_inc, Nat.add_zero]
  · exact count_inc

lemma count_notifyOthers : (notifyOthers flags myid root).count (.inc f) = if f = flags myid then 1 else 0 := by
  rw [notifyOthers]
  split
  case isTrue isRoot =>
    rw [← isRoot]
    exact count_inc
  case isFalse =>
    have ne : (Instr.waitLt (flags myid) (flags root) : Instr Flag Byte) ≠ .inc f := nofun
    rw [count_cons_of_ne ne, count_inc]

lemma inc_mem_notifyRoot (mem : .inc f ∈ notifyRoot flags start end_ myid root) : f = flags myid := by
  have pos := count_pos_iff.2 mem
  rw [count_notifyRoot] at pos
  by_contra ne
  rw [if_neg ne] at pos
  cases pos

lemma inc_mem_notifyOthers (mem : .inc f ∈ notifyOthers flags myid root) : f = flags myid := by
  have pos := count_pos_iff.2 mem
  rw [count_notifyOthers] at pos
  by_contra ne
  rw [if_neg ne] at pos
  cases pos

lemma inc_notMem_memcpy : .inc f ∉ memcpy dst src offset size := by
  intro mem
  obtain ⟨l, l', is⟩ := memcpy_only mem
  cases is

lemma count_fence : (fence end_ myid).count (.inc f) = if f = fenceFlag myid then 1 else 0 := count_commFence

lemma mem_fence {x : Instr Flag Byte} (mem : x ∈ fence end_ myid) :
    (∃ f, x = .inc f) ∨ ∃ f f', x = .waitLe f f' := by
  obtain rfl | mem := mem_cons.1 mem
  · exact .inl ⟨_, rfl⟩
  · obtain ⟨i, -, rfl⟩ := mem_map.1 mem
    exact .inr ⟨_, _, rfl⟩

section Help
variable {tell : Nat → Flag} {L : List Nat} {d t : Code}

lemma mem_help {x : Instr Flag Byte} : x ∈ help tell L src size ↔
    ∃ i ∈ L, x ∈ memcpy i src 0 size ∨ x = .inc (tell i) := by
  rw [help, mem_flatMap]
  constructor
  · rintro ⟨i, mem, isX⟩
    rw [mem_append, mem_singleton] at isX
    exact ⟨i, mem, isX⟩
  · rintro ⟨i, mem, isX⟩
    refine ⟨i, mem, ?_⟩
    rw [mem_append, mem_singleton]
    exact isX

lemma count_help (inj : ∀ i j, tell i = tell j → i = j) :
    (help tell L src size).count (.inc (tell i)) = L.count i := by
  rw [help]
  induction L with
  | nil => rfl
  | cons j L ih =>
    rw [flatMap_cons, count_append, count_append, count_memcpy, ih, count_singleton, count_cons]
    by_cases same : j = i
    · rw [same, if_pos (beq_self_eq_true _), if_pos (beq_self_eq_true _)]
      omega
    · rw [if_neg fun h => same (inj _ _ (Instr.inc.inj (eq_of_beq h))), if_neg fun h => same (eq_of_beq h)]
      omega

lemma help_split (tell : Nat → Flag) (src size : Nat) (mem : i ∈ L) :
    ∃ u v, help tell L src size = (u ++ memcpy i src 0 size) ++ .inc (tell i) :: v := by
  obtain ⟨a, b, rfl⟩ := append_of_mem mem
  refine ⟨help tell a src size, help tell b src size, ?_⟩
  rw [help, flatMap_append, flatMap_cons]
  simp only [help, append_assoc, cons_append, nil_append]

lemma help_later (is : help tell L src size = d ++ .copy l l' :: t) : .inc (tell l.1) ∈ t := by
  obtain ⟨L₁, j, L₂, u, v, -, isJ, -, rfl⟩ := split_flatMap is.symm
  obtain ⟨v', here, rfl⟩ := split_left isJ.symm (by rw [mem_singleton]; nofun)
  have inJ : .copy l l' ∈ memcpy j src 0 size := by
    rw [here]
    exact mem_append_right u mem_cons_self
  obtain ⟨rfl, -⟩ := mem_memcpy.1 inJ
  exact mem_append_left _ (mem_append_right v' mem_cons_self)

end Help

lemma root_wait (flags : Nat → Flag) (le : start ≤ i) (lt : i < end_) (ne : root ≠ i) : ∃ u v,
    notifyRoot flags start end_ root root = .inc (flags root) :: u ++ .waitLe (flags root) (flags i) :: v ∧
    ∀ f, u.count (.inc f) = 0 := by
  have mem : i ∈ (List.range' start (end_ - start)).filter fun i => root ≠ i := by
    rw [mem_filter, mem_range'_1]
    exact ⟨by omega, decide_eq_true ne⟩
  obtain ⟨u, v, parts⟩ := append_of_mem mem
  refine ⟨u.map fun i => .waitLe (flags root) (flags i), v.map fun i => .waitLe (flags root) (flags i),
    ?_, fun f => ?_⟩
  · rw [notifyRoot, if_pos rfl, parts, map_append]
    rfl
  · apply count_eq_zero.2
    intro mem
    obtain ⟨i, -, is⟩ := mem_map.1 mem
    cases is

/-! ## What a rank knows behind them -/

section Run
variable {α : Type} [Add α] {n k : Nat} {prog : Nat → Code} {owner : Byte → Nat} {u v : Code}
  {s : State Flag Byte α}
  {g : State Flag Byte α → Label Byte α → Prop} (h : (machine n prog owner).Reach g s) {by_ : Flag → Nat}
  (own : ∀ p c, .inc c ∈ prog p → by_ c = p)
include h own

lemma notified (is : prog q = u ++ (notifyOthers flags q root ++ v)) (other : q ≠ root) (mine : by_ (flags q) = q)
    (theirs : by_ (flags root) = root) (O : s.Over q k (u ++ notifyOthers flags q root)) :
    k * (prog q).count (.inc (flags q)) + u.count (.inc (flags q)) < s.executed prog root (.inc (flags root)) := by
  rw [notifyOthers, if_neg other] at is O
  have lt := passed_lt own h mine is O.past
  rwa [theirs] at lt

lemma notified_has {u' v' : Code} (is : prog q = u ++ (notifyOthers flags q root ++ v)) (other : q ≠ root)
    (mine : by_ (flags q) = q) (theirs : by_ (flags root) = root) (O : s.Over q k (u ++ notifyOthers flags q root))
    (once : (prog q).count (.inc (flags q)) = 1) (none : u.count (.inc (flags q)) = 0)
    (is_root : prog root = u' ++ .inc (flags root) :: v') (once_root : (prog root).count (.inc (flags root)) = 1)
    (none_root : u'.count (.inc (flags root)) = 0) : ∀ x ∈ u' ++ [.inc (flags root)], s.Has root k x := by
  have ahead := notified h own is other mine theirs O
  rw [once, none] at ahead
  have past := past_of_count (split h root) is_root (k := k) (x := .inc (flags root))
    (by rw [once_root, none_root]; exact ahead)
  exact fun x mem => has_of_past (split h root) is_root past mem

lemma notified_root (is : prog root = u ++ (notifyRoot flags start end_ root root ++ v)) (le : start ≤ i)
    (lt : i < end_) (ne : root ≠ i) (mine : by_ (flags root) = root) (theirs : by_ (flags i) = i)
    (O : s.Over root k (u ++ notifyRoot flags start end_ root root)) :
    k * (prog root).count (.inc (flags root)) + u.count (.inc (flags root)) + 1 ≤
      s.executed prog i (.inc (flags i)) := by
  obtain ⟨a, b, parts, none⟩ := root_wait flags le lt ne
  have is' : prog root = (u ++ .inc (flags root) :: a) ++ .waitLe (flags root) (flags i) :: (b ++ v) := by
    rw [is, parts]
    simp only [append_assoc, cons_append]
  have O' : s.Over root k ((u ++ .inc (flags root) :: a) ++ .waitLe (flags root) (flags i) :: b) := by
    rw [parts] at O
    simpa only [append_assoc, cons_append] using O
  have le := passed_le own h mine is' O'.past
  rw [theirs, count_append, count_cons_self, none] at le
  omega

lemma fenced {u' v' : Code} (is : prog q = u ++ (fence n q ++ v)) (lt : i < n) (mine : ∀ i, by_ (fenceFlag i) = i)
    (O : s.Over q k (u ++ fence n q)) (once : ∀ i, (prog i).count (.inc (fenceFlag i)) = 1)
    (is' : prog i = u' ++ .inc (fenceFlag i) :: v') : ∀ x ∈ u' ++ [.inc (fenceFlag i)], s.Has i k x := by
  have B := fence_behind h own mine (fun i _ => (once i).trans (once q).symm) is O lt
  rw [Behind, once] at B
  have none : u'.count (.inc (fenceFlag i)) = 0 := by
    have all := once i
    rw [is', count_append, count_cons_self] at all
    omega
  have past := past_of_count (split h i) is' (k := k) (x := .inc (fenceFlag i)) (by rw [once, none]; omega)
  exact fun x mem => has_of_past (split h i) is' past mem

end Run

/-! ## What a broadcast promises -/

/-- In a state, who is about to return has what the root, which has come, had when it entered the same broadcast; and
who is about to copy a byte takes it from a rank that is in the same broadcast, and writes it to one that is. -/
structure Right {α : Type} (root size : Nat) (s : State Flag Byte α) : Prop where
  returns : ∀ p d, s.pc p = some (d, []) → ∀ o < size,
    Came s root (s.left p) ∧ s.val (p, o) = s.seen root (s.left p) (root, o)
  writes : ∀ q d t l l', s.pc q = some (d, .copy l l' :: t) → s.Inside l.1 (s.left q)
  reads : ∀ q d t l l', s.pc q = some (d, .copy l l' :: t) → s.Inside l'.1 (s.left q)

lemma right_out {α : Type} {s : State Flag Byte α} (out : ∀ p, s.pc p = none) : Right root size s := by
  refine ⟨fun p d at_p => ?_, fun q d t l l' at_q => ?_, fun q d t l l' at_q => ?_⟩
  · exact absurd (at_p.symm.trans (out p)) nofun
  · exact absurd (at_q.symm.trans (out q)) nofun
  · exact absurd (at_q.symm.trans (out q)) nofun

/-- A run after which the second of two ranks is about to return without a byte of the root shows a wrong state. -/
lemma shown_not_right {prog : Nat → Code} (w : List (Label Byte Nat)) (pos : 0 < size)
    (run : ((machine 2 prog Prod.fst).run (fun _ _ => True) (.fresh fun l => l.1 + 5) w).any (fun s => decide
      (s.left 1 = 0 ∧ (s.pc 1).map (·.2) = some [] ∧ s.val (1, 0) ≠ s.seen 0 0 (0, 0))) = true) :
    ∃ s : State Flag Byte Nat, (machine 2 prog Prod.fst).Reachable s ∧ ¬ Right 0 size s := by
  refine Machine.shown w init_fresh run fun s _ is R => ?_
  obtain ⟨left, at_end, wrong⟩ := is
  obtain ⟨⟨d, t⟩, at_p, rfl⟩ := Option.map_eq_some_iff.1 at_end
  have value := (R.returns 1 d at_p 0 pos).2
  rw [left] at value
  exact wrong value

lemma right_of {α : Type} [Add α] {n : Nat} {prog : Nat → Code} {s : State Flag Byte α}
    {g : State Flag Byte α → Label Byte α → Prop} (cop : Copies prog Prod.fst (fun l => (root, l.2)) root)
    (safe : ∀ s, (machine n prog Prod.fst).Reach g s → Safe prog Prod.fst root s)
    (h : (machine n prog Prod.fst).Reach g s)
    (all : ∀ p d, s.pc p = some (d, []) → ∀ o < size, p = root ∨ Written prog s (p, o) (s.left p)) :
    Right root size s := by
  refine ⟨fun p d at_p o lt => ?_, fun q d t l l' at_q => (safe s h q d t l l' at_q).1,
    fun q d t l l' at_q => (safe s h q d t l l' at_q).2.1⟩
  have S := spread cop safe h
  have ready := all p d at_p o lt
  refine ⟨?_, S.value (p, o) (s.left p) (State.inside_in at_p) ready⟩
  obtain rfl | W := ready
  · exact .inr (State.inside_in at_p)
  · exact (S.came _ _ W).2

end Kupl.Bcast
