import Kupl.Bcast.Notify

/-!
# The pipelined broadcast in a ring (`do_bcast_ring_pipeline`)

The root waits until all have come. Then each rank hands the buffer on to the next one, chunk by chunk; it does so with
a chunk when the rank before it has told that it has written this chunk. The last rank hands nothing on.

Who hands a chunk on knows that all ranks before it have done so (`handed`), and with them the root; so all have come
(`ready`). The next rank waits for this chunk, so that it cannot have left.
-/

namespace Kupl.Bcast.Ring
open Script List

def chunkSize : Nat := 8192

def numChunks (count : Nat) : Nat := (count + chunkSize - 1) / chunkSize

def currChunkSize (count i : Nat) : Nat :=
  if i = numChunks count - 1 then count - i * chunkSize else chunkSize

def next (numprocs myid : Nat) : Nat := (myid + 1) % numprocs

def prev (numprocs myid : Nat) : Nat := (myid + numprocs - 1) % numprocs

def chunk (numprocs count root myid i : Nat) : Code :=
  if myid = root then
    memcpy (next numprocs myid) myid (i * chunkSize) (currChunkSize count i) ++
      notifyOthers (othersFlags root) myid myid
  else
    notifyOthers (othersFlags (prev numprocs myid)) myid (prev numprocs myid) ++
      if myid ≠ (root + numprocs - 1) % numprocs then
        memcpy (next numprocs myid) myid (i * chunkSize) (currChunkSize count i) ++
          notifyOthers (othersFlags myid) myid myid
      else []

/-- What a rank does before the loop. -/
def start (numprocs root myid : Nat) : Code :=
  notifyOthers (othersFlags root) myid root ++ notifyRoot (rootFlags root) 0 numprocs myid root

/-- (C++ `do_bcast_ring_pipeline`). -/
def doBcastRingPipeline (numprocs count root myid : Nat) : Code :=
  start numprocs root myid ++ (List.range (numChunks count)).flatMap (chunk numprocs count root myid)

variable {α : Type} [Add α] {n size root p q i k : Nat} {s : State Flag Byte α} {d t : Code} {f : Flag} {l l' : Byte}
  {g : State Flag Byte α → Label Byte α → Prop}

/-! ## The ring -/

section
variable (lt : p < n)
include lt

lemma next_eq : next n p = if p + 1 = n then 0 else p + 1 := by
  rw [next]
  split
  case isTrue last => rw [last, Nat.mod_self]
  case isFalse => exact Nat.mod_eq_of_lt (by omega)

lemma prev_eq : prev n p = if p = 0 then n - 1 else p - 1 := by
  rw [prev]
  split
  case isTrue first =>
    rw [first, Nat.zero_add]
    exact Nat.mod_eq_of_lt (by omega)
  case isFalse =>
    have back : p + n - 1 = p - 1 + n := by omega
    rw [back, Nat.add_mod_right]
    exact Nat.mod_eq_of_lt (by omega)

lemma prev_lt : prev n p < n := Nat.mod_lt _ (by omega)

lemma next_lt : next n p < n := Nat.mod_lt _ (by omega)

lemma prev_next : prev n (next n p) = p := by
  rw [prev_eq (next_lt lt), next_eq lt]
  split <;> split <;> omega

lemma next_prev : next n (prev n p) = p := by
  rw [next_eq (prev_lt lt), prev_eq lt]
  split <;> split <;> omega

lemma prev_ne (other : root < n) (ne : p ≠ root) : prev n p ≠ p := by
  rw [prev_eq lt]
  split
  · omega
  · omega

end

def behind (n root p : Nat) : Nat := if root ≤ p then p - root else p + n - root

lemma behind_prev (lt : p < n) (other : root < n) (ne : p ≠ root) : behind n root (prev n p) < behind n root p := by
  rw [behind, behind, prev_eq lt]
  split <;> split <;> split <;> omega

/-- Who hands a buffer on: all but the rank before the root, and the root. -/
def Forwards (n root p : Nat) : Prop := p = root ∨ p ≠ prev n root

lemma forwards_prev (lt : p < n) (other : root < n) (ne : p ≠ root) : Forwards n root (prev n p) := by
  right
  intro same
  apply ne
  rw [← next_prev lt, same, next_prev other]

lemma next_ne (lt : p < n) (fw : Forwards n root p) (other : next n p ≠ p) : next n p ≠ root := by
  obtain rfl | ne := fw
  · exact other
  · intro same
    apply ne
    rw [← same, prev_next lt]

/-! ## What stands in the scripts -/

/-- A rank waits for a chunk. -/
def arrive (n root p : Nat) : Code := if p = root then [] else notifyOthers (othersFlags (prev n p)) p (prev n p)

def write (n size p i : Nat) : Code := memcpy (next n p) p (i * chunkSize) (currChunkSize size i)

lemma tell {flags : Nat → Flag} : notifyOthers flags p p = [.inc (flags p)] := by
  rw [notifyOthers, if_pos rfl]

lemma chunk_forwards (fw : Forwards n root p) :
    chunk n size root p i = arrive n root p ++ (write n size p i ++ [.inc (othersFlags p p)]) := by
  rw [chunk, arrive]
  split
  case isTrue isRoot =>
    rw [isRoot, tell]
    rfl
  case isFalse other =>
    rw [← prev, if_pos (fw.resolve_left other), tell]
    rfl

lemma chunk_last (fw : ¬ Forwards n root p) : chunk n size root p i = arrive n root p := by
  rw [Forwards, not_or, not_not] at fw
  rw [chunk, arrive, if_neg fw.1, if_neg fw.1, ← prev, if_neg (not_not.2 fw.2), append_nil]

lemma count_arrive (ne : p ≠ root) : (arrive n root p).count (.inc f) = if f =
    othersFlags (prev n p) p then 1 else 0 := by
  rw [arrive, if_neg ne, count_notifyOthers]

lemma count_arrive_forward (lt : p < n) (other : root < n) : (arrive n root p).count (.inc (othersFlags p p)) = 0 := by
  by_cases isRoot : p = root
  · rw [arrive, if_pos isRoot]
    rfl
  · rw [count_arrive isRoot, if_neg]
    intro is
    exact prev_ne lt other isRoot (congrArg Flag.rank is).symm

lemma count_write : (write n size p i).count (.inc f) = 0 := count_memcpy

lemma count_chunk_forward (lt : p < n) (other : root < n) (fw : Forwards n root p) :
    (chunk n size root p i).count (.inc (othersFlags p p)) = 1 := by
  rw [chunk_forwards fw, count_append, count_append, count_arrive_forward lt other, count_write,
    count_singleton_self]

lemma count_chunk_arrive (lt : p < n) (other : root < n) (ne : p ≠ root) :
    (chunk n size root p i).count (.inc (othersFlags (prev n p) p)) = 1 := by
  have no : ([.inc (othersFlags p p)] : Code).count (.inc (othersFlags (prev n p) p)) = 0 := by
    apply count_eq_zero.2
    rw [mem_singleton]
    intro is
    exact prev_ne lt other ne (congrArg Flag.rank (Instr.inc.inj is))
  by_cases fw : Forwards n root p
  · rw [chunk_forwards fw, count_append, count_append, count_arrive ne, count_write, no, if_pos rfl]
  · rw [chunk_last fw, count_arrive ne, if_pos rfl]

variable {x : Instr Flag Byte}

lemma count_chunks (one : ∀ i, (chunk n size root p i).count x = 1) (L : List Nat) :
    (L.flatMap (chunk n size root p)).count x = L.length := by
  induction L with
  | nil => rfl
  | cons i L ih => rw [flatMap_cons, count_append, one, ih, length_cons, Nat.add_comm]

lemma count_start : (start n root p).count (.inc f) =
    (if f = othersFlags root p then 1 else 0) + if f = rootFlags root p then 1 else 0 := by
  rw [start, count_append, count_notifyOthers, count_notifyRoot]

/-- How often the root is ahead of its chunks. -/
def base (root p : Nat) : Nat := if p = root then 1 else 0

lemma count_start_forward : (start n root p).count (.inc (othersFlags p p)) = base root p := by
  rw [count_start, base, if_neg (c := othersFlags p p = rootFlags root p) nofun, Nat.add_zero]
  by_cases isRoot : p = root
  · rw [isRoot, if_pos rfl, if_pos rfl]
  · rw [if_neg isRoot, if_neg fun is => isRoot (congrArg Flag.rank is)]

lemma count_start_arrive : (start n root p).count (.inc (othersFlags (prev n p) p)) = base root (prev n p) := by
  rw [count_start, base, if_neg (c := othersFlags (prev n p) p = rootFlags root p) nofun, Nat.add_zero]
  by_cases isRoot : prev n p = root
  · rw [isRoot, if_pos rfl, if_pos rfl]
  · rw [if_neg isRoot, if_neg fun is => isRoot (congrArg Flag.rank is)]

lemma mem_chunk (mem : x ∈ chunk n size root p i) :
    (∃ r, x ∈ notifyOthers (othersFlags r) p r) ∨ x ∈ write n size p i ∨ x = .inc (othersFlags p p) := by
  have waits (mem : x ∈ arrive n root p) : ∃ r, x ∈ notifyOthers (othersFlags r) p r := by
    rw [arrive] at mem
    split at mem
    · cases mem
    · exact ⟨_, mem⟩
  by_cases fw : Forwards n root p
  · rw [chunk_forwards fw, mem_append, mem_append, mem_singleton] at mem
    exact mem.imp_left waits
  · rw [chunk_last fw] at mem
    exact .inl (waits mem)

lemma chunk_inc (mem : .inc f ∈ chunk n size root p i) : ∃ r, f = othersFlags r p := by
  obtain ⟨r, mem⟩ | mem | is := mem_chunk mem
  · exact ⟨r, inc_mem_notifyOthers mem⟩
  · exact absurd mem inc_notMem_memcpy
  · exact ⟨p, Instr.inc.inj is⟩

lemma mem_script (mem : x ∈ doBcastRingPipeline n size root p) :
    x ∈ notifyOthers (othersFlags root) p root ∨ x ∈ notifyRoot (rootFlags root) 0 n p root ∨
      ∃ i, x ∈ chunk n size root p i := by
  rw [doBcastRingPipeline, start, mem_append, mem_append, mem_flatMap, or_assoc] at mem
  exact mem.imp_right (Or.imp_right fun ⟨i, _, mem⟩ => ⟨i, mem⟩)

lemma own {p : Nat} {c : Flag} (mem : .inc c ∈ doBcastRingPipeline n size root p) : writer c = p := by
  obtain mem | mem | ⟨i, mem⟩ := mem_script mem
  · rw [inc_mem_notifyOthers mem]
    rfl
  · rw [inc_mem_notifyRoot mem]
    rfl
  · obtain ⟨r, rfl⟩ := chunk_inc mem
    rfl

lemma count_root : (doBcastRingPipeline n size root p).count (.inc (rootFlags root p)) = 1 := by
  have none (L : List Nat) : (L.flatMap (chunk n size root p)).count (.inc (rootFlags root p)) = 0 := by
    apply count_eq_zero.2
    rw [mem_flatMap]
    rintro ⟨i, -, mem⟩
    obtain ⟨r, is⟩ := chunk_inc mem
    cases is
  rw [doBcastRingPipeline, count_append, none, count_start, if_pos rfl,
    if_neg (c := rootFlags root p = othersFlags root p) nofun]

/-- What a rank has done in a broadcast before a chunk. -/
def before (n size root p i : Nat) : Code := start n root p ++ (List.range i).flatMap (chunk n size root p)

lemma parts (n root p : Nat) (lt : i < numChunks size) : ∃ v, doBcastRingPipeline n size root p =
    before n size root p i ++ (chunk n size root p i ++ v) := by
  have rest : List.range (numChunks size) = List.range i ++ i :: List.range' (i + 1) (numChunks size - (i + 1)) := by
    rw [range_eq_range', range_eq_range', ← List.range'_succ]
    have all : numChunks size = i + (numChunks size - (i + 1) + 1) := by omega
    conv_lhs => rw [all]
    rw [← List.range'_append_1, Nat.zero_add]
  refine ⟨(List.range' (i + 1) (numChunks size - (i + 1))).flatMap (chunk n size root p), ?_⟩
  rw [doBcastRingPipeline, before, rest, flatMap_append, flatMap_cons, append_assoc]

lemma parts_arrive (n root p : Nat) (lt : i < numChunks size) : ∃ v, doBcastRingPipeline n size root p =
    (before n size root p i ++ arrive n root p) ++ v := by
  obtain ⟨v, is⟩ := parts n root p lt
  rw [is]
  by_cases fw : Forwards n root p
  · rw [chunk_forwards fw]
    exact ⟨write n size p i ++ [.inc (othersFlags p p)] ++ v, by simp only [append_assoc]⟩
  · rw [chunk_last fw]
    exact ⟨v, by rw [append_assoc]⟩

lemma count_before_forward (lt : p < n) (other : root < n) (fw : Forwards n root p) :
    (before n size root p i).count (.inc (othersFlags p p)) = base root p + i := by
  rw [before, count_append, count_start_forward, count_chunks fun i => count_chunk_forward lt other fw,
    length_range]

lemma count_before_arrive (lt : p < n) (other : root < n) (ne : p ≠ root) :
    (before n size root p i).count (.inc (othersFlags (prev n p) p)) = base root (prev n p) + i := by
  rw [before, count_append, count_start_arrive, count_chunks fun i => count_chunk_arrive lt other ne,
    length_range]

lemma chunk_of {o : Nat} (lt : o < size) : o / chunkSize < numChunks size ∧ o / chunkSize * chunkSize ≤ o ∧
    o < o / chunkSize * chunkSize + currChunkSize size (o / chunkSize) := by
  rw [currChunkSize, numChunks, chunkSize]
  refine ⟨by omega, by omega, ?_⟩
  split
  · omega
  · omega

section Run
variable (h : (machine n (doBcastRingPipeline n size root) Prod.fst).Reach g s) (other : root < n)
include h other

lemma ahead (lt : p < n) (ne : p ≠ root) (lt_i : i < numChunks size)
    (O : s.Over p k (before n size root p i ++ arrive n root p)) :
    k * (base root (prev n p) + numChunks size) + (base root (prev n p) + i) <
      s.executed (doBcastRingPipeline n size root) (prev n p) (.inc (othersFlags (prev n p) (prev n p))) := by
  obtain ⟨v, is⟩ := parts_arrive n root p lt_i
  rw [append_assoc, arrive, if_neg ne] at is
  rw [arrive, if_neg ne] at O
  have less := notified h (fun p c => own) is (prev_ne lt other ne).symm rfl rfl O
  have all : (before n size root p (numChunks size)).count (.inc (othersFlags (prev n p) p)) =
      base root (prev n p) + numChunks size := count_before_arrive lt other ne
  rwa [count_before_arrive lt other ne, doBcastRingPipeline, ← before, all] at less

lemma past_write (lt : p < n) (fw : Forwards n root p) (lt_i : i < numChunks size)
    (more : k * (base root p + numChunks size) + (base root p + i) <
      s.executed (doBcastRingPipeline n size root) p (.inc (othersFlags p p))) :
    s.Past p k (before n size root p i ++ (arrive n root p ++ write n size p i)) ∧
      ∀ x ∈ write n size p i, s.Has p k x := by
  obtain ⟨v, is⟩ := parts n root p lt_i
  have is' : doBcastRingPipeline n size root p = (before n size root p i ++ (arrive n root p ++ write n size p i)) ++
      .inc (othersFlags p p) :: v := by
    rw [is, chunk_forwards fw]
    simp only [append_assoc, cons_append, nil_append]
  have all : (before n size root p (numChunks size)).count (.inc (othersFlags p p)) = base root p + numChunks size :=
    count_before_forward lt other fw
  have past : s.Past p k (before n size root p i ++ (arrive n root p ++ write n size p i)) := by
    refine past_of_count (split h p) is' (x := .inc (othersFlags p p)) ?_
    rw [count_append, count_append, count_arrive_forward lt other, count_write,
      count_before_forward lt other fw, doBcastRingPipeline, ← before, all]
    exact more
  refine ⟨past, fun x mem => has_of_past (split h p) is' past ?_⟩
  exact mem_append_left _ (mem_append_right _ (mem_append_right _ mem))

lemma handed (lt : p < n) (ne : p ≠ root) (lt_i : i < numChunks size)
    (O : s.Over p k (before n size root p i ++ arrive n root p)) :
    s.Past (prev n p) k (before n size root (prev n p) i ++ (arrive n root (prev n p) ++ write n size (prev n p) i)) ∧
      ∀ x ∈ write n size (prev n p) i, s.Has (prev n p) k x :=
  past_write h other (prev_lt lt) (forwards_prev lt other ne) lt_i (ahead h other lt ne lt_i O)

lemma ready (lt : p < n) (lt_i : i < numChunks size) (O : s.Over p k (before n size root p i ++ arrive n root p)) :
    s.Over root k (start n root root) := by
  induction far : behind n root p using Nat.strong_induction_on generalizing p with
  | _ m ih =>
    by_cases isRoot : p = root
    · rw [isRoot, before, append_assoc] at O
      exact O.first
    · have P := (handed h other lt isRoot lt_i O).1
      rw [← append_assoc] at P
      exact ih _ (far ▸ behind_prev lt other isRoot) (prev_lt lt) P.upTo rfl

omit other in
lemma come (lt : p < n) (ne : p ≠ root) (O : s.Over root k (start n root root)) :
    s.Has p k (.inc (rootFlags root p)) := by
  have is : doBcastRingPipeline n size root root = notifyOthers (othersFlags root) root root ++
      (notifyRoot (rootFlags root) 0 n root root ++
      (List.range (numChunks size)).flatMap (chunk n size root root)) := by
    rw [doBcastRingPipeline, start, append_assoc]
  have behind := notified_root h (fun p c => own) is (Nat.zero_le p) lt ne.symm rfl rfl O
  have theirs : doBcastRingPipeline n size root p = notifyOthers (othersFlags root) p root ++
      .inc (rootFlags root p) :: (List.range (numChunks size)).flatMap (chunk n size root p) := by
    rw [doBcastRingPipeline, start, notifyRoot, if_neg ne]
    simp only [append_assoc, cons_append, nil_append]
  have none : (notifyOthers (othersFlags root) p root).count (.inc (rootFlags root p)) = 0 := by
    rw [count_notifyOthers, if_neg (by rintro ⟨⟩)]
  rw [count_root] at behind
  have past := past_of_count (split h p) theirs (k := k) (x := .inc (rootFlags root p))
    (by rw [count_root, none]; omega)
  exact has_of_past (split h p) theirs past (mem_append_right _ mem_cons_self)

lemma written {o : Nat} (lt : p < n) (ne : p ≠ root) (lt_i : i < numChunks size) (le : i * chunkSize ≤ o)
    (lt_o : o < i * chunkSize + currChunkSize size i) (O : s.Over p k (before n size root p i ++ arrive n root p)) :
    Written (doBcastRingPipeline n size root) s (p, o) k := by
  have mem : .copy (p, o) (prev n p, o) ∈ write n size (prev n p) i :=
    mem_memcpy.2 ⟨(next_prev lt).symm, rfl, le, lt_o⟩
  refine ⟨prev n p, (prev n p, o), ?_, (handed h other lt ne lt_i O).2 _ mem⟩
  obtain ⟨v, is⟩ := parts n root (prev n p) lt_i
  rw [is, chunk_forwards (forwards_prev lt other ne)]
  simp only [mem_append]
  exact .inr (.inl (.inr (.inl mem)))

omit other in
lemma at_copy (at_q : s.pc q = some (d, .copy l l' :: t)) : Forwards n root q ∧ ∃ i < numChunks size, ∃ d' t',
    d = before n size root q i ++ (arrive n root q ++ d') ∧ write n size q i = d' ++ .copy l l' :: t' := by
  have whole := split h q d _ at_q
  have not_start : .copy l l' ∉ start n root q := by
    rw [start, mem_append]
    rintro (mem | mem)
    · exact copy_notMem_notifyOthers mem
    · exact copy_notMem_notifyRoot mem
  have not_arrive : .copy l l' ∉ arrive n root q := by
    rw [arrive]
    split
    · exact not_mem_nil
    · exact copy_notMem_notifyOthers
  rw [doBcastRingPipeline] at whole
  obtain ⟨d₁, rfl, rest⟩ := split_right whole not_start
  obtain ⟨L₁, i, L₂, d₂, t₂, isRange, here, rfl, -⟩ := split_flatMap rest.symm
  obtain ⟨lt_i, rfl⟩ := split_range isRange
  by_cases fw : Forwards n root q
  · rw [chunk_forwards fw] at here
    obtain ⟨d₃, rfl, rest₃⟩ := split_right here.symm not_arrive
    obtain ⟨t₃, here₃, -⟩ := split_left rest₃.symm (by rw [mem_singleton]; nofun)
    exact ⟨fw, i, lt_i, d₃, t₃, by rw [before, append_assoc], here₃⟩
  · rw [chunk_last fw] at here
    refine absurd ?_ not_arrive
    rw [here]
    exact mem_append_right d₂ mem_cons_self

lemma next_inside (at_q : s.pc q = some (d, .copy l l' :: t)) : s.Inside (next n q) (s.left q) := by
  have lt : q < n := rank_lt h (by rw [at_q]; nofun)
  obtain ⟨fw, i, lt_i, d', t', isD, here⟩ := at_copy h at_q
  by_cases alone : next n q = q
  · rw [alone]
    exact State.inside_in at_q
  · have ne := next_ne lt fw alone
    have beyond : s.Over q (s.left q) (before n size root q i ++ arrive n root q) := by
      rw [isD, ← append_assoc] at at_q
      exact over_in at_q
    have came := come h (next_lt lt) ne (ready h other lt lt_i beyond)
    refine inside_of_has came ?_
    by_contra gone
    -- the next rank waits for what is told behind this chunk
    have all : s.Over (next n q) (s.left q) (before n size root (next n q) i ++ arrive n root (next n q)) :=
      over_left (Nat.lt_of_not_le gone)
    have less := ahead h other (next_lt lt) ne lt_i all
    have total : (before n size root q (numChunks size)).count (.inc (othersFlags q q)) =
      base root q + numChunks size :=
      count_before_forward lt other fw
    have none : (write n size q i).count (.inc (othersFlags q q)) = 0 := count_write
    rw [here, count_append] at none
    rw [prev_next lt, State.executed, State.done_in at_q, doBcastRingPipeline, ← before, total, isD,
      count_append, count_append, count_before_forward lt other fw, count_arrive_forward lt other] at less
    omega

lemma safe : Safe (doBcastRingPipeline n size root) Prod.fst root s := by
  intro q d t l l' at_q
  have lt : q < n := rank_lt h (by rw [at_q]; nofun)
  obtain ⟨fw, i, lt_i, d', t', isD, here⟩ := at_copy h at_q
  have mem : .copy l l' ∈ write n size q i := by
    rw [here]
    exact mem_append_right d' mem_cons_self
  obtain ⟨isNext, rfl, le, lt_o⟩ := mem_memcpy.1 mem
  refine ⟨?_, State.inside_in at_q, ?_⟩
  · rw [isNext]
    exact next_inside h other at_q
  · by_cases isRoot : q = root
    · exact .inl isRoot
    · right
      rw [isD, ← append_assoc] at at_q
      exact written h other lt isRoot lt_i le lt_o (over_in at_q)

end Run

lemma copies : Copies (doBcastRingPipeline n size root) Prod.fst (fun l => (root, l.2)) root := by
  refine ⟨fun l isRoot => ?_, fun p l l' mem => ?_, fun p l a b mem => ?_⟩
  · rw [← isRoot]
  · obtain mem | mem | ⟨i, mem⟩ := mem_script mem
    · exact absurd mem copy_notMem_notifyOthers
    · exact absurd mem copy_notMem_notifyRoot
    · obtain ⟨r, mem⟩ | mem | is := mem_chunk mem
      · exact absurd mem copy_notMem_notifyOthers
      · obtain ⟨-, rfl, -⟩ := mem_memcpy.1 mem
        rfl
      · cases is
  · obtain mem | mem | ⟨i, mem⟩ := mem_script mem
    · exact add_notMem_notifyOthers mem
    · exact add_notMem_notifyRoot mem
    · obtain ⟨r, mem⟩ | mem | is := mem_chunk mem
      · exact add_notMem_notifyOthers mem
      · exact add_notMem_memcpy mem
      · cases is

lemma right (h : (machine n (doBcastRingPipeline n size root) Prod.fst).Reach g s) (other : root < n) :
    Right root size s := by
  refine right_of copies (fun s h => safe h other) h fun p d at_p o lt => ?_
  by_cases isRoot : p = root
  · exact .inl isRoot
  · have all := split h p d [] at_p
    rw [append_nil] at all
    obtain ⟨lt_i, le, lt_o⟩ := chunk_of lt
    have beyond : s.Over p (s.left p) (before n size root p (o / chunkSize) ++ arrive n root p) := by
      obtain ⟨v, is⟩ := parts_arrive n root p lt_i
      rw [all, is] at at_p
      exact over_in at_p
    exact .inr (written h other (rank_lt h (by rw [at_p]; nofun)) isRoot lt_i le lt_o beyond)

end Kupl.Bcast.Ring
