import Kupl.Bcast.Topo
import Mathlib.Data.List.Nodup

/-!
# The topology-aware broadcast with help of the leaders (`do_bcast_linear_topo_opt`)

As in the topology-aware broadcast the leaders copy the buffer of the root. Each then writes the first bytes, the head,
to the other ranks of its group, which copy the rest, the tail, and wait in the end until their leader has told that it
has written. What they wait for is the number of broadcasts that the root has come to, and they look it up before they
know that the root has come to this one.
-/

namespace Kupl.Bcast.TopoOpt
open Script Topo List

/-- The bytes that a leader writes to the other ranks of its group. -/
def leaderMemcpySize (split numprocs dataSize myid : Nat) : Nat :=
  let subsize := subsize split numprocs
  if ngroup subsize myid ≠ split - 1 then dataSize / subsize
  else dataSize / (numprocs - localLeaderId subsize myid)

/-- The ranks to which a leader writes. -/
def members (subsize numprocs myid : Nat) : List Nat :=
  List.range' (myid + 1) (min (myid + subsize) numprocs - (myid + 1))

/-- The root announces the broadcast; all look up how often it has. -/
def sample (root myid : Nat) : Code :=
  (if myid = root then [.inc (p2pFlags root root)] else []) ++ [.load (p2pFlags root root)]

/-- What a rank does to get the head or the tail to where it belongs. -/
def share (split numprocs dataSize myid : Nat) : Code :=
  let subsize := subsize split numprocs
  let leaderMemcpySize := leaderMemcpySize split numprocs dataSize myid
  if myid ≠ localLeaderId subsize myid then
    memcpy myid (localLeaderId subsize myid) leaderMemcpySize (dataSize - leaderMemcpySize)
  else help (fun i => p2pFlags i i) (members subsize numprocs myid) myid leaderMemcpySize

/-- (C++ `do_bcast_linear_topo_opt`). -/
def doBcastLinearTopoOpt (split numprocs dataSize root myid : Nat) : Code :=
  let subsize := subsize split numprocs
  sample root myid ++ (lead subsize dataSize root myid ++ (follow subsize myid ++
    (notifyLeader subsize numprocs myid ++ (share split numprocs dataSize myid ++
    (notifyLeader subsize numprocs myid ++
    if myid ≠ localLeaderId subsize myid then [.waitReg (p2pFlags myid myid)] else [])))))

/-- The root returns only when the leaders of the other groups have copied its buffer, and who is no leader looks up how
often the root has announced a broadcast only when it has announced this one. -/
def Waits {α : Type} (split n size : Nat) (s : State Flag Byte α) : Label Byte α → Prop
  | .ret p => p = 0 → ∀ q < n, 0 < q → q % subsize split n = 0 →
    s.Over q (s.left 0) (sample 0 q ++ lead (subsize split n) size 0 q)
  | .run p => p % subsize split n ≠ 0 → s.next p = some (.load (p2pFlags 0 0)) → s.left p < s.count (p2pFlags 0 0)
  | _ => True

instance {α : Type} {split n size : Nat} {s : State Flag Byte α} {a : Label Byte α} :
    Decidable (Waits split n size s a) :=
  match a with
  | .ret p => inferInstanceAs (Decidable (p = 0 → ∀ q < n, 0 < q → q % subsize split n = 0 →
    s.Over q (s.left 0) (sample 0 q ++ lead (subsize split n) size 0 q)))
  | .run p => inferInstanceAs (Decidable (p % subsize split n ≠ 0 → s.next p = some (.load (p2pFlags 0 0)) →
    s.left p < s.count (p2pFlags 0 0)))
  | .enter _ | .set _ _ => isTrue trivial

/-- A flag of `p2p_win` is counted up by the leader of its rank. -/
def writer (m : Nat) (f : Flag) : Nat := if f.win = .p2p then localLeaderId m f.rank else f.id

variable {α : Type} [Add α] {split n m size head root p q i k : Nat} {s : State Flag Byte α} {d t : Code} {f : Flag}
  {l l' : Byte} {g : State Flag Byte α → Label Byte α → Prop}

/-! ## What stands in the scripts -/

lemma mem_members (pos : 0 < m) (isLeader : q % m = 0) :
    i ∈ members m n q ↔ i < n ∧ i % m ≠ 0 ∧ localLeaderId m i = q := by
  have parts := Nat.div_add_mod q m
  have parts' := Nat.div_add_mod i m
  have lt := Nat.mod_lt i pos
  rw [members, mem_range'_1, localLeaderId, ngroup]
  constructor
  · rintro ⟨le, lt'⟩
    have between : i / m = q / m := by
      apply Nat.div_eq_of_lt_le
      · rw [Nat.mul_comm]
        omega
      · rw [Nat.succ_mul, Nat.mul_comm]
        omega
    refine ⟨by omega, ?_, ?_⟩
    · intro isLeader'
      rw [between] at parts'
      omega
    · rw [between]
      omega
  · rintro ⟨lt_n, not, isQ⟩
    omega

lemma tell_inj (i j : Nat) (same : p2pFlags i i = p2pFlags j j) : i = j := congrArg Flag.id same

lemma count_members_help (pos : 0 < m) (lt : i < n) (member : i % m ≠ 0) :
    (help (fun i => p2pFlags i i) (members m n (localLeaderId m i)) (localLeaderId m i) head).count
      (.inc (p2pFlags i i)) = 1 := by
  rw [count_help tell_inj]
  apply count_eq_one_of_mem
  · exact nodup_range'
  · exact (mem_members pos leader_mod).2 ⟨lt, member, rfl⟩

variable {x : Instr Flag Byte}

lemma mem_sample (mem : x ∈ sample root p) :
    (p = root ∧ x = .inc (p2pFlags root root)) ∨ x = .load (p2pFlags root root) := by
  rw [sample, mem_append, mem_singleton] at mem
  obtain mem | is := mem
  · split at mem
    case isTrue isRoot => exact .inl ⟨isRoot, mem_singleton.1 mem⟩
    case isFalse => cases mem
  · exact .inr is

lemma mem_script (mem : x ∈ doBcastLinearTopoOpt split n size root p) :
    x ∈ sample root p ∨ x ∈ lead (subsize split n) size root p ∨ x ∈ follow (subsize split n) p ∨
    x ∈ notifyLeader (subsize split n) n p ∨ x ∈ share split n size p ∨ x = .waitReg (p2pFlags p p) := by
  rw [doBcastLinearTopoOpt] at mem
  simp only [mem_append] at mem
  obtain mem | mem | mem | mem | mem | mem | mem := mem
  · exact .inl mem
  · exact .inr (.inl mem)
  · exact .inr (.inr (.inl mem))
  · exact .inr (.inr (.inr (.inl mem)))
  · exact .inr (.inr (.inr (.inr (.inl mem))))
  · exact .inr (.inr (.inr (.inl mem)))
  · split at mem
    · exact .inr (.inr (.inr (.inr (.inr (mem_singleton.1 mem)))))
    · cases mem

lemma share_member (member : p % subsize split n ≠ 0) : share split n size p =
    memcpy p (localLeaderId (subsize split n) p) (leaderMemcpySize split n size p)
      (size - leaderMemcpySize split n size p) := by
  rw [share]
  exact if_pos fun same => member (leader_eq.1 same.symm)

lemma share_leader (isLeader : p % subsize split n = 0) : share split n size p =
    help (fun i => p2pFlags i i) (members (subsize split n) n p) p (leaderMemcpySize split n size p) := by
  rw [share]
  exact if_neg fun ne => ne (leader_eq.2 isLeader).symm

lemma mem_lead (mem : x ∈ lead m size root p) :
    x ∈ notifyOthers (othersFlags root) p root ∨ (0 < p ∧ p % m = 0 ∧ x ∈ memcpy p root 0 size) := by
  rw [lead, mem_append] at mem
  refine mem.imp_right fun mem => ?_
  split at mem
  case isTrue isLeader => exact ⟨isLeader.1, isLeader.2, mem⟩
  case isFalse => cases mem

lemma mem_follow (mem : x ∈ follow m p) : x ∈ notifyOthers (othersFlags (localLeaderId m p)) p
    (localLeaderId m p) := by
  rw [follow] at mem
  split at mem
  · exact mem
  · cases mem

lemma inc_share (pos : 0 < subsize split n) (mem : .inc f ∈ share split n size p) :
    ∃ i < n, i % subsize split n ≠ 0 ∧ localLeaderId (subsize split n) i = p ∧ f = p2pFlags i i := by
  by_cases isLeader : p % subsize split n = 0
  · rw [share_leader isLeader] at mem
    obtain ⟨i, inGroup, mem | is⟩ := mem_help.1 mem
    · exact absurd mem inc_notMem_memcpy
    · obtain ⟨lt, member, isP⟩ := (mem_members pos isLeader).1 inGroup
      exact ⟨i, lt, member, isP, Instr.inc.inj is⟩
  · rw [share_member isLeader] at mem
    exact absurd mem inc_notMem_memcpy

lemma own {p : Nat} {c : Flag} (pos : 0 < subsize split n) (mem : .inc c ∈ doBcastLinearTopoOpt split n size 0 p) :
    writer (subsize split n) c = p := by
  obtain mem | mem | mem | mem | mem | is := mem_script mem
  · obtain ⟨rfl, is⟩ | is := mem_sample mem
    · cases is
      exact leader_eq.2 (Nat.zero_mod _)
    · cases is
  · obtain mem | ⟨-, -, mem⟩ := mem_lead mem
    · rw [inc_mem_notifyOthers mem]
      rfl
    · exact absurd mem inc_notMem_memcpy
  · rw [inc_mem_notifyOthers (mem_follow mem)]
    rfl
  · rw [inc_mem_notifyRoot mem]
    rfl
  · obtain ⟨i, -, -, isP, rfl⟩ := inc_share pos mem
    exact isP
  · cases is

lemma count_lead_of (other : f.win ≠ .notifyOthers) : (lead m size 0 p).count (.inc f) = 0 := by
  rw [count_lead, if_neg]
  rintro rfl
  exact other rfl

lemma count_follow_of (other : f.win ≠ .notifyOthers) : (follow m p).count (.inc f) = 0 := by
  rw [count_follow, if_neg]
  rintro ⟨-, rfl⟩
  exact other rfl

lemma others_win : (othersFlags q p).win ≠ .p2p := nofun

lemma group_win : (groupFlags m p q).win ≠ .p2p ∧ (groupFlags m p q).win ≠ .notifyOthers := ⟨nofun, nofun⟩

lemma p2p_win : (p2pFlags q p).win ≠ .notifyOthers := nofun

lemma count_sample (other : f.win ≠ .p2p) : (sample root p).count (.inc f) = 0 := by
  apply count_eq_zero.2
  intro mem
  obtain ⟨-, is⟩ | is := mem_sample mem
  · cases is
    exact other rfl
  · cases is

lemma count_share (pos : 0 < subsize split n) (other : f.win ≠ .p2p) : (share split n size p).count (.inc f) = 0 := by
  apply count_eq_zero.2
  intro mem
  obtain ⟨i, -, -, -, rfl⟩ := inc_share pos mem
  exact other rfl

lemma count_last : (if p ≠ q then [.waitReg (p2pFlags p p)] else [] : Code).count (.inc f) = 0 := by
  split
  · rfl
  · rfl

/-- What comes behind the notification by the leader. -/
def rest (split n size p : Nat) : Code :=
  notifyLeader (subsize split n) n p ++ (share split n size p ++ (notifyLeader (subsize split n) n p ++
    if p ≠ localLeaderId (subsize split n) p then [.waitReg (p2pFlags p p)] else []))

lemma led (pos : 0 < subsize split n) :
    Led (subsize split n) size (sample 0) (rest split n size) (doBcastLinearTopoOpt split n size 0) := by
  refine ⟨fun p => rfl, fun p r => count_sample others_win, fun p r => ?_⟩
  rw [rest, count_append, count_append, count_append, count_share pos others_win, count_last, notifyLeader,
    count_notifyRoot, if_neg]
  rintro ⟨⟩

/-- What comes before the leader is notified the first time. -/
def before (split n size p : Nat) : Code :=
  sample 0 p ++ (lead (subsize split n) size 0 p ++ follow (subsize split n) p)

lemma count_before : (before split n size p).count (.inc (groupFlags (subsize split n) p q)) = 0 := by
  rw [before, count_append, count_append, count_sample group_win.1, count_lead_of group_win.2,
    count_follow_of group_win.2]

lemma count_notify : (notifyLeader m n p).count (.inc (groupFlags m p p)) = 1 := by
  rw [notifyLeader, count_notifyRoot, if_pos rfl]

lemma parts : doBcastLinearTopoOpt split n size 0 p = before split n size p ++ rest split n size p := by
  rw [doBcastLinearTopoOpt, before, rest]
  simp only [append_assoc]

section
variable (pos : 0 < subsize split n)
include pos

lemma count_group : (doBcastLinearTopoOpt split n size 0 p).count (.inc (groupFlags (subsize split n) p p)) = 2 := by
  rw [parts, count_append, count_before, rest, count_append, count_append, count_append,
    count_share pos group_win.1, count_last, count_notify]

lemma count_told (lt : i < n) (member : i % subsize split n ≠ 0) :
    (doBcastLinearTopoOpt split n size 0 (localLeaderId (subsize split n) i)).count (.inc (p2pFlags i i)) = 1 := by
  have first : (sample 0 (localLeaderId (subsize split n) i)).count (.inc (p2pFlags i i)) = 0 := by
    apply count_eq_zero.2
    intro mem
    obtain ⟨-, is⟩ | is := mem_sample mem
    · have isRoot : i = 0 := congrArg Flag.id (Instr.inc.inj is)
      exact member (by rw [isRoot, Nat.zero_mod])
    · cases is
  rw [parts, before, rest, share_leader leader_mod]
  simp only [count_append]
  rw [first, count_lead_of p2p_win, count_follow_of p2p_win, notifyLeader, count_notifyRoot, if_neg,
    count_members_help pos lt member, count_last]
  rintro ⟨⟩

omit pos in
lemma leaderMemcpySize_le : leaderMemcpySize split n size p ≤ size := by
  rw [leaderMemcpySize]
  split
  · exact Nat.div_le_self _ _
  · exact Nat.div_le_self _ _

lemma leaderMemcpySize_leader :
    leaderMemcpySize split n size (localLeaderId (subsize split n) p) = leaderMemcpySize split n size p := by
  rw [leaderMemcpySize, leaderMemcpySize, group_leader pos, leader_leader]

lemma mem_copy (mem : .copy l l' ∈ doBcastLinearTopoOpt split n size root p) : l.2 < size ∧
    ((l.1 = p ∧ 0 < p ∧ p % subsize split n = 0 ∧ l' = (root, l.2)) ∨
    (l.1 = p ∧ p % subsize split n ≠ 0 ∧ l' = (localLeaderId (subsize split n) p, l.2)) ∨
    (p % subsize split n = 0 ∧ l.1 < n ∧ l.1 % subsize split n ≠ 0 ∧ localLeaderId (subsize split n) l.1 = p ∧
      l' = (p, l.2))) := by
  have le : leaderMemcpySize split n size p ≤ size := leaderMemcpySize_le
  obtain mem | mem | mem | mem | mem | is := mem_script mem
  · obtain ⟨-, is⟩ | is := mem_sample mem
    · cases is
    · cases is
  · obtain mem | ⟨other, isLeader, mem⟩ := mem_lead mem
    · exact absurd mem copy_notMem_notifyOthers
    · obtain ⟨isP, src, -, lt⟩ := mem_memcpy.1 mem
      exact ⟨by omega, .inl ⟨isP, other, isLeader, src⟩⟩
  · exact absurd (mem_follow mem) copy_notMem_notifyOthers
  · exact absurd mem copy_notMem_notifyRoot
  · by_cases isLeader : p % subsize split n = 0
    · rw [share_leader isLeader] at mem
      obtain ⟨i, inGroup, mem | is⟩ := mem_help.1 mem
      · obtain ⟨rfl, src, -, lt_o⟩ := mem_memcpy.1 mem
        obtain ⟨lt, member, isP⟩ := (mem_members pos isLeader).1 inGroup
        exact ⟨by omega, .inr (.inr ⟨isLeader, lt, member, isP, src⟩)⟩
      · cases is
    · rw [share_member isLeader] at mem
      obtain ⟨isP, src, -, lt⟩ := mem_memcpy.1 mem
      exact ⟨by omega, .inr (.inl ⟨isP, isLeader, src⟩)⟩
  · cases is

lemma copies : Copies (doBcastLinearTopoOpt split n size root) Prod.fst (fun l => (root, l.2)) root := by
  refine ⟨fun l isRoot => ?_, fun p l l' mem => ?_, fun p l a b mem => ?_⟩
  · rw [← isRoot]
  · obtain ⟨-, ⟨-, -, -, rfl⟩ | ⟨-, -, rfl⟩ | ⟨-, -, -, -, rfl⟩⟩ := mem_copy pos mem
    · rfl
    · rfl
    · rfl
  · obtain mem | mem | mem | mem | mem | is := mem_script mem
    · obtain ⟨-, is⟩ | is := mem_sample mem
      · cases is
      · cases is
    · obtain mem | ⟨-, -, mem⟩ := mem_lead mem
      · exact add_notMem_notifyOthers mem
      · exact add_notMem_memcpy mem
    · exact add_notMem_notifyOthers (mem_follow mem)
    · exact add_notMem_notifyRoot mem
    · by_cases isLeader : p % subsize split n = 0
      · rw [share_leader isLeader] at mem
        obtain ⟨i, -, mem | is⟩ := mem_help.1 mem
        · exact add_notMem_memcpy mem
        · cases is
      · rw [share_member isLeader] at mem
        exact add_notMem_memcpy mem
    · cases is

end

section Run
variable (h : (machine n (doBcastLinearTopoOpt split n size 0) Prod.fst).Reach g s) (pos : 0 < subsize split n)
include h pos

lemma leader_stays (lt : q < n) (other : q ≠ localLeaderId (subsize split n) q)
    (once : (s.done q).count (.inc (groupFlags (subsize split n) q q)) < 2) :
    s.left (localLeaderId (subsize split n) q) ≤ s.left q := by
  by_contra left
  have is : doBcastLinearTopoOpt split n size 0 (localLeaderId (subsize split n) q) =
      (before split n size (localLeaderId (subsize split n) q) ++
        (notifyLeader (subsize split n) n (localLeaderId (subsize split n) q) ++
        share split n size (localLeaderId (subsize split n) q))) ++
      (notifyLeader (subsize split n) n (localLeaderId (subsize split n) q) ++ []) := by
    rw [parts, rest, if_neg fun ne => ne leader_leader.symm]
    simp only [append_assoc, append_nil]
  have behind := leader_notified h (fun p c => own pos) (fun p r => rfl) pos lt other is
    (over_left (Nat.lt_of_not_le left))
  have twice : (doBcastLinearTopoOpt split n size 0 (localLeaderId (subsize split n) q)).count (.inc (groupFlags
      (subsize split n) (localLeaderId (subsize split n) q) (localLeaderId (subsize split n) q))) = 2 := count_group pos
  have one : (notifyLeader (subsize split n) n (localLeaderId (subsize split n) q)).count (.inc (groupFlags
      (subsize split n) (localLeaderId (subsize split n) q) (localLeaderId (subsize split n) q))) = 1 := count_notify
  rw [groupFlags, leader_leader, ← groupFlags] at twice one
  rw [State.executed, count_group pos, twice, count_append, count_append, one] at behind
  omega

lemma come (lt : q < n) (other : q ≠ localLeaderId (subsize split n) q)
    (O : s.Over (localLeaderId (subsize split n) q) k (before split n size (localLeaderId (subsize split n) q) ++
      notifyLeader (subsize split n) n (localLeaderId (subsize split n) q))) :
    s.Has q k (.inc (groupFlags (subsize split n) q q)) := by
  have is : ∃ v, doBcastLinearTopoOpt split n size 0 (localLeaderId (subsize split n) q) =
      before split n size (localLeaderId (subsize split n) q) ++
        (notifyLeader (subsize split n) n (localLeaderId (subsize split n) q) ++ v) := by
    rw [parts, rest]
    exact ⟨_, rfl⟩
  obtain ⟨v, is⟩ := is
  have behind := leader_notified h (fun p c => own pos) (fun p r => rfl) pos lt other is O
  have twice : (doBcastLinearTopoOpt split n size 0 (localLeaderId (subsize split n) q)).count (.inc (groupFlags
      (subsize split n) (localLeaderId (subsize split n) q) (localLeaderId (subsize split n) q))) = 2 := count_group pos
  rw [groupFlags, leader_leader, ← groupFlags] at twice
  have theirs : ∃ v, doBcastLinearTopoOpt split n size 0 q = before split n size q ++
      .inc (groupFlags (subsize split n) q q) :: v := by
    rw [parts, rest, notifyLeader, notifyRoot, if_neg other]
    exact ⟨_, rfl⟩
  obtain ⟨v, theirs⟩ := theirs
  have past := past_of_count (Script.split h q) theirs (k := k) (x := .inc (groupFlags (subsize split n) q q)) (by
    rw [count_group pos, count_before]
    rw [twice] at behind
    omega)
  exact has_of_past (Script.split h q) theirs past (mem_append_right _ mem_cons_self)

end Run

lemma at_share (h : (machine n (doBcastLinearTopoOpt split n size 0) Prod.fst).Reach g s)
    (at_q : s.pc q = some (d, .copy l l' :: t)) (later : .copy l l' ∉ lead (subsize split n) size 0 q) : ∃ d' t',
    d = (before split n size q ++ notifyLeader (subsize split n) n q) ++ d' ∧
    share split n size q = d' ++ .copy l l' :: t' ∧
    doBcastLinearTopoOpt split n size 0 q = d ++ .copy l l' :: (t' ++ (notifyLeader (subsize split n) n q ++
      if q ≠ localLeaderId (subsize split n) q then [.waitReg (p2pFlags q q)] else [])) := by
  have whole := Script.split h q d _ at_q
  have not_before : .copy l l' ∉ before split n size q := by
    rw [before, mem_append, mem_append]
    rintro (mem | mem | mem)
    · obtain ⟨-, is⟩ | is := mem_sample mem
      · cases is
      · cases is
    · exact later mem
    · exact copy_notMem_notifyOthers (mem_follow mem)
  have not_last : .copy l l' ∉ (notifyLeader (subsize split n) n q ++
      if q ≠ localLeaderId (subsize split n) q then [.waitReg (p2pFlags q q)] else [] : Code) := by
    rw [mem_append]
    rintro (mem | mem)
    · exact copy_notMem_notifyRoot mem
    · split at mem
      · cases mem_singleton.1 mem
      · cases mem
  rw [parts, rest] at whole
  obtain ⟨d₁, rfl, rest₁⟩ := split_right whole not_before
  obtain ⟨d₂, rfl, rest₂⟩ := split_right rest₁.symm copy_notMem_notifyRoot
  obtain ⟨t₂, here, -⟩ := split_left rest₂.symm not_last
  refine ⟨d₂, t₂, by rw [append_assoc], here, ?_⟩
  rw [parts, rest, here]
  simp only [append_assoc, cons_append]

lemma at_lead (h : (machine n (doBcastLinearTopoOpt split n size 0) Prod.fst).Reach g s) (pos : 0 < subsize split n)
    (at_q : s.pc q = some (d, .copy l l' :: t)) (isLeader : q % subsize split n = 0) (mine : l.1 = q) : ∃ d' t',
    d = (sample 0 q ++ notifyOthers (othersFlags 0) q 0) ++ d' ∧
    (if 0 < q ∧ q % subsize split n = 0 then memcpy q 0 0 size else []) = d' ++ .copy l l' :: t' := by
  have whole := Script.split h q d _ at_q
  have not_first : .copy l l' ∉ sample 0 q ++ notifyOthers (othersFlags 0) q 0 := by
    rw [mem_append]
    rintro (mem | mem)
    · obtain ⟨-, is⟩ | is := mem_sample mem
      · cases is
      · cases is
    · exact copy_notMem_notifyOthers mem
  have not_rest : .copy l l' ∉ follow (subsize split n) q ++ rest split n size q := by
    rw [rest, share_leader isLeader]
    simp only [mem_append]
    rintro (mem | mem | mem | mem | mem)
    · exact copy_notMem_notifyOthers (mem_follow mem)
    · exact copy_notMem_notifyRoot mem
    · obtain ⟨i, inGroup, mem | is⟩ := mem_help.1 mem
      · have same : l.1 = i := (mem_memcpy.1 mem).1
        obtain ⟨-, member, -⟩ := (mem_members pos isLeader).1 inGroup
        exact member (by rw [← same, mine, isLeader])
      · cases is
    · exact copy_notMem_notifyRoot mem
    · split at mem
      · cases mem_singleton.1 mem
      · cases mem
  have is : doBcastLinearTopoOpt split n size 0 q = (sample 0 q ++ notifyOthers (othersFlags 0) q 0) ++
      ((if 0 < q ∧ q % subsize split n = 0 then memcpy q 0 0 size else []) ++
      (follow (subsize split n) q ++ rest split n size q)) := by
    rw [parts, before, lead]
    simp only [append_assoc]
  rw [is] at whole
  obtain ⟨d₁, rfl, rest₁⟩ := split_right whole not_first
  obtain ⟨t₁, here, -⟩ := split_left rest₁.symm not_rest
  exact ⟨d₁, t₁, rfl, here⟩

lemma mem_load {c : Flag} (mem : .load c ∈ doBcastLinearTopoOpt split n size root p) : c = p2pFlags root root := by
  obtain mem | mem | mem | mem | mem | is := mem_script mem
  · obtain ⟨-, is⟩ | is := mem_sample mem
    · cases is
    · exact Instr.load.inj is
  · obtain mem | ⟨-, -, mem⟩ := mem_lead mem
    · exact absurd mem load_notMem_notifyOthers
    · exact absurd mem load_notMem_memcpy
  · exact absurd (mem_follow mem) load_notMem_notifyOthers
  · exact absurd mem load_notMem_notifyRoot
  · by_cases isLeader : p % subsize split n = 0
    · rw [share_leader isLeader] at mem
      obtain ⟨i, -, mem | is⟩ := mem_help.1 mem
      · exact absurd mem load_notMem_memcpy
      · cases is
    · rw [share_member isLeader] at mem
      exact absurd mem load_notMem_memcpy
  · cases is

omit [Add α] in
lemma leader_written {o : Nat} (isLeader : q % subsize split n = 0) (other : 0 < q) (lt : o < size)
    (has : ∀ x ∈ lead (subsize split n) size 0 q, s.Has q k x) :
    Written (doBcastLinearTopoOpt split n size 0) s (q, o) k := by
  have mem : .copy (q, o) (0, o) ∈ lead (subsize split n) size 0 q := by
    rw [lead, if_pos ⟨other, isLeader⟩, mem_append]
    exact .inr (mem_memcpy.2 ⟨rfl, rfl, Nat.zero_le o, by dsimp only; omega⟩)
  refine ⟨q, _, ?_, has _ mem⟩
  rw [parts, before, mem_append, mem_append, mem_append]
  exact .inl (.inr (.inl mem))

/-- What a rank that is no leader has seen announced in its broadcast. -/
def announced (m p k : Nat) : Nat := if p % m = 0 then 0 else k + 1

section Guarded
variable (h : (machine n (doBcastLinearTopoOpt split n size 0) Prod.fst).Reach (Waits split n size) s)
include h

lemma root_waited (left : k < s.left 0) (lt : q < n) (other : 0 < q) (isLeader : q % subsize split n = 0) :
    s.Over q k (sample 0 q ++ lead (subsize split n) size 0 q) := by
  refine left_with (N := fun k s => s.Over q k (sample 0 q ++ lead (subsize split n) size 0 q)) h ?_ ?_ left
  · exact fun s h waits => waits rfl q lt other isLeader
  · exact fun s a s' h st k O => (goes h st q).upTo O

variable (pos : 0 < subsize split n)
include pos

lemma helped (member : p % subsize split n ≠ 0) (O : s.Over p k (doBcastLinearTopoOpt split n size 0 p)) :
    k + 1 ≤ s.executed (doBcastLinearTopoOpt split n size 0) (localLeaderId (subsize split n) p)
      (.inc (p2pFlags p p)) := by
  have is : ∃ u, doBcastLinearTopoOpt split n size 0 p = (sample 0 p ++ u) ++ .waitReg (p2pFlags p p) :: [] := by
    rw [doBcastLinearTopoOpt, if_pos fun same => member (leader_eq.1 same.symm)]
    refine ⟨lead (subsize split n) size 0 p ++ (follow (subsize split n) p ++ (notifyLeader (subsize split n) n p ++
      (share split n size p ++ notifyLeader (subsize split n) n p))), ?_⟩
    simp only [append_assoc]
  obtain ⟨u, is⟩ := is
  have load : Instr.load (p2pFlags 0 0) ∈ sample 0 p ++ u := by
    rw [sample, mem_append, mem_append]
    exact .inl (.inr mem_cons_self)
  rw [is] at O
  have low (s : State Flag Byte α)
      (h : (machine n (doBcastLinearTopoOpt split n size 0) Prod.fst).Reach (Waits split n size) s) (p : Nat) (d : Code)
      (c : Flag) (t : Code) (allowed : Waits split n size s (.run p)) (at_p : s.pc p = some (d, .load c :: t)) :
      announced (subsize split n) p (s.left p) ≤ s.count c := by
    rw [announced]
    split
    case isTrue => exact Nat.zero_le _
    case isFalse member =>
      have mem : .load c ∈ doBcastLinearTopoOpt split n size 0 p := by
        rw [← Script.split h p d _ at_p]
        exact mem_append_right d mem_cons_self
      rw [mem_load mem] at at_p ⊢
      exact allowed member (by rw [State.next, at_p]; rfl)
  have less := passed_reg (fun p c => own pos) h low load is O.past
  rwa [announced, if_neg member] at less

lemma has_written {x : Instr Flag Byte} (lt : i < n) (member : i % subsize split n ≠ 0)
    (told : k + 1 ≤ s.executed (doBcastLinearTopoOpt split n size 0) (localLeaderId (subsize split n) i)
      (.inc (p2pFlags i i)))
    (mem : x ∈ memcpy i (localLeaderId (subsize split n) i) 0
      (leaderMemcpySize split n size (localLeaderId (subsize split n) i))) :
    s.Has (localLeaderId (subsize split n) i) k x ∧
      x ∈ doBcastLinearTopoOpt split n size 0 (localLeaderId (subsize split n) i) := by
  obtain ⟨u, v, is⟩ := help_split (fun i => p2pFlags i i) (localLeaderId (subsize split n) i)
    (leaderMemcpySize split n size (localLeaderId (subsize split n) i))
    ((mem_members pos leader_mod).2 ⟨lt, member, rfl⟩)
  have whole : ∃ u' v', doBcastLinearTopoOpt split n size 0 (localLeaderId (subsize split n) i) = (u' ++
      memcpy i (localLeaderId (subsize split n) i) 0
        (leaderMemcpySize split n size (localLeaderId (subsize split n) i))) ++ .inc (p2pFlags i i) :: v' := by
    rw [parts, rest, share_leader leader_mod, is]
    refine ⟨before split n size (localLeaderId (subsize split n) i) ++
      (notifyLeader (subsize split n) n (localLeaderId (subsize split n) i) ++ u), v ++
      (notifyLeader (subsize split n) n (localLeaderId (subsize split n) i) ++ []), ?_⟩
    rw [if_neg fun ne => ne leader_leader.symm]
    simp only [append_assoc, cons_append]
  obtain ⟨u', v', whole⟩ := whole
  have once : (doBcastLinearTopoOpt split n size 0 (localLeaderId (subsize split n) i)).count (.inc (p2pFlags i i)) =
    1 :=
    count_told pos lt member
  have none : (u' ++ memcpy i (localLeaderId (subsize split n) i) 0
      (leaderMemcpySize split n size (localLeaderId (subsize split n) i))).count (.inc (p2pFlags i i)) = 0 := by
    rw [whole, count_append, count_cons_self] at once
    omega
  have past := past_of_count (Script.split h _) whole (k := k) (x := .inc (p2pFlags i i)) (by rw [once, none]; omega)
  refine ⟨has_of_past (Script.split h _) whole past (mem_append_left _ (mem_append_right u' mem)), ?_⟩
  rw [whole]
  exact mem_append_left _ (mem_append_right u' mem)

lemma leader_writes (at_q : s.pc q = some (d, .copy l l' :: t)) (lt : l.1 < n) (member : l.1 % subsize split n ≠ 0)
    (isQ : localLeaderId (subsize split n) l.1 = q) : s.Inside l.1 (s.left q) := by
  subst isQ
  have other : l.1 ≠ localLeaderId (subsize split n) l.1 := fun same => member (leader_eq.1 same.symm)
  have later : .copy l l' ∉ lead (subsize split n) size 0 (localLeaderId (subsize split n) l.1) := by
    intro mem
    obtain mem | ⟨-, -, mem⟩ := mem_lead mem
    · exact copy_notMem_notifyOthers mem
    · exact other (mem_memcpy.1 mem).1
  obtain ⟨d', t', isD, here, whole⟩ := at_share h at_q later
  have came := come h pos lt other (k := s.left (localLeaderId (subsize split n) l.1)) (by
    rw [isD] at at_q
    exact over_in at_q)
  refine inside_of_has came ?_
  by_contra gone
  have told := helped h pos member (over_left (Nat.lt_of_not_le gone))
  -- the leader tells the rank behind the byte that it is about to write
  rw [share_leader leader_mod] at here
  have some_ := count_pos_iff.2 (help_later here)
  have once : (doBcastLinearTopoOpt split n size 0 (localLeaderId (subsize split n) l.1)).count
      (.inc (p2pFlags l.1 l.1)) = 1 := count_told pos lt member
  rw [State.executed, State.done_in at_q, once] at told
  have not_copy : Instr.copy l l' ≠ .inc (p2pFlags l.1 l.1) := (by rintro ⟨⟩)
  rw [whole, count_append, count_cons_of_ne not_copy, count_append] at once
  omega

lemma leader_ready {o : Nat} (member : q % subsize split n ≠ 0) (lt : o < size)
    (O : s.Over q k (before split n size q)) :
    (∃ x, s.Has (localLeaderId (subsize split n) q) k x) ∧ (localLeaderId (subsize split n) q = 0 ∨
      Written (doBcastLinearTopoOpt split n size 0) s (localLeaderId (subsize split n) q, o) k) := by
  have other : q ≠ localLeaderId (subsize split n) q := fun same => member (leader_eq.1 same.symm)
  by_cases out : 0 < ngroup (subsize split n) q
  · have came := (led pos).leader_came pos h (fun p c => own pos) (fun p r => rfl) out other O
    refine ⟨⟨_, came _ (mem_append_right _ mem_cons_self)⟩, .inr ?_⟩
    exact leader_written leader_mod (Nat.pos_of_ne_zero ((group_pos pos).1 out)) lt fun x mem =>
      came x (mem_append_left _ (mem_append_right _ mem))
  · have isRoot : localLeaderId (subsize split n) q = 0 := not_not.1 fun ne => out ((group_pos pos).2 ne)
    have ne : q ≠ 0 := fun same => member (by rw [same, Nat.zero_mod])
    rw [before, lead, append_assoc, ← append_assoc] at O
    have came := (led pos).root_came pos h (fun p c => own pos) (fun p r => rfl) ne O.first
    rw [isRoot]
    exact ⟨⟨_, came _ (mem_append_right _ mem_cons_self)⟩, .inl rfl⟩

lemma safe : Safe (doBcastLinearTopoOpt split n size 0) Prod.fst 0 s := by
  intro q d t l l' at_q
  have lt : q < n := rank_lt h (by rw [at_q]; nofun)
  have mem : .copy l l' ∈ doBcastLinearTopoOpt split n size 0 q := by
    rw [← Script.split h q d _ at_q]
    exact mem_append_right d mem_cons_self
  obtain ⟨lt_o, ⟨rfl, pos_q, isLeader, rfl⟩ | ⟨rfl, member, rfl⟩ | ⟨isLeader, lt_l, member, isQ, rfl⟩⟩
    := mem_copy pos mem
  · refine ⟨State.inside_in at_q, ?_, .inl rfl⟩
    obtain ⟨d', t', isD, here⟩ := at_lead h pos at_q isLeader rfl
    rw [isD] at at_q
    have came := (led pos).root_came pos h (fun p c => own pos) (fun p r => rfl) (Nat.ne_of_gt pos_q) (over_in at_q)
    refine inside_of_has (came _ (mem_append_right _ mem_cons_self)) ?_
    by_contra gone
    -- the leader is not yet over what it copies
    obtain after | ⟨-, beyond⟩ := root_waited h (Nat.lt_of_not_le gone) lt pos_q isLeader
    · exact Nat.lt_irrefl _ after
    · rw [State.done_in at_q, lead, here] at beyond
      simp only [length_append, length_cons] at beyond
      omega
  · have later : .copy l (localLeaderId (subsize split n) l.1, l.2) ∉ lead (subsize split n) size 0 l.1 := by
      intro mem
      obtain mem | ⟨-, isLeader, -⟩ := mem_lead mem
      · exact copy_notMem_notifyOthers mem
      · exact member isLeader
    obtain ⟨d', t', isD, here, -⟩ := at_share h at_q later
    have once : (s.done l.1).count (.inc (groupFlags (subsize split n) l.1 l.1)) < 2 := by
      have none : (share split n size l.1).count (.inc (groupFlags (subsize split n) l.1 l.1)) = 0 :=
        count_share pos group_win.1
      rw [here, count_append] at none
      rw [State.done_in at_q, isD, count_append, count_append, count_before, count_notify]
      omega
    have stays := leader_stays h pos lt (fun same => member (leader_eq.1 same.symm)) once
    rw [isD, append_assoc] at at_q
    obtain ⟨⟨x, came⟩, ready⟩ := leader_ready h pos member lt_o (over_in at_q)
    exact ⟨State.inside_in at_q, inside_of_has came stays, ready⟩
  · refine ⟨leader_writes h pos at_q lt_l member isQ, State.inside_in at_q, ?_⟩
    by_cases isRoot : q = 0
    · exact .inl isRoot
    · right
      have later : .copy l (q, l.2) ∉ lead (subsize split n) size 0 q := by
        intro mem
        obtain mem | ⟨-, -, mem⟩ := mem_lead mem
        · exact copy_notMem_notifyOthers mem
        · exact member (by rw [(mem_memcpy.1 mem).1, isLeader])
      obtain ⟨d', t', isD, -, -⟩ := at_share h at_q later
      refine leader_written isLeader (Nat.pos_of_ne_zero isRoot) lt_o fun x mem => .inr ⟨rfl, ?_⟩
      rw [State.done_in at_q, isD, before]
      simp only [mem_append]
      exact .inl (.inl (.inr (.inl mem)))

lemma returns {o : Nat} (at_p : s.pc p = some (d, [])) (ne : p ≠ 0) (lt : o < size) :
    Written (doBcastLinearTopoOpt split n size 0) s (p, o) (s.left p) := by
  have all := Script.split h p d [] at_p
  rw [append_nil] at all
  have bound : p < n := rank_lt h (by rw [at_p]; nofun)
  have has (x : Instr Flag Byte) (mem : x ∈ doBcastLinearTopoOpt split n size 0 p) : s.Has p (s.left p) x := by
    refine .inr ⟨rfl, ?_⟩
    rwa [State.done_in at_p, all]
  by_cases isLeader : p % subsize split n = 0
  · refine leader_written isLeader (Nat.pos_of_ne_zero ne) lt fun x mem => has x ?_
    rw [parts, before, mem_append, mem_append, mem_append]
    exact .inl (.inr (.inl mem))
  · by_cases tail : leaderMemcpySize split n size p ≤ o
    · have mem : .copy (p, o) (localLeaderId (subsize split n) p, o) ∈ doBcastLinearTopoOpt split n size 0 p := by
        rw [parts, rest, share_member isLeader]
        simp only [mem_append]
        exact .inr (.inr (.inl (mem_memcpy.2 ⟨rfl, rfl, tail, by dsimp only; omega⟩)))
      exact ⟨p, _, mem, has _ mem⟩
    · have told := helped h pos isLeader (.inr ⟨rfl, by rw [State.done_in at_p, all]⟩)
      have copied : .copy (p, o) (localLeaderId (subsize split n) p, o) ∈ memcpy p
        (localLeaderId (subsize split n) p) 0
          (leaderMemcpySize split n size (localLeaderId (subsize split n) p)) := by
        rw [leaderMemcpySize_leader pos]
        exact mem_memcpy.2 ⟨rfl, rfl, Nat.zero_le o, by dsimp only; omega⟩
      have wrote := has_written h pos bound isLeader told copied
      exact ⟨_, _, wrote.2, wrote.1⟩

end Guarded

end Kupl.Bcast.TopoOpt
