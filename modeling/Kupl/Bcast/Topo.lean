import Kupl.Bcast.Notify

/-!
# The topology-aware broadcast (`do_bcast_linear_topo`)

The ranks are split into groups, and the first rank of each group is its leader. The leaders copy the buffer of the
root, which is rank 0, and the other ranks that of their leaders. A leader waits until its own group has copied; so does
the root, and it does not wait for the leaders of the other groups. Where it leaves only after these have copied
(`Waits`), every state is right.
-/

namespace Kupl.Bcast.Topo
open Script List

def subsize (split numprocs : Nat) : Nat := (numprocs + split - 1) / split

def ngroup (subsize myid : Nat) : Nat := myid / subsize

def localLeaderId (subsize myid : Nat) : Nat := subsize * ngroup subsize myid

/-- What a rank does until its group goes on: it is notified by the root, and copies from it if it is a leader. -/
def lead (subsize dataSize root myid : Nat) : Code :=
  notifyOthers (othersFlags root) myid root ++
    if 0 < myid ∧ myid % subsize = 0 then memcpy myid root 0 dataSize else []

/-- Outside the first group a rank is notified by its leader. -/
def follow (subsize myid : Nat) : Code :=
  if 0 < ngroup subsize myid then
    notifyOthers (othersFlags (localLeaderId subsize myid)) myid (localLeaderId subsize myid)
  else []

def groupFlags (subsize myid : Nat) : Nat → Flag := rootFlags (localLeaderId subsize myid)

/-- A rank notifies its leader, which waits for its group. -/
def notifyLeader (subsize numprocs myid : Nat) : Code :=
  notifyRoot (groupFlags subsize myid) (localLeaderId subsize myid)
    (min numprocs ((ngroup subsize myid + 1) * subsize)) myid (localLeaderId subsize myid)

/-- (C++ `do_bcast_linear_topo`). -/
def doBcastLinearTopo (split numprocs dataSize root myid : Nat) : Code :=
  let subsize := subsize split numprocs
  lead subsize dataSize root myid ++ (follow subsize myid ++
    ((if myid ≠ localLeaderId subsize myid then memcpy myid (localLeaderId subsize myid) 0 dataSize else []) ++
    notifyLeader subsize numprocs myid))

/-! ## Groups -/

section Groups
variable {split n m p : Nat}

lemma leader_eq : localLeaderId m p = p ↔ p % m = 0 := by
  have parts := Nat.div_add_mod p m
  rw [localLeaderId, ngroup]
  omega

lemma leader_le : localLeaderId m p ≤ p := Nat.mul_div_le p m

lemma leader_mod : localLeaderId m p % m = 0 := Nat.mul_mod_right m _

lemma leader_leader : localLeaderId m (localLeaderId m p) = localLeaderId m p := leader_eq.2 leader_mod

lemma group_leader (pos : 0 < m) : ngroup m (localLeaderId m p) = ngroup m p := by
  rw [localLeaderId, ngroup, Nat.mul_div_cancel_left _ pos]

lemma lt_end (pos : 0 < m) (lt : p < n) : p < min n ((ngroup m p + 1) * m) := by
  refine Nat.lt_min.2 ⟨lt, ?_⟩
  exact (Nat.div_lt_iff_lt_mul pos).1 (Nat.lt_succ_self _)

lemma group_pos (pos : 0 < m) : 0 < ngroup m p ↔ localLeaderId m p ≠ 0 := by
  rw [localLeaderId, Nat.mul_ne_zero_iff]
  constructor
  · exact fun out => ⟨by omega, by omega⟩
  · exact fun both => Nat.pos_of_ne_zero both.2

lemma subsize_pos (some_ : 0 < n) (pos : 0 < split) : 0 < subsize split n :=
  Nat.div_pos (by omega) pos

end Groups

/-- The root returns only when the leaders of the other groups have copied its buffer. -/
def Waits {α : Type} (split n size : Nat) (s : State Flag Byte α) : Label Byte α → Prop
  | .ret p => p = 0 → ∀ q < n, 0 < q → q % subsize split n = 0 →
      s.Over q (s.left 0) (lead (subsize split n) size 0 q)
  | _ => True

instance {α : Type} {split n size : Nat} {s : State Flag Byte α} {a : Label Byte α} :
    Decidable (Waits split n size s a) :=
  match a with
  | .ret p => inferInstanceAs (Decidable (p = 0 → ∀ q < n, 0 < q → q % subsize split n = 0 →
    s.Over q (s.left 0) (lead (subsize split n) size 0 q)))
  | .enter _ | .run _ | .set _ _ => isTrue trivial

variable {α : Type} [Add α] {split n m size root p q k : Nat} {s : State Flag Byte α} {d t : Code} {f : Flag}
  {l l' : Byte} {g : State Flag Byte α → Label Byte α → Prop}

/-! ## What stands in the scripts -/

lemma count_lead : (lead m size root p).count (.inc f) = if f = othersFlags root p then 1 else 0 := by
  have copies : (if 0 < p ∧ p % m = 0 then memcpy p root 0 size else [] : Code).count (.inc f) = 0 := by
    split
    · exact count_memcpy
    · rfl
  rw [lead, count_append, count_notifyOthers, copies, Nat.add_zero]

lemma count_follow : (follow m p).count (.inc f) =
    if 0 < ngroup m p ∧ f = othersFlags (localLeaderId m p) p then 1 else 0 := by
  rw [follow]
  by_cases out : 0 < ngroup m p
  · rw [if_pos out, count_notifyOthers]
    by_cases same : f = othersFlags (localLeaderId m p) p
    · rw [if_pos same, if_pos ⟨out, same⟩]
    · rw [if_neg same, if_neg fun h => same h.2]
  · rw [if_neg out, if_neg fun h => out h.1]
    rfl

lemma count_members : (if p ≠ localLeaderId m p then memcpy p (localLeaderId m p) 0 size
    else [] : Code).count (.inc f) =
    0 := by
  split
  · exact count_memcpy
  · rfl

lemma count_inc : (doBcastLinearTopo split n size root p).count (.inc f) = (if f = othersFlags root p then 1 else 0) +
    ((if 0 < ngroup (subsize split n) p ∧ f = othersFlags (localLeaderId (subsize split n) p) p then 1 else 0) +
    if f = groupFlags (subsize split n) p p then 1 else 0) := by
  rw [doBcastLinearTopo]
  simp only [count_append]
  rw [count_lead, count_follow, count_members, notifyLeader, count_notifyRoot, Nat.zero_add]

lemma own {p : Nat} {c : Flag} (mem : .inc c ∈ doBcastLinearTopo split n size root p) : writer c = p := by
  have pos := count_pos_iff.2 mem
  rw [count_inc] at pos
  by_cases fst : c = othersFlags root p
  · rw [fst]
    rfl
  · by_cases snd : 0 < ngroup (subsize split n) p ∧ c = othersFlags (localLeaderId (subsize split n) p) p
    · rw [snd.2]
      rfl
    · by_cases thd : c = groupFlags (subsize split n) p p
      · rw [thd]
        rfl
      · rw [if_neg fst, if_neg snd, if_neg thd] at pos
        cases pos

lemma mem_copy (mem : .copy l l' ∈ doBcastLinearTopo split n size root p) :
    l.1 = p ∧ l.2 < size ∧ ((0 < p ∧ p % subsize split n = 0 ∧ l' = (root, l.2)) ∨
      (p % subsize split n ≠ 0 ∧ l' = (localLeaderId (subsize split n) p, l.2))) := by
  rw [doBcastLinearTopo, lead] at mem
  simp only [mem_append] at mem
  obtain (mem | mem) | mem | mem | mem := mem
  · exact absurd mem copy_notMem_notifyOthers
  · split at mem
    case isTrue lead =>
      obtain ⟨isP, src, -, lt⟩ := mem_memcpy.1 mem
      exact ⟨isP, by omega, .inl ⟨lead.1, lead.2, src⟩⟩
    case isFalse => cases mem
  · rw [follow] at mem
    split at mem
    · exact absurd mem copy_notMem_notifyOthers
    · cases mem
  · split at mem
    case isTrue other =>
      obtain ⟨isP, src, -, lt⟩ := mem_memcpy.1 mem
      exact ⟨isP, by omega, .inr ⟨fun h => other (leader_eq.2 h).symm, src⟩⟩
    case isFalse => cases mem
  · exact absurd mem copy_notMem_notifyRoot

lemma copies : Copies (doBcastLinearTopo split n size root) Prod.fst (fun l => (root, l.2)) root := by
  refine ⟨fun l isRoot => ?_, fun p l l' mem => ?_, fun p l a b mem => ?_⟩
  · rw [← isRoot]
  · obtain ⟨-, -, ⟨-, -, rfl⟩ | ⟨-, rfl⟩⟩ := mem_copy mem
    · rfl
    · rfl
  · rw [doBcastLinearTopo, lead] at mem
    simp only [mem_append] at mem
    obtain (mem | mem) | mem | mem | mem := mem
    · exact add_notMem_notifyOthers mem
    · split at mem
      · exact add_notMem_memcpy mem
      · cases mem
    · rw [follow] at mem
      split at mem
      · exact add_notMem_notifyOthers mem
      · cases mem
    · split at mem
      · exact add_notMem_memcpy mem
      · cases mem
    · exact add_notMem_notifyRoot mem

/-! ## Groups and their leaders -/

lemma count_lead_leader (pos : 0 < m) (out : 0 < ngroup m p) :
    (lead m size 0 q).count (.inc (othersFlags (localLeaderId m p) q)) = 0 := by
  rw [count_lead, if_neg]
  exact fun same => (group_pos pos).1 out (congrArg Flag.rank same)

/-- Scripts in which the leaders copy the buffer of the root, and the others are notified by their leaders; what comes
before and behind does not notify. -/
structure Led (m size : Nat) (pre rest prog : Nat → Code) : Prop where
  parts : ∀ p, prog p = pre p ++ (lead m size 0 p ++ (follow m p ++ rest p))
  before : ∀ p r, (pre p).count (.inc (othersFlags r p)) = 0
  behind : ∀ p r, (rest p).count (.inc (othersFlags r p)) = 0

section Led
variable {pre rest prog : Nat → Code} (L : Led m size pre rest prog) (pos : 0 < m)
include L pos

lemma Led.count_others : (prog p).count (.inc (othersFlags 0 p)) = 1 := by
  rw [L.parts, count_append, count_append, count_append, L.before, L.behind, count_lead, count_follow,
    if_pos rfl, if_neg]
  rintro ⟨out, same⟩
  exact (group_pos pos).1 out (congrArg Flag.rank same).symm

lemma Led.count_leader (out : 0 < ngroup m p) : (prog p).count (.inc (othersFlags (localLeaderId m p) p)) = 1 := by
  rw [L.parts, count_append, count_append, count_append, L.before, L.behind, count_lead_leader pos out,
    count_follow, if_pos ⟨out, rfl⟩]

variable {by_ : Flag → Nat} {owner : Byte → Nat} (h : (machine n prog owner).Reach g s)
  (own : ∀ p c, .inc c ∈ prog p → by_ c = p) (mine : ∀ p r, by_ (othersFlags r p) = p)
include h own mine

lemma Led.root_came (other : p ≠ 0) (O : s.Over p k (pre p ++ notifyOthers (othersFlags 0) p 0)) :
    ∀ x ∈ pre 0 ++ [.inc (othersFlags 0 0)], s.Has 0 k x := by
  have is : ∃ v, prog p = pre p ++ (notifyOthers (othersFlags 0) p 0 ++ v) := by
    rw [L.parts, lead, append_assoc]
    exact ⟨_, rfl⟩
  obtain ⟨v, is⟩ := is
  have first : ∃ v, prog 0 = pre 0 ++ .inc (othersFlags 0 0) :: v := by
    rw [L.parts, lead, notifyOthers, if_pos rfl]
    exact ⟨_, rfl⟩
  obtain ⟨v, first⟩ := first
  exact notified_has h own is other (mine _ _) (mine _ _) O (L.count_others pos) (L.before _ _) first
    (L.count_others pos) (L.before _ _)

lemma Led.leader_came (out : 0 < ngroup m p) (other : p ≠ localLeaderId m p)
    (O : s.Over p k (pre p ++ (lead m size 0 p ++ follow m p))) :
    ∀ x ∈ (pre (localLeaderId m p) ++ lead m size 0 (localLeaderId m p)) ++
      [.inc (othersFlags (localLeaderId m p) (localLeaderId m p))], s.Has (localLeaderId m p) k x := by
  have is : prog p = (pre p ++ lead m size 0 p) ++
      (notifyOthers (othersFlags (localLeaderId m p)) p (localLeaderId m p) ++ rest p) := by
    rw [L.parts, follow, if_pos out, append_assoc]
  have theirs : ∃ v, prog (localLeaderId m p) = (pre (localLeaderId m p) ++ lead m size 0 (localLeaderId m p)) ++
      .inc (othersFlags (localLeaderId m p) (localLeaderId m p)) :: v := by
    rw [L.parts, follow, group_leader pos, if_pos out, leader_leader, notifyOthers, if_pos rfl]
    exact ⟨_, (append_assoc ..).symm⟩
  obtain ⟨v, theirs⟩ := theirs
  rw [follow, if_pos out, ← append_assoc] at O
  have once := L.count_leader pos (p := localLeaderId m p) (by rw [group_leader pos]; exact out)
  rw [leader_leader] at once
  refine notified_has h own is other (mine _ _) (mine _ _) O (L.count_leader pos out) ?_ theirs once ?_
  · rw [count_append, L.before, count_lead_leader pos out]
  · rw [count_append, L.before, count_lead_leader pos out]

end Led

section Leader
variable {prog : Nat → Code} {owner : Byte → Nat} (h : (machine n prog owner).Reach g s) {by_ : Flag → Nat}
  (own : ∀ p c, .inc c ∈ prog p → by_ c = p) (mine : ∀ p r, by_ (rootFlags r p) = p) (pos : 0 < m)
include h own mine pos

lemma leader_notified {u v : Code} (lt : q < n) (other : q ≠ localLeaderId m q)
    (is : prog (localLeaderId m q) = u ++ (notifyLeader m n (localLeaderId m q) ++ v))
    (O : s.Over (localLeaderId m q) k (u ++ notifyLeader m n (localLeaderId m q))) :
    k * (prog (localLeaderId m q)).count (.inc (groupFlags m q (localLeaderId m q))) +
      u.count (.inc (groupFlags m q (localLeaderId m q))) + 1 ≤ s.executed prog q (.inc (groupFlags m q q)) := by
  rw [notifyLeader, groupFlags, leader_leader, group_leader pos] at is O
  exact notified_root h own is leader_le (lt_end pos lt) other.symm (mine _ _) (mine _ _) O

end Leader

/-! ## Runs -/

lemma count_group : (doBcastLinearTopo split n size 0 p).count (.inc (groupFlags (subsize split n) p p)) = 1 := by
  rw [count_inc, if_neg, if_neg]
  · rw [if_pos rfl]
  · exact fun same => nomatch same.2
  · nofun

lemma led : Led (subsize split n) size (fun _ => []) (fun p =>
    (if p ≠ localLeaderId (subsize split n) p then memcpy p (localLeaderId (subsize split n) p) 0 size else []) ++
    notifyLeader (subsize split n) n p) (doBcastLinearTopo split n size 0) := by
  refine ⟨fun p => rfl, fun p r => rfl, fun p r => ?_⟩
  rw [count_append, count_members, notifyLeader, count_notifyRoot, if_neg nofun]

section Run
variable (h : (machine n (doBcastLinearTopo split n size 0) Prod.fst).Reach g s) (pos : 0 < subsize split n)
include h pos

lemma leader_stays (lt : q < n) (other : q ≠ localLeaderId (subsize split n) q)
    (none : (s.done q).count (.inc (groupFlags (subsize split n) q q)) = 0) :
    s.left (localLeaderId (subsize split n) q) ≤ s.left q := by
  by_contra left
  generalize isL : localLeaderId (subsize split n) q = ℓ at *
  have is : ∃ u, doBcastLinearTopo split n size 0 ℓ = u ++ (notifyLeader (subsize split n) n ℓ ++ []) := by
    refine ⟨lead (subsize split n) size 0 ℓ ++ (follow (subsize split n) ℓ ++
      if ℓ ≠ localLeaderId (subsize split n) ℓ then memcpy ℓ (localLeaderId (subsize split n) ℓ) 0 size
        else []), ?_⟩
    rw [doBcastLinearTopo]
    simp only [append_assoc, append_nil]
  obtain ⟨u, is⟩ := is
  subst isL
  have behind := leader_notified h (fun p c => own) (fun p r => rfl) pos lt other is (over_left (Nat.lt_of_not_le left))
  have mine : (doBcastLinearTopo split n size 0 (localLeaderId (subsize split n) q)).count
      (.inc (groupFlags (subsize split n) (localLeaderId (subsize split n) q) (localLeaderId (subsize split n) q))) =
        1 :=
    count_group
  rw [groupFlags, leader_leader, ← groupFlags] at mine
  rw [State.executed, none, count_group, mine] at behind
  omega

omit pos in
lemma at_copy (at_q : s.pc q = some (d, .copy l l' :: t)) :
    (q % subsize split n = 0 ∧ ∃ d' t', d = notifyOthers (othersFlags 0) q 0 ++ d' ∧
      memcpy q 0 0 size = d' ++ .copy l l' :: t') ∨
    (q % subsize split n ≠ 0 ∧ ∃ d' t',
      d = (lead (subsize split n) size 0 q ++ follow (subsize split n) q) ++ d' ∧
      memcpy q (localLeaderId (subsize split n) q) 0 size = d' ++ .copy l l' :: t') := by
  have parts := Script.split h q d _ at_q
  have not_follow : .copy l l' ∉ follow (subsize split n) q := by
    rw [follow]
    split
    · exact copy_notMem_notifyOthers
    · exact not_mem_nil
  rw [doBcastLinearTopo] at parts
  by_cases isLeader : q % subsize split n = 0
  · left
    rw [if_neg (not_not.2 (leader_eq.2 isLeader).symm), nil_append] at parts
    obtain ⟨t₁, here, -⟩ := split_left parts (by
      rw [mem_append]
      rintro (mem | mem)
      · exact not_follow mem
      · exact copy_notMem_notifyRoot mem)
    rw [lead] at here
    obtain ⟨d₁, rfl, rest⟩ := split_right here.symm copy_notMem_notifyOthers
    split at rest
    case isTrue => exact ⟨isLeader, d₁, t₁, rfl, rest⟩
    case isFalse => exact absurd rest.symm (by simp only [append_eq_nil_iff, reduceCtorEq, and_false,
      not_false_eq_true])
  · right
    have not_lead : .copy l l' ∉ lead (subsize split n) size 0 q := by
      rw [lead, if_neg fun both => isLeader both.2, append_nil]
      exact copy_notMem_notifyOthers
    obtain ⟨d₁, rfl, rest₁⟩ := split_right parts not_lead
    obtain ⟨d₂, rfl, rest₂⟩ := split_right rest₁.symm not_follow
    rw [if_pos fun same => isLeader (leader_eq.1 same.symm)] at rest₂
    obtain ⟨t₂, here, -⟩ := split_left rest₂.symm copy_notMem_notifyRoot
    exact ⟨isLeader, d₂, t₂, by rw [append_assoc], here⟩

end Run

omit [Add α] in
lemma leader_written {o : Nat} (isLeader : p % subsize split n = 0) (other : 0 < p) (lt : o < size)
    (has : ∀ x ∈ lead (subsize split n) size 0 p, s.Has p k x) :
    Written (doBcastLinearTopo split n size 0) s (p, o) k := by
  have mem : .copy (p, o) (0, o) ∈ lead (subsize split n) size 0 p := by
    rw [lead, if_pos ⟨other, isLeader⟩, mem_append]
    exact .inr (mem_memcpy.2 ⟨rfl, rfl, Nat.zero_le o, by dsimp only; omega⟩)
  exact ⟨p, _, mem_append_left _ mem, has _ mem⟩

section Guarded
variable (h : (machine n (doBcastLinearTopo split n size 0) Prod.fst).Reach (Waits split n size) s)
include h

lemma root_waited (left : k < s.left 0) (lt : q < n) (other : 0 < q) (isLeader : q % subsize split n = 0) :
    s.Over q k (lead (subsize split n) size 0 q) := by
  refine left_with (N := fun k s => s.Over q k (lead (subsize split n) size 0 q)) h ?_ ?_ left
  · exact fun s h waits => waits rfl q lt other isLeader
  · exact fun s a s' h st k O => (goes h st q).upTo O

lemma safe (pos : 0 < split) : Safe (doBcastLinearTopo split n size 0) Prod.fst 0 s := by
  intro q d t l l' at_q
  have lt : q < n := rank_lt h (by rw [at_q]; nofun)
  have pos := subsize_pos (Nat.zero_lt_of_lt lt) pos
  have mem : .copy l l' ∈ doBcastLinearTopo split n size 0 q := by
    rw [← Script.split h q d _ at_q]
    exact mem_append_right d mem_cons_self
  obtain ⟨rfl, lt_o, from_⟩ := mem_copy mem
  refine ⟨State.inside_in at_q, ?_⟩
  obtain ⟨isLeader, d', t', isD, here⟩ | ⟨member, d', t', isD, here⟩ := at_copy h at_q
  · obtain ⟨other, -, rfl⟩ | ⟨not, -⟩ := from_
    · refine ⟨?_, .inl rfl⟩
      rw [isD] at at_q
      refine inside_of_has ((led.root_came pos h (fun p c => own) (fun p r => rfl) (Nat.ne_of_gt other) (over_in at_q) _
        mem_cons_self)) ?_
      by_contra gone
      -- the leader is not yet over what it copies
      obtain after | ⟨-, beyond⟩ := root_waited h (Nat.lt_of_not_le gone) lt other isLeader
      · exact Nat.lt_irrefl _ after
      · rw [State.done_in at_q, lead, if_pos ⟨other, isLeader⟩, here] at beyond
        simp only [length_append, length_cons] at beyond
        omega
    · exact absurd isLeader not
  · obtain ⟨-, isLeader, -⟩ | ⟨-, rfl⟩ := from_
    · exact absurd isLeader member
    · have other : l.1 ≠ localLeaderId (subsize split n) l.1 := fun same => member (leader_eq.1 same.symm)
      have none : (s.done l.1).count (.inc (groupFlags (subsize split n) l.1 l.1)) = 0 := by
        have no_copies : (memcpy l.1 (localLeaderId (subsize split n) l.1) 0 size).count
            (.inc (groupFlags (subsize split n) l.1 l.1)) = 0 := count_memcpy
        rw [here, count_append] at no_copies
        rw [State.done_in at_q, isD, count_append, count_append, count_lead, if_neg nofun, count_follow,
          if_neg fun same => nomatch same.2]
        omega
      have stays := leader_stays h pos lt other none
      rw [isD] at at_q
      by_cases out : 0 < ngroup (subsize split n) l.1
      · have came := led.leader_came pos h (fun p c => own) (fun p r => rfl) out other (over_in at_q)
        refine ⟨inside_of_has (came _ (mem_append_right _ mem_cons_self)) stays, .inr ?_⟩
        have isLeader : localLeaderId (subsize split n) l.1 % subsize split n = 0 := leader_mod
        have ne := Nat.pos_of_ne_zero ((group_pos pos).1 out)
        exact leader_written isLeader ne lt_o (fun x mem => came x (mem_append_left _ mem))
      · -- the leader of the first group is the root
        have isRoot : localLeaderId (subsize split n) l.1 = 0 := not_not.1 fun ne => out ((group_pos pos).2 ne)
        rw [isRoot] at stays ⊢
        have ne : l.1 ≠ 0 := fun same => member (by rw [same, Nat.zero_mod])
        rw [lead, append_assoc, append_assoc] at at_q
        exact ⟨inside_of_has (led.root_came pos h (fun p c => own) (fun p r => rfl) ne (over_in at_q) _ mem_cons_self)
          stays, .inl rfl⟩

end Guarded

end Kupl.Bcast.Topo
