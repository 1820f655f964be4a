import Kupl.Egroup.Info

/-!
# The first executors of a group

The macro `KUPL_FOR_EACH_LIMIT_EGROUP` of `src/executor/kupl_executor_group.h`: the loop from
`min_eid` on that stops after `limit` executors of the group. It does not stop at the last member: past
it `eid` overflows, and the members come up again.

A group has the `limit` members with the smallest numbers selected (`mem_limit`). The local number of
a member is its place in the list the group was made of, which need not be its rank among the members.
-/

namespace Kupl.Group
open Finset

/-- The next `eid` from a given one on that is in the set. -/
def nextMember (set : Finset Nat) (eid : Nat) : Option Nat :=
  if h : (set.filter (eid ≤ ·)).Nonempty then some ((set.filter (eid ≤ ·)).min' h)
  else if h : set.Nonempty then some (set.min' h)
  else none

/-- The members the loop meets from `eid` on. -/
def limitFrom (set : Finset Nat) : Nat → Nat → List Nat
  | _, 0 => []
  | eid, limit + 1 =>
    match nextMember set eid with
    | none => []
    | some e => e :: limitFrom set (e + 1) limit

/-- C++ `KUPL_FOR_EACH_LIMIT_EGROUP`. -/
def EgroupInfo.limit (g : EgroupInfo) (limit : Nat) : List Nat := limitFrom g.eidSet g.minEid limit

/-- The number of members before an executor. -/
def EgroupInfo.rank (g : EgroupInfo) (e : Nat) : Nat := (g.eidSet.filter (· < e)).card

section Limit
variable {set : Finset Nat} {eid k e : Nat}

lemma nextMember_mem (h : nextMember set eid = some e) : e ∈ set := by
  unfold nextMember at h
  split at h
  · cases h
    exact (mem_filter.1 (Finset.min'_mem _ _)).1
  · split at h
    · cases h
      exact Finset.min'_mem _ _
    · cases h

lemma limitFrom_mem (h : e ∈ limitFrom set eid k) : e ∈ set := by
  induction k generalizing eid with
  | zero => cases h
  | succ k ih =>
    unfold limitFrom at h
    split at h
    · cases h
    · rename_i m hm
      rcases List.mem_cons.1 h with rfl | h
      · exact nextMember_mem hm
      · exact ih h

lemma limitFrom_length (ne : set.Nonempty) : (limitFrom set eid k).length = k := by
  induction k generalizing eid with
  | zero => rfl
  | succ k ih =>
    obtain ⟨m, hm⟩ : ∃ m, nextMember set eid = some m := by
      unfold nextMember
      split <;> exact ⟨_, rfl⟩
    simp [limitFrom, hm, ih]

lemma limitFrom_spec (hk : k ≤ (set.filter (eid ≤ ·)).card) :
    (limitFrom set eid k).length = k ∧ (limitFrom set eid k).Nodup ∧ ∀ e, e ∈ limitFrom set eid k ↔
        e ∈ set ∧ eid ≤ e ∧ (set.filter fun y => eid ≤ y ∧ y < e).card < k := by
  induction k generalizing eid with
  | zero => simp [limitFrom]
  | succ k ih =>
    have ne : (set.filter (eid ≤ ·)).Nonempty := card_pos.1 (by omega)
    obtain ⟨m, hm⟩ : ∃ m, m = (set.filter (eid ≤ ·)).min' ne := ⟨_, rfl⟩
    have mem : m ∈ set.filter (eid ≤ ·) := hm ▸ Finset.min'_mem _ _
    have least : ∀ y ∈ set, eid ≤ y → m ≤ y := fun y hy le =>
      hm ▸ Finset.min'_le _ _ (mem_filter.2 ⟨hy, le⟩)
    obtain ⟨mset, eidm⟩ := mem_filter.1 mem
    have step : limitFrom set eid (k + 1) = m :: limitFrom set (m + 1) k := by
      simp only [limitFrom, nextMember, dif_pos ne, ← hm]
    -- what is left after `m`
    have rest : set.filter (m + 1 ≤ ·) = (set.filter (eid ≤ ·)).erase m := by
      ext y
      simp only [mem_filter, mem_erase]
      constructor
      · rintro ⟨hy, lt⟩
        exact ⟨by omega, hy, by omega⟩
      · rintro ⟨hne, hy, le⟩
        have := least y hy le
        exact ⟨hy, by omega⟩
    have left : k ≤ (set.filter (m + 1 ≤ ·)).card := by
      rw [rest, card_erase_of_mem mem]
      omega
    obtain ⟨len, nodup, mems⟩ := ih left
    rw [step]
    refine ⟨by simp [len], List.nodup_cons.2 ⟨fun h => ?_, nodup⟩, fun e => ?_⟩
    · have := ((mems m).1 h).2.1
      omega
    · rw [List.mem_cons, mems]
      by_cases em : e = m
      · subst em
        have none : (set.filter fun y => eid ≤ y ∧ y < e) = ∅ := by
          rw [filter_eq_empty_iff]
          rintro y hy ⟨le, lt⟩
          have := least y hy le
          omega
        simp [mset, eidm, none]
      · by_cases lt : m < e
        · have split : (set.filter fun y => eid ≤ y ∧ y < e) =
            insert m (set.filter fun y => m + 1 ≤ y ∧ y < e) := by
            ext y
            simp only [mem_filter, mem_insert]
            constructor
            · rintro ⟨hy, le, hlt⟩
              have := least y hy le
              by_cases ym : y = m
              · exact .inl ym
              · exact .inr ⟨hy, by omega, hlt⟩
            · rintro (rfl | ⟨hy, le, hlt⟩)
              · exact ⟨mset, eidm, lt⟩
              · exact ⟨hy, by omega, hlt⟩
          rw [split, card_insert_of_notMem (by simp)]
          constructor
          · rintro (h | ⟨hy, -, hc⟩)
            · exact absurd h em
            · exact ⟨hy, by omega, by omega⟩
          · rintro ⟨hy, -, hc⟩
            exact .inr ⟨hy, lt, by omega⟩
        · constructor
          · rintro (h | ⟨-, h, -⟩)
            · exact absurd h em
            · omega
          · rintro ⟨hy, le, -⟩
            have := least e hy le
            omega

end Limit

section Group
variable {g : EgroupInfo} {k e : Nat}

lemma mem_of_mem_limit (h : e ∈ g.limit k) : e ∈ g.eidSet := limitFrom_mem h

lemma EgroupInfo.Ok.filter_low (I : g.Ok) : g.eidSet.filter (g.minEid ≤ ·) = g.eidSet :=
  filter_true_of_mem fun y hy => I.low y hy

lemma EgroupInfo.Ok.mem_limit (I : g.Ok) (hk : k ≤ g.eidSet.card) :
    e ∈ g.limit k ↔ e ∈ g.eidSet ∧ g.rank e < k := by
  have below : (g.eidSet.filter fun y => g.minEid ≤ y ∧ y < e) = g.eidSet.filter (· < e) :=
    filter_congr fun y hy => ⟨fun h => h.2, fun h => ⟨I.low y hy, h⟩⟩
  rw [limit, (limitFrom_spec (by rwa [I.filter_low])).2.2, below, rank]
  exact ⟨fun h => ⟨h.1, h.2.2⟩, fun h => ⟨h.1, I.low e h.1, h.2⟩⟩

lemma EgroupInfo.Ok.limit_nodup (I : g.Ok) (hk : k ≤ g.eidSet.card) : (g.limit k).Nodup :=
  (limitFrom_spec (by rwa [I.filter_low])).2.1

lemma EgroupInfo.Ok.length_limit (I : g.Ok) (ne : g.size ≠ 0) : (g.limit k).length = k :=
  limitFrom_length (I.nonempty ne)

lemma EgroupInfo.Ok.limit_length (I : g.Ok) (hk : k ≤ g.eidSet.card) : (g.limit k).length = k :=
  (limitFrom_spec (by rwa [I.filter_low])).1

/-- The number of a member in the group (C++ `(int)eid2lid[eid]`; `KUPL_EGROUP_ID_NULL` is `-1` as an
`int`). -/
def EgroupInfo.tid (g : EgroupInfo) (e : Nat) : Int :=
  match g.eid2lid e with
  | none => -1
  | some l => l

lemma EgroupInfo.Ok.tid_inj (I : g.Ok) {a b : Nat} (ha : a ∈ g.eidSet) (h : g.tid a = g.tid b) : a = b := by
  obtain ⟨l, hl⟩ := Option.ne_none_iff_exists'.1 ((I.mem a).1 ha)
  simp only [tid, hl] at h
  cases hb : g.eid2lid b with
  | none =>
    simp only [hb] at h
    omega
  | some m =>
    simp only [hb] at h
    have : m = l := by omega
    exact I.inj a b l hl (this ▸ hb)

end Group
end Kupl.Group
