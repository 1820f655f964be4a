import Kupl.Script.Counts

/-!
# Spreading the locations of one rank

Scripts that copy what one rank has, its root, into the locations of the others: `origin l` is the location of the root
whose value a location is to have. If every copy works on ranks that are in the same call, and takes what is the root's
or has been written in this call (`Safe`), then a location that has been written in a call has what the root had when it
entered this call, until its rank leaves (`spread`).
-/

namespace Kupl.Script
open Function (update update_of_ne update_self)

variable {C L α : Type} [DecidableEq C] [DecidableEq L] [Add α]
variable {prog : Nat → List (Instr C L)} {owner : L → Nat} {origin : L → L} {n root p q k : Nat}
  {s s' : State C L α}
  {l : L} {a : Label L α} {g : State C L α → Label L α → Prop}

/-- A location has been written in call `k`. -/
def Written (prog : Nat → List (Instr C L)) (s : State C L α) (l : L) (k : Nat) : Prop :=
  ∃ q src, .copy l src ∈ prog q ∧ s.Has q k (.copy l src)

/-- The scripts only copy, each value into a location that is to have it. -/
structure Copies (prog : Nat → List (Instr C L)) (owner : L → Nat) (origin : L → L) (root : Nat) : Prop where
  own : ∀ l, owner l = root → origin l = l
  copy : ∀ p dst src, .copy dst src ∈ prog p → origin dst = origin src
  add : ∀ p dst a b, .add dst a b ∉ prog p

/-- A copy that is next works on ranks that are in the same call, and takes what the root has or what has been written
in this call. -/
def Safe (prog : Nat → List (Instr C L)) (owner : L → Nat) (root : Nat) (s : State C L α) : Prop :=
  ∀ q d t dst src, s.pc q = some (d, .copy dst src :: t) → s.Inside (owner dst) (s.left q) ∧
    s.Inside (owner src) (s.left q) ∧ (owner src = root ∨ Written prog s src (s.left q))

/-- A call is over for a rank, or it is in it. -/
def Came (s : State C L α) (p k : Nat) : Prop := k < s.left p ∨ s.Inside p k

/-- The invariant: who has been written to in a call has come to it, and the root has; and the values are right. -/
structure Spread (prog : Nat → List (Instr C L)) (owner : L → Nat) (origin : L → L) (root : Nat)
    (s : State C L α) :
    Prop where
  came : ∀ l k, Written prog s l k → Came s (owner l) k ∧ Came s root k
  value : ∀ l k, s.Inside (owner l) k → owner l = root ∨ Written prog s l k → s.val l = s.seen root k (origin l)

lemma Came.step (st : Step prog owner s a s') (h : Came s p k) : Came s' p k := by
  cases st with
  | @enter r out =>
    refine h.imp_right fun ⟨round, at_p⟩ => ⟨round, fun out' => ?_⟩
    by_cases same : p = r
    · exact at_p (by rw [same]; exact out)
    · exact at_p ((update_of_ne same ..).symm.trans out')
  | @run r d x t m at_r ex =>
    obtain ⟨-, left, -, -⟩ := exec_frame ex
    rw [Came, State.Inside]
    show k < m.left p ∨ (m.left p = k ∧ update s.pc r (some (d ++ [x], t)) p ≠ none)
    rw [left]
    refine h.imp_right fun ⟨round, at_p⟩ => ⟨round, ?_⟩
    by_cases same : p = r
    · rw [same, update_self]
      nofun
    · rwa [update_of_ne same]
  | @ret r d at_r =>
    by_cases same : p = r
    · subst same
      left
      show k < update s.left p (s.left p + 1) p
      rw [update_self]
      obtain before | ⟨round, -⟩ := h
      · omega
      · omega
    · rw [Came, State.Inside]
      show k < update s.left r _ p ∨ (update s.left r _ p = k ∧ update s.pc r none p ≠ none)
      rwa [update_of_ne same, update_of_ne same]
  | set => exact h

lemma Written.back (h : (machine n prog owner).Reach g s) (st : Step prog owner s a s') (W : Written prog s' l k) :
    Written prog s l k ∨ ∃ q src d t, a = .run q ∧ k = s.left q ∧ s.pc q = some (d, .copy l src :: t) := by
  obtain ⟨q, src, mem, H⟩ := W
  obtain H | ⟨round, is, t, at_q⟩ := (goes h st q).has_back mem H
  · exact .inl ⟨q, src, mem, H⟩
  · exact .inr ⟨q, src, _, t, is, round, at_q⟩

lemma inside_back (st : Step prog owner s a s') (h : s'.Inside p k) :
    s.Inside p k ∨ (a = .enter p ∧ s.pc p = none ∧ k = s.left p) := by
  obtain ⟨round, at_p⟩ := h
  cases st with
  | @enter r out =>
    by_cases same : p = r
    · subst same
      exact .inr ⟨rfl, out, round.symm⟩
    · exact .inl ⟨round, fun h => at_p ((update_of_ne same ..).trans h)⟩
  | @run r d x t m at_r ex =>
    obtain ⟨-, left, -, -⟩ := exec_frame ex
    left
    refine ⟨(congrFun left p).symm.trans round, fun h => ?_⟩
    by_cases same : p = r
    · rw [same, at_r] at h
      cases h
    · exact at_p ((update_of_ne same ..).trans h)
  | @ret r d at_r =>
    by_cases same : p = r
    · exact absurd (by rw [same]; exact update_self ..) at_p
    · left
      refine ⟨(update_of_ne same ..).symm.trans round, fun h => at_p ?_⟩
      exact (update_of_ne same ..).trans h
  | set => exact .inl ⟨round, at_p⟩

/-- Where every state is safe, what is written in a call is what the root had when it entered it. -/
theorem spread (cop : Copies prog owner origin root)
    (safe : ∀ s : State C L α, (machine n prog owner).Reach g s → Safe prog owner root s)
    (h : (machine n prog owner).Reach g s) : Spread prog owner origin root s := by
  induction h with
  | @init s start =>
    obtain ⟨-, pc, left⟩ := start
    have none (l k) : ¬ Written prog s l k := by
      rintro ⟨q, src, -, H⟩
      rw [State.Has, left, State.done_out (pc q)] at H
      obtain lt | ⟨-, mem⟩ := H
      · cases lt
      · cases mem
    exact ⟨fun l k W => absurd W (none l k), fun l k inside => absurd (pc _) inside.2⟩
  | @step s a s' h _ st ih =>
    obtain ⟨-, st⟩ := machine_step st
    have S := safe s h
    have spl := split h
    -- the root comes to a call with the first copy of it
    have came (l k) (W : Written prog s' l k) : Came s (owner l) k ∧ Came s root k := by
      obtain W | ⟨q, src, d, t, -, rfl, at_q⟩ := W.back h st
      · exact ih.came l k W
      · obtain ⟨dst_in, src_in, from_⟩ := S q d t l src at_q
        refine ⟨.inr dst_in, ?_⟩
        obtain isRoot | W := from_
        · rw [isRoot] at src_in
          exact .inr src_in
        · exact (ih.came src _ W).2
    refine ⟨fun l k W => ⟨(came l k W).1.step st, (came l k W).2.step st⟩, fun l k inside ready => ?_⟩
    have stays := inside_back st inside
    have back (not : ∀ q src d t, a = .run q → s.pc q ≠ some (d, .copy l src :: t)) :
      owner l = root ∨ Written prog s l k := by
      refine ready.imp_right fun W => ?_
      obtain W | ⟨q, src, d, t, is, -, at_q⟩ := W.back h st
      · exact W
      · exact absurd at_q (not q src d t is)
    cases st with
    | @enter r out =>
      have before := back (by rintro _ _ _ _ ⟨⟩)
      have not_in {k} : ¬ s.Inside r k := fun h => h.2 out
      obtain stays | ⟨is, -, isK⟩ := stays
      · have seen : update s.seen r (update (s.seen r) (s.left r) s.val) root k = s.seen root k := by
          by_cases isRoot : root = r
          · subst isRoot
            rw [update_self, update_of_ne]
            rintro rfl
            obtain isRoot | W := before
            · rw [isRoot] at stays
              exact not_in stays
            · obtain lt | inside := (ih.came l _ W).2
              · exact Nat.lt_irrefl _ lt
              · exact not_in inside
          · rw [update_of_ne isRoot]
        show s.val l = update s.seen r _ root k (origin l)
        rw [seen]
        exact ih.value l k stays before
      · obtain rfl := Label.enter.inj is
        obtain isRoot | W := before
        · show s.val l = update s.seen (owner l) _ root k (origin l)
          rw [← isRoot, update_self, isK, update_self, cop.own l isRoot]
        · obtain lt | inside := (ih.came l _ W).1
          · omega
          · exact absurd inside not_in
    | @run r d x t m at_r ex =>
      have seen := (exec_frame ex).2.2.1
      have stays : s.Inside (owner l) k := by
        obtain stays | ⟨is, -⟩ := stays
        · exact stays
        · cases is
      have mem : x ∈ prog r := by
        rw [← spl r d (x :: t) at_r]
        exact List.mem_append_right d List.mem_cons_self
      show m.val l = m.seen root k (origin l)
      rw [seen]
      obtain ⟨dst, src, rfl, val⟩ | ⟨dst, b, c, rfl, -⟩ | ⟨not, val⟩ := exec_val ex
      · obtain ⟨dst_in, src_in, from_⟩ := S r d t dst src at_r
        by_cases same : l = dst
        · subst same
          have round : k = s.left r := stays.1.symm.trans dst_in.1
          rw [val, update_self, cop.copy r l src mem, round]
          exact ih.value src _ src_in from_
        · rw [val, update_of_ne same]
          apply ih.value l k stays
          apply back
          intro q src' d' t' is at_q
          cases is
          cases at_r.symm.trans at_q
          exact same rfl
      · exact absurd mem (cop.add r dst b c)
      · rw [val]
        apply ih.value l k stays
        apply back
        intro q src' d' t' is at_q
        cases is
        cases at_r.symm.trans at_q
        exact not l src' rfl
    | @ret r d at_r =>
      obtain stays | ⟨is, -⟩ := stays
      · exact ih.value l k stays (back (by rintro _ _ _ _ ⟨⟩))
      · cases is
    | @set r f out =>
      obtain stays | ⟨is, -⟩ := stays
      · have other : owner l ≠ r := by
          intro isR
          rw [isR] at stays
          exact stays.2 out
        show (if owner l = r then f l else s.val l) = _
        rw [if_neg other]
        exact ih.value l k stays (back (by rintro _ _ _ _ ⟨⟩))
      · cases is

end Kupl.Script
