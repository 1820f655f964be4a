import Kupl.Script.Basic
import Mathlib.Data.List.Range

/-!
# What ranks with scripts have waited for

Where one rank only counts a counter up, the counter shows how often this rank has done so (`count_eq`). What holds
when a rank gets over an instruction, and only depends on how often the others have done theirs at least, holds ever
after (`passed`). So who has got over a wait knows how far the others have come (`passed_lt`, `passed_le`).
-/

namespace Kupl.Script
open List
open Function (update update_of_ne update_self)

section State
variable {C L α : Type} {prog : Nat → List (Instr C L)} {p k : Nat} {s s' : State C L α}
  {x y : Instr C L} {d d' t : List (Instr C L)}

namespace State

lemma done_in (at_p : s.pc p = some (d, t)) : s.done p = d := by
  rw [done, at_p]

lemma done_out (out : s.pc p = none) : s.done p = [] := by
  rw [done, out]

lemma done_eq (same : s'.pc p = s.pc p) : s'.done p = s.done p := by
  rw [done, done, same]

lemma inside_in (at_p : s.pc p = some (d, t)) : s.Inside p (s.left p) := ⟨rfl, by rw [at_p]; nofun⟩

end State

section Split
variable {I : Type} {A B u v : List I} {i : I}

lemma split_append (h : u ++ i :: v = A ++ B) :
    (∃ v', A = u ++ i :: v' ∧ v = v' ++ B) ∨ ∃ u', u = A ++ u' ∧ B = u' ++ i :: v := by
  obtain ⟨w, isA, rest⟩ | ⟨w, isU, isB⟩ := append_eq_append_iff.1 h
  · cases w with
    | nil =>
      rw [append_nil] at isA
      exact .inr ⟨[], by rw [isA, append_nil], rest.symm⟩
    | cons j w =>
      obtain ⟨isI, tail⟩ := List.cons.inj rest
      exact .inl ⟨w, by rw [isA, isI], tail⟩
  · exact .inr ⟨w, isU, isB⟩

lemma split_left (h : u ++ i :: v = A ++ B) (no : i ∉ B) : ∃ v', A = u ++ i :: v' ∧ v = v' ++ B := by
  obtain left | ⟨u', -, rfl⟩ := split_append h
  · exact left
  · exact absurd (mem_append_right u' mem_cons_self) no

lemma split_right (h : u ++ i :: v = A ++ B) (no : i ∉ A) : ∃ u', u = A ++ u' ∧ B = u' ++ i :: v := by
  obtain ⟨v', rfl, -⟩ | right := split_append h
  · exact absurd (mem_append_right u mem_cons_self) no
  · exact right

lemma split_flatMap {J : Type} {L : List J} {f : J → List I} (h : u ++ i :: v = L.flatMap f) : ∃ L₁ j L₂ u' v',
    L = L₁ ++ j :: L₂ ∧ f j = u' ++ i :: v' ∧ u = L₁.flatMap f ++ u' ∧ v = v' ++ L₂.flatMap f := by
  induction L generalizing u with
  | nil =>
    rw [flatMap_nil] at h
    exact absurd h (by simp only [append_eq_nil_iff, reduceCtorEq, and_false, not_false_eq_true])
  | cons j L ih =>
    rw [flatMap_cons] at h
    obtain ⟨w, isF, rest⟩ | ⟨w, isU, isRest⟩ := append_eq_append_iff.1 h
    · cases w with
      | nil =>
        rw [append_nil] at isF
        obtain ⟨L₁, j', L₂, u', v', rfl, isF', isU', rfl⟩ := ih (u := []) rest
        refine ⟨j :: L₁, j', L₂, u', v', rfl, isF', ?_, rfl⟩
        rw [flatMap_cons, append_assoc, ← isU', append_nil, isF]
      | cons i' w =>
        obtain ⟨isI, tail⟩ := List.cons.inj rest
        exact ⟨[], j, L, u, w, rfl, by rw [isF, isI], rfl, tail⟩
    · obtain ⟨L₁, j', L₂, u', v', rfl, isF', rfl, rfl⟩ := ih isRest.symm
      refine ⟨j :: L₁, j', L₂, u', v', rfl, isF', ?_, rfl⟩
      rw [isU, flatMap_cons, append_assoc]

lemma split_range {m i : Nat} {L₁ L₂ : List Nat} (is : List.range m = L₁ ++ i :: L₂) :
    i < m ∧ L₁ = List.range i := by
  have len := congrArg List.length is
  rw [length_range, length_append, length_cons] at len
  have first : L₁ = List.range L₁.length := by
    have take := congrArg (List.take L₁.length) is
    rw [take_left', take_range, Nat.min_eq_left (by omega)] at take
    · exact take.symm
    · rfl
  have here : i = L₁.length := by
    have get := congrArg (fun L => L[L₁.length]?) is
    rw [List.getElem?_range (by omega), List.getElem?_append_right (Nat.le_refl _), Nat.sub_self] at get
    exact (Option.some.inj get).symm
  exact ⟨by omega, by rw [here]; exact first⟩

end Split

lemma done_split (spl : ∀ d t, s.pc p = some (d, t) → d ++ t = prog p) : ∃ t, s.done p ++ t = prog p := by
  cases at_p : s.pc p with
  | none => exact ⟨prog p, by rw [State.done_out at_p]; rfl⟩
  | some r =>
    obtain ⟨d, t⟩ := r
    exact ⟨t, by rw [State.done_in at_p, spl d t at_p]⟩

lemma inside_of_has (H : s.Has p k x) (le : s.left p ≤ k) : s.Inside p k := by
  obtain after | ⟨round, mem⟩ := H
  · omega
  · refine ⟨round.symm, fun out => ?_⟩
    rw [State.done_out out] at mem
    cases mem

lemma State.Over.past (O : s.Over p k (d ++ y :: t)) : s.Past p k d := by
  refine O.imp_right fun ⟨round, le⟩ => ⟨round, ?_⟩
  rw [length_append, length_cons] at le
  omega

lemma State.Over.first (O : s.Over p k (d ++ d')) : s.Over p k d := by
  refine O.imp_right fun ⟨round, le⟩ => ⟨round, ?_⟩
  rw [length_append] at le
  omega

lemma State.Past.upTo (P : s.Past p k (d ++ d')) : s.Over p k d := by
  refine P.imp_right fun ⟨round, lt⟩ => ⟨round, ?_⟩
  rw [length_append] at lt
  omega

lemma over_left (left : k < s.left p) : s.Over p k d := .inl left

lemma over_in (at_p : s.pc p = some (d ++ d', t)) : s.Over p (s.left p) d := by
  refine .inr ⟨rfl, ?_⟩
  rw [State.done_in at_p, length_append]
  exact Nat.le_add_right _ _

lemma has_of_past (spl : ∀ d t, s.pc p = some (d, t) → d ++ t = prog p) (is : prog p = d ++ y :: t)
    (P : s.Past p k d) (mem : x ∈ d ++ [y]) : s.Has p k x := by
  obtain after | ⟨round, lt⟩ := P
  · exact .inl after
  · refine .inr ⟨round, ?_⟩
    obtain ⟨t', parts⟩ := done_split spl
    have pre : d ++ [y] <+: s.done p := by
      refine prefix_of_prefix_length_le ⟨t, ?_⟩ ⟨t', parts⟩ ?_
      · rw [is, append_assoc]
        rfl
      · rw [length_append, length_singleton]
        exact lt
    exact pre.subset mem

variable [DecidableEq C] [DecidableEq L]

lemma count_done_le (spl : ∀ d t, s.pc p = some (d, t) → d ++ t = prog p) :
    (s.done p).count x ≤ (prog p).count x := by
  obtain ⟨t, parts⟩ := done_split spl
  rw [← parts, count_append]
  omega

lemma past_of_count (spl : ∀ d t, s.pc p = some (d, t) → d ++ t = prog p) (is : prog p = d ++ y :: t)
    (more : k * (prog p).count x + d.count x < s.executed prog p x) : s.Past p k d := by
  have le := count_done_le (x := x) spl
  rw [State.executed] at more
  obtain before | here | after := Nat.lt_trichotomy (s.left p) k
  · have mul := Nat.mul_le_mul_right ((prog p).count x) before
    rw [Nat.succ_mul] at mul
    omega
  · refine .inr ⟨here.symm, ?_⟩
    by_contra short
    obtain ⟨t', parts⟩ := done_split spl
    rw [is] at parts
    have pre : s.done p <+: d := by
      refine prefix_of_prefix_length_le ⟨t', parts⟩ ⟨y :: t, rfl⟩ (Nat.le_of_not_lt short)
    have := pre.sublist.count_le x
    rw [here] at more
    omega
  · exact .inl after

lemma count_of_has (mem : x ∈ prog p) (H : s.Has p k x) : k * (prog p).count x + 1 ≤ s.executed prog p x := by
  have pos := count_pos_iff.2 mem
  rw [State.executed]
  obtain after | ⟨rfl, mem'⟩ := H
  · have mul := Nat.mul_le_mul_right ((prog p).count x) after
    rw [Nat.succ_mul] at mul
    omega
  · have pos' := count_pos_iff.2 mem'
    omega

end State

variable {C L α : Type} [DecidableEq C] [DecidableEq L] [Add α]
variable {prog : Nat → List (Instr C L)} {owner : L → Nat} {n p q k : Nat} {s s' m : State C L α} {x y : Instr C L}
  {d t : List (Instr C L)} {a : Label L α} {g : State C L α → Label L α → Prop}

section
variable (h : (machine n prog owner).Reach g s)
include h

lemma idle (beyond : n ≤ p) : s.pc p = none ∧ s.left p = 0 := by
  induction h with
  | init start => exact ⟨start.2.1 p, start.2.2 p⟩
  | @step s a s' h _ st ih =>
    obtain ⟨lt, st⟩ := machine_step st
    have other : p ≠ a.rank := by omega
    cases st with
    | enter => exact ⟨(update_of_ne other ..).trans ih.1, ih.2⟩
    | run at_r ex => exact ⟨(update_of_ne other ..).trans ih.1, (congrFun (exec_frame ex).2.1 p).trans ih.2⟩
    | ret => exact ⟨(update_of_ne other ..).trans ih.1, (update_of_ne other ..).trans ih.2⟩
    | set => exact ih

lemma rank_lt (at_p : s.pc p ≠ none) : p < n := by
  by_contra beyond
  exact at_p (idle h (Nat.le_of_not_lt beyond)).1

lemma split : ∀ p d t, s.pc p = some (d, t) → d ++ t = prog p := by
  refine h.inv (I := fun s => ∀ p d t, s.pc p = some (d, t) → d ++ t = prog p) (fun s start p d t at_p => ?_)
    fun s a s' I _ st p d t at_p => ?_
  · rw [start.2.1 p] at at_p
    cases at_p
  · obtain ⟨-, st⟩ := machine_step st
    cases st with
    | @enter r out =>
      by_cases same : p = r
      · subst same
        have self := (update_self p (some ([], prog p)) s.pc).symm.trans at_p
        cases self
        rfl
      · exact I p d t ((update_of_ne same _ s.pc).symm.trans at_p)
    | @run r d' x t' m at_r ex =>
      by_cases same : p = r
      · subst same
        have self := (update_self p (some (d' ++ [x], t')) s.pc).symm.trans at_p
        cases self
        rw [← I p d' (x :: t) at_r, append_assoc]
        rfl
      · exact I p d t ((update_of_ne same _ s.pc).symm.trans at_p)
    | @ret r d' at_r =>
      by_cases same : p = r
      · subst same
        have self := (update_self p none s.pc).symm.trans at_p
        cases self
      · exact I p d t ((update_of_ne same _ s.pc).symm.trans at_p)
    | set => exact I p d t at_p

end

/-- What a step means for a rank. -/
inductive Goes (prog : Nat → List (Instr C L)) (s s' : State C L α) (a : Label L α) (q : Nat) : Prop
  | stays (other : a ≠ .run q) (left : s'.left q = s.left q) (done : s'.done q = s.done q)
  | does (x : Instr C L) (t : List (Instr C L)) (m : State C L α) (is : a = .run q)
      (at_q : s.pc q = some (s.done q, x :: t)) (ex : exec q s x = some m) (count : s'.count = m.count)
      (left : s'.left q = s.left q) (done : s'.done q = s.done q ++ [x])
  | leaves (is : a = .ret q) (all : s.done q = prog q) (left : s'.left q = s.left q + 1) (done : s'.done q = [])

lemma goes (h : (machine n prog owner).Reach g s) (st : Step prog owner s a s') (q : Nat) : Goes prog s s' a q := by
  cases st with
  | @enter r out =>
    refine .stays nofun rfl ?_
    by_cases same : q = r
    · subst same
      rw [State.done_out out]
      exact State.done_in (update_self ..)
    · exact State.done_eq (update_of_ne same ..)
  | @run r d x t m at_r ex =>
    obtain ⟨pc, left, -, -⟩ := exec_frame ex
    by_cases same : q = r
    · subst same
      have isDone := State.done_in at_r
      refine .does x t m rfl (by rw [isDone, at_r]) ex rfl (congrFun left q) ?_
      rw [isDone]
      exact State.done_in (update_self ..)
    · refine .stays (fun h => same ?_) (congrFun left q) (State.done_eq (update_of_ne same ..))
      exact (Label.run.inj h).symm
  | @ret r d at_r =>
    by_cases same : q = r
    · subst same
      refine .leaves rfl ?_ (update_self ..) (State.done_out (update_self ..))
      rw [State.done_in at_r, ← split h q d [] at_r, append_nil]
    · exact .stays nofun (update_of_ne same ..) (State.done_eq (update_of_ne same ..))
  | set => exact .stays nofun rfl rfl

lemma Goes.executed_le (G : Goes prog s s' a q) (y : Instr C L) : s.executed prog q y ≤ s'.executed prog q y := by
  rw [State.executed, State.executed]
  cases G with
  | stays other left done => exact Nat.le_of_eq (by rw [left, done])
  | does x t m is at_q ex count left done =>
    rw [left, done, count_append]
    omega
  | leaves is all left done =>
    rw [left, done, all, Nat.succ_mul]
    omega

lemma Goes.past (G : Goes prog s s' a q) {before : List (Instr C L)} (is : prog q = before ++ x :: t)
    (spl : ∀ d t, s.pc q = some (d, t) → d ++ t = prog q) (P : s'.Past q k before) :
    s.Past q k before ∨ (k = s.left q ∧ s.pc q = some (before, x :: t) ∧ ∃ m, exec q s x = some m) := by
  rw [State.Past] at P ⊢
  cases G with
  | stays other left done =>
    rw [left, done] at P
    exact .inl P
  | does y t₁ m isRun at_q ex count left done =>
    rw [left, done, length_append, length_singleton] at P
    obtain before_ | ⟨round, lt⟩ := P
    · exact .inl (.inl before_)
    · obtain lt | same := Nat.lt_or_eq_of_le (Nat.le_of_lt_succ lt)
      · exact .inl (.inr ⟨round, lt⟩)
      · have parts := (spl _ _ at_q).trans is
        obtain ⟨isDone, rest⟩ := append_inj parts same.symm
        cases rest
        rw [← isDone]
        exact .inr ⟨round, at_q, m, ex⟩
  | leaves isRet all left done =>
    rw [left, done] at P
    obtain lt | ⟨-, lt⟩ := P
    · left
      obtain before_ | round := Nat.lt_or_eq_of_le (Nat.le_of_lt_succ lt)
      · exact .inl before_
      · refine .inr ⟨round, ?_⟩
        rw [all, is, length_append, length_cons]
        omega
    · cases lt

lemma count_eq {writer : C → Nat} (own : ∀ p c, .inc c ∈ prog p → writer c = p)
    (h : (machine n prog owner).Reach g s) (c : C) : s.count c = s.executed prog (writer c) (.inc c) := by
  induction h with
  | init start =>
    obtain ⟨count, pc, left⟩ := start
    rw [count c, State.executed, left, State.done_out (pc _), Nat.zero_mul]
    rfl
  | @step s a s' h _ st ih =>
    obtain ⟨-, st⟩ := machine_step st
    rw [State.executed] at ih ⊢
    cases goes h st (writer c) with
    | stays other left done =>
      rw [left, done, ← ih]
      cases st with
      | @run r d x t m at_r ex =>
        have count := (exec_frame ex).2.2.2 c
        rw [if_neg] at count
        · exact count
        · intro isInc
          have mem : .inc c ∈ prog r := by
            rw [← split h r d (x :: t) at_r, isInc]
            exact mem_append_right d mem_cons_self
          exact other (by rw [own r c mem])
      | enter | ret | set => rfl
    | does x t m is at_q ex count left done =>
      have one := (exec_frame ex).2.2.2 c
      rw [count, one, left, done, count_append, count_singleton, ih]
      by_cases same : x = .inc c
      · rw [if_pos same, if_pos (by rw [same]; exact beq_self_eq_true _)]
        omega
      · rw [if_neg same, if_neg fun h => same (eq_of_beq h)]
        omega
    | leaves is all left done =>
      have count : s'.count = s.count := by
        rw [is] at st
        cases st
        rfl
      rw [count, ih, left, done, all, Nat.succ_mul]
      rfl

lemma passed {N : Nat → Nat → List (Instr C L) → Instr C L → (Nat → Instr C L → Nat) → Prop}
    (mono : ∀ p k d x E E', (∀ q y, E q y ≤ E' q y) → N p k d x E → N p k d x E')
    (pass : ∀ s, (machine n prog owner).Reach g s → ∀ p d x t m, s.pc p = some (d, x :: t) →
      exec p s x = some m →
      N p (s.left p) d x (s.executed prog))
    (h : (machine n prog owner).Reach g s) (is : prog p = d ++ x :: t) (P : s.Past p k d) :
    N p k d x (s.executed prog) := by
  induction h generalizing p k d x t with
  | init start =>
    obtain ⟨-, pc, left⟩ := start
    rw [State.Past, left, State.done_out (pc p)] at P
    obtain lt | ⟨-, lt⟩ := P
    · cases lt
    · cases lt
  | @step s a s' h _ st ih =>
    obtain ⟨-, st⟩ := machine_step st
    apply mono _ _ _ _ _ _ fun q y => (goes h st q).executed_le y
    obtain P | ⟨rfl, at_p, m, ex⟩ := (goes h st p).past is (split h p) P
    · exact ih is P
    · exact pass s h p d x t m at_p ex

/-! ## Waits -/

section Waits
variable {writer : C → Nat} {b c c' : C}

section
variable (own : ∀ p c, .inc c ∈ prog p → writer c = p)
include own

section
variable (h : (machine n prog owner).Reach g s)
include h

lemma passed_lt {a : C} (mine : writer a = p) (is : prog p = d ++ .waitLt a b :: t) (P : s.Past p k d) :
    k * (prog p).count (.inc a) + d.count (.inc a) < s.executed prog (writer b) (.inc b) := by
  refine passed (N := fun p k d x E => ∀ a b, x = .waitLt a b → writer a = p →
    k * (prog p).count (.inc a) + d.count (.inc a) < E (writer b) (.inc b)) ?_ ?_ h is P a b rfl mine
  · exact fun p k d x E E' le need a b isX mine => Nat.lt_of_lt_of_le (need a b isX mine) (le _ _)
  · rintro s h p d x t m at_p ex a b rfl rfl
    have less := exec_waitLt ex
    rw [count_eq own h a, count_eq own h b, State.executed, State.done_in at_p] at less
    exact less

lemma passed_le {a : C} (mine : writer a = p) (is : prog p = d ++ .waitLe a b :: t) (P : s.Past p k d) :
    k * (prog p).count (.inc a) + d.count (.inc a) ≤ s.executed prog (writer b) (.inc b) := by
  refine passed (N := fun p k d x E => ∀ a b, x = .waitLe a b → writer a = p →
    k * (prog p).count (.inc a) + d.count (.inc a) ≤ E (writer b) (.inc b)) ?_ ?_ h is P a b rfl mine
  · exact fun p k d x E E' le need a b isX mine => Nat.le_trans (need a b isX mine) (le _ _)
  · rintro s h p d x t m at_p ex a b rfl rfl
    have less := exec_waitLe ex
    rw [count_eq own h a, count_eq own h b, State.executed, State.done_in at_p] at less
    exact less

omit own in
lemma reg_low {low : Nat → Nat → Nat} (load : ∀ s, (machine n prog owner).Reach g s →
    ∀ p d c t, g s (.run p) → s.pc p = some (d, .load c :: t) →
      low p (s.left p) ≤ s.count c) (at_p : s.pc p ≠ none) (loaded : .load c' ∈ s.done p) :
    low p (s.left p) ≤ s.reg p := by
  induction h with
  | init start => exact absurd (start.2.1 p) at_p
  | @step s a s' h allowed st ih =>
    obtain ⟨-, st⟩ := machine_step st
    cases st with
    | @enter r out =>
      by_cases same : p = r
      · subst same
        rw [State.done_in (update_self ..)] at loaded
        cases loaded
      · rw [State.done_eq (update_of_ne same ..)] at loaded
        exact ih (fun h => at_p ((update_of_ne same ..).trans h)) loaded
    | @run r d x t m at_r ex =>
      have left := (exec_frame ex).2.1
      show low p (m.left p) ≤ m.reg p
      rw [left]
      by_cases same : p = r
      · subst same
        rw [State.done_in (update_self ..)] at loaded
        obtain reg | ⟨c, rfl, reg⟩ := exec_reg ex
        · obtain before | last := mem_append.1 loaded
          · rw [reg]
            rw [← State.done_in at_r] at before
            exact ih (by rw [at_r]; nofun) before
          · cases mem_singleton.1 last
            cases ex
            show low p (s.left p) ≤ update s.reg p (s.count c') p
            rw [update_self]
            exact load s h p d c' t allowed at_r
        · rw [reg, update_self]
          exact load s h p d c t allowed at_r
      · have reg : m.reg p = s.reg p := by
          obtain reg | ⟨c, rfl, reg⟩ := exec_reg ex
          · rw [reg]
          · rw [reg, update_of_ne same]
        rw [State.done_eq (update_of_ne same ..)] at loaded
        rw [reg]
        exact ih (fun h => at_p ((update_of_ne same ..).trans h)) loaded
    | @ret r d at_r =>
      by_cases same : p = r
      · exact absurd (by rw [same]; exact update_self ..) at_p
      · rw [State.done_eq (update_of_ne same ..)] at loaded
        have left : update s.left r (s.left r + 1) p = s.left p := update_of_ne same ..
        show low p (update s.left r (s.left r + 1) p) ≤ s.reg p
        rw [left]
        exact ih (fun h => at_p ((update_of_ne same ..).trans h)) loaded
    | set => exact ih at_p loaded

lemma passed_reg {low : Nat → Nat → Nat}
    (load : ∀ s, (machine n prog owner).Reach g s → ∀ p d c t, g s (.run p) →
      s.pc p = some (d, .load c :: t) →
      low p (s.left p) ≤ s.count c) (loaded : .load c' ∈ d) (is : prog p = d ++ .waitReg c :: t)
        (P : s.Past p k d) :
    low p k ≤ s.executed prog (writer c) (.inc c) := by
  refine passed (N := fun p k d x E => ∀ c c', x = .waitReg c → .load c' ∈ d →
    low p k ≤ E (writer c) (.inc c))
    ?_ ?_ h is P c c' rfl loaded
  · exact fun p k d x E E' le need c c' isX loaded => Nat.le_trans (need c c' isX loaded) (le _ _)
  · rintro s h p d x t m at_p ex c c' rfl loaded
    have le := exec_waitReg ex
    rw [count_eq own h c] at le
    rw [← State.done_in at_p] at loaded
    exact Nat.le_trans (reg_low h load (by rw [at_p]; nofun) loaded) le

end

end

end Waits

/-! ## Who is past what -/

lemma Goes.has (G : Goes prog s s' a q) (H : s.Has q k x) : s'.Has q k x := by
  rw [State.Has] at H ⊢
  cases G with
  | stays other left done => rwa [left, done]
  | does y t m is at_q ex count left done =>
    rw [left, done]
    exact H.imp_right fun h => ⟨h.1, mem_append_left _ h.2⟩
  | leaves is all left done =>
    rw [left]
    left
    obtain after | ⟨round, -⟩ := H
    · omega
    · omega

lemma Goes.has_back (G : Goes prog s s' a q) (mem : x ∈ prog q) (H : s'.Has q k x) :
    s.Has q k x ∨ (k = s.left q ∧ a = .run q ∧ ∃ t, s.pc q = some (s.done q, x :: t)) := by
  rw [State.Has] at H ⊢
  cases G with
  | stays other left done =>
    rw [left, done] at H
    exact .inl H
  | does y t m is at_q ex count left done =>
    rw [left, done] at H
    obtain before | ⟨round, mem⟩ := H
    · exact .inl (.inl before)
    · obtain before | last := mem_append.1 mem
      · exact .inl (.inr ⟨round, before⟩)
      · cases mem_singleton.1 last
        exact .inr ⟨round, is, t, at_q⟩
  | leaves is all left done =>
    rw [left, done] at H
    left
    obtain lt | ⟨-, mem'⟩ := H
    · obtain before | round := Nat.lt_or_eq_of_le (Nat.le_of_lt_succ lt)
      · exact .inl before
      · refine .inr ⟨round, ?_⟩
        rwa [all]
    · cases mem'

lemma Goes.upTo (G : Goes prog s s' a q) (O : s.Over q k d) : s'.Over q k d := by
  rw [State.Over] at O ⊢
  cases G with
  | stays other left done => rwa [left, done]
  | does y t m is at_q ex count left done =>
    rw [left, done, length_append]
    exact O.imp_right fun h => ⟨h.1, Nat.le_trans h.2 (Nat.le_add_right _ _)⟩
  | leaves is all left done =>
    rw [left]
    left
    obtain after | ⟨round, -⟩ := O
    · omega
    · omega

lemma left_with {N : Nat → State C L α → Prop} (h : (machine n prog owner).Reach g s)
    (ret : ∀ s, (machine n prog owner).Reach g s → g s (.ret p) → N (s.left p) s)
    (lasts : ∀ s a s', (machine n prog owner).Reach g s → Step prog owner s a s' → ∀ k, N k s → N k s')
    (left : k < s.left p) : N k s := by
  induction h with
  | init start =>
    rw [start.2.2 p] at left
    cases left
  | @step s a s' h allowed st ih =>
    obtain ⟨-, st⟩ := machine_step st
    apply lasts s a s' h st
    cases goes h st p with
    | stays other left' done | does x t m is at_p ex count left' done => exact ih (left' ▸ left)
    | leaves is all left' done =>
      rw [left'] at left
      obtain before | here := Nat.lt_or_eq_of_le (Nat.le_of_lt_succ left)
      · exact ih before
      · rw [here]
        rw [is] at allowed
        exact ret s h allowed

end Kupl.Script
