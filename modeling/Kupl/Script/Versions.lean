import Kupl.Script.Spread

/-!
# Locations that are written in a fixed order

A plan says in which order the writes to each location are done in a call (`turn`), after which of them an instruction
reads (`reads`), and what the location has then (`value`), as a function of what all locations were when their ranks
entered the call. If whoever is about to work on a location finds exactly the writes done that the plan says
(`Timely`), then every location has what the plan says (`planned`).

The numbers of the writes need not be consecutive: a location has the same value after `u` and after `u'` if no write
comes between.
-/

namespace Kupl.Script
open List
open Function (update update_of_ne update_self)

section Plan
variable {C L α : Type}

def Instr.dst : Instr C L → Option L
  | .copy dst _ | .add dst _ _ => some dst
  | _ => none

def Instr.srcs : Instr C L → List L
  | .copy _ src => [src]
  | .add _ a b => [a, b]
  | _ => []

/-- The order of the writes, and what the locations are in between. -/
structure Plan (C L α : Type) where
  turn : Nat → Instr C L → Nat
  reads : Nat → Instr C L → L → Nat
  value : (L → α) → L → Nat → α

variable {prog : Nat → List (Instr C L)} {P : Plan C L α} {s : State C L α} {l : L} {k u v : Nat}

/-- The writes to a location that have been done in call `k` are those before `u`. -/
def Plan.At (P : Plan C L α) (prog : Nat → List (Instr C L)) (s : State C L α) (l : L) (k u : Nat) : Prop :=
  ∀ q x, x ∈ prog q → x.dst = some l → (s.Has q k x ↔ P.turn q x < u)

structure Plan.Fits [Add α] (P : Plan C L α) (prog : Nat → List (Instr C L)) : Prop where
  start : ∀ init l, P.value init l 0 = init l
  same : ∀ init l u v, (∀ q x, x ∈ prog q → x.dst = some l → (P.turn q x < u ↔ P.turn q x < v)) →
    P.value init l u = P.value init l v
  copy : ∀ init q dst src, .copy dst src ∈ prog q →
    P.value init dst (P.turn q (.copy dst src) + 1) = P.value init src (P.reads q (.copy dst src) src)
  add : ∀ init q dst a b, .add dst a b ∈ prog q → P.value init dst (P.turn q (.add dst a b) + 1) =
    P.value init a (P.reads q (.add dst a b) a) + P.value init b (P.reads q (.add dst a b) b)
  distinct : ∀ q x r y l, x ∈ prog q → y ∈ prog r → x.dst = some l → y.dst = some l →
    P.turn q x = P.turn r y →
    q = r ∧ x = y

/-- Whoever is about to work on a location finds its rank in the same call, and the writes done that come before. -/
structure Plan.Timely (P : Plan C L α) (prog : Nat → List (Instr C L)) (owner : L → Nat)
    (s : State C L α) : Prop where
  writes : ∀ q d x t l, s.pc q = some (d, x :: t) → x.dst = some l →
    s.Inside (owner l) (s.left q) ∧ P.At prog s l (s.left q) (P.turn q x)
  reads : ∀ q d x t l, s.pc q = some (d, x :: t) → l ∈ x.srcs →
    s.Inside (owner l) (s.left q) ∧ P.At prog s l (s.left q) (P.reads q x l)

/-- The invariant: who has been written to in a call has come to it, and what is written is what the plan says, for
all that the locations may be where their ranks have not come yet. -/
structure Plan.Holds (P : Plan C L α) (prog : Nat → List (Instr C L)) (owner : L → Nat)
    (s : State C L α) : Prop where
  came : ∀ q x l k, x ∈ prog q → x.dst = some l → s.Has q k x → Came s (owner l) k
  value : ∀ k init, (∀ l, Came s (owner l) k → init l = s.seen (owner l) k l) → ∀ l, s.Inside (owner l) k →
    ∃ u, P.At prog s l k u ∧ s.val l = P.value init l u

lemma Plan.At.same [Add α] (F : P.Fits prog) (A : P.At prog s l k u) (B : P.At prog s l k v) (init : L → α) :
    P.value init l u = P.value init l v :=
  F.same init l u v fun q x mem dst => (A q x mem dst).symm.trans (B q x mem dst)

lemma Plan.Holds.val_eq [Add α] {owner : L → Nat} (H : P.Holds prog owner s) (F : P.Fits prog)
    (inside : s.Inside (owner l) k)
    (A : P.At prog s l k u) : s.val l = P.value (fun l => s.seen (owner l) k l) l u := by
  obtain ⟨v, B, val⟩ := H.value k _ (fun _ _ => rfl) l inside
  rw [val]
  exact B.same F A _

end Plan

variable {C L α : Type} [DecidableEq C] [DecidableEq L] [Add α]
variable {prog : Nat → List (Instr C L)} {owner : L → Nat} {P : Plan C L α} {n q k u : Nat} {s s' m : State C L α}
  {l : L} {a : Label L α} {x : Instr C L} {d t : List (Instr C L)} {g : State C L α → Label L α → Prop}

lemma at_stays (h : (machine n prog owner).Reach g s) (st : Step prog owner s a s')
    (not : ∀ q d x t, a = .run q → s.pc q = some (d, x :: t) → x.dst = some l → s.left q ≠ k)
    (A : P.At prog s l k u) :
    P.At prog s' l k u := by
  intro q x mem dst
  rw [← A q x mem dst]
  refine ⟨fun H => ?_, fun H => (goes h st q).has H⟩
  obtain H | ⟨round, is, t, at_q⟩ := (goes h st q).has_back mem H
  · exact H
  · exact absurd round.symm (not q _ x t is at_q dst)

section Effect
variable {mem mem' : L → α}
omit [DecidableEq C]

/-- What an instruction makes of the locations. -/
def effect (mem : L → α) : Instr C L → L → α
  | .copy dst src => update mem dst (mem src)
  | .add dst a b => update mem dst (mem a + mem b)
  | _ => mem

/-- What instructions make of the locations, one after the other. -/
def after (mem : L → α) (d : List (Instr C L)) : L → α := d.foldl effect mem

lemma after_append : after mem (d ++ t) = after (after mem d) t := foldl_append

lemma effect_of_ne (ne : x.dst ≠ some l) : effect mem x l = mem l := by
  cases x with
  | copy | add => exact update_of_ne (fun is => ne (congrArg some is.symm)) ..
  | inc | waitLt | waitLe | load | waitReg => rfl

lemma effect_congr (same : ∀ l ∈ x.srcs, mem l = mem' l) (dst : x.dst = some l) :
    effect mem x l = effect mem' x l := by
  cases x with
  | copy dst' src =>
    cases dst
    simp only [effect, update_self, same src mem_cons_self]
  | add dst' a b =>
    cases dst
    simp only [effect, update_self, same a mem_cons_self, same b (mem_cons_of_mem a mem_cons_self)]
  | inc | waitLt | waitLe | load | waitReg => cases dst

lemma after_of_ne (ne : ∀ x ∈ d, x.dst ≠ some l) : after mem d l = mem l := by
  induction d generalizing mem with
  | nil => rfl
  | cons x d ih =>
    rw [forall_mem_cons] at ne
    exact (ih ne.2).trans (effect_of_ne ne.1)

/-- What one of several instructions does that leave its locations to it. -/
lemma after_each {f : Nat → Instr C L} {i : Nat} (lt : i < k) (dst : (f i).dst = some l)
    (ne : ∀ j < k, j ≠ i → ∀ l' ∈ l :: (f i).srcs, (f j).dst ≠ some l') :
    after mem ((List.range k).map f) l = effect mem (f i) l := by
  induction k with
  | zero => cases lt
  | succ k ih =>
    rw [range_succ, map_append, after_append]
    show effect (after mem ((List.range k).map f)) (f k) l = _
    obtain lt | rfl := Nat.lt_succ_iff_lt_or_eq.1 lt
    · rw [effect_of_ne (ne k k.lt_succ_self (Nat.ne_of_gt lt) l mem_cons_self)]
      exact ih lt fun j lt => ne j (Nat.lt_succ_of_lt lt)
    · refine effect_congr (fun l' src => after_of_ne fun x isX => ?_) dst
      obtain ⟨j, isJ, rfl⟩ := mem_map.1 isX
      have lt := mem_range.1 isJ
      exact ne j (Nat.lt_succ_of_lt lt) (Nat.ne_of_lt lt) l' (mem_cons_of_mem l src)

end Effect

lemma exec_effect (ex : exec q s x = some m) : m.val = effect s.val x := by
  obtain ⟨dst, src, rfl, val⟩ | ⟨dst, a, b, rfl, val⟩ | ⟨not, val⟩ := exec_val ex
  · exact val
  · exact val
  · cases x with
    | copy dst src => exact absurd rfl (not dst src)
    | add => cases ex; rfl
    | inc | waitLt | waitLe | load | waitReg => exact val

lemma seen_stays {p : Nat} (st : Step prog owner s a s') (came : Came s p k) : s'.seen p k = s.seen p k := by
  cases st with
  | @enter r out =>
    show update s.seen r _ p k = s.seen p k
    by_cases same : p = r
    · subst same
      rw [update_self, update_of_ne]
      rintro rfl
      obtain lt | inside := came
      · exact Nat.lt_irrefl _ lt
      · exact inside.2 out
    · rw [update_of_ne same]
  | @run r d x t m at_r ex =>
    show m.seen p k = s.seen p k
    rw [(exec_frame ex).2.2.1]
  | ret | set => rfl

lemma exec_planned (F : P.Fits prog) (T : P.Timely prog owner s) (H : P.Holds prog owner s)
    (at_q : s.pc q = some (d, x :: t)) (mem : x ∈ prog q) (ex : exec q s x = some m) (dst : x.dst = some l)
    (init : L → α) (known : ∀ l, Came s (owner l) (s.left q) → init l = s.seen (owner l) (s.left q) l) :
    m.val l = P.value init l (P.turn q x + 1) := by
  have read l' (src : l' ∈ x.srcs) : s.val l' = P.value init l' (P.reads q x l') := by
    obtain ⟨inside, here⟩ := T.reads q d x t l' at_q src
    obtain ⟨u, A, val⟩ := H.value _ init known l' inside
    rw [val]
    exact A.same F here init
  cases x with
  | copy dst' src =>
    cases dst
    cases ex
    rw [F.copy init q _ src mem]
    exact (update_self ..).trans (read src mem_cons_self)
  | add dst' a b =>
    cases dst
    cases ex
    rw [F.add init q _ a b mem, ← read a mem_cons_self, ← read b (mem_cons_of_mem a mem_cons_self)]
    exact update_self ..
  | inc | waitLt | waitLe | load | waitReg => cases dst

/-- Where every state is timely, every location has what the plan says. -/
theorem planned (F : P.Fits prog) (timely : ∀ s : State C L α, (machine n prog owner).Reach g s →
    P.Timely prog owner s)
    (h : (machine n prog owner).Reach g s) : P.Holds prog owner s := by
  induction h with
  | @init s start =>
    obtain ⟨-, pc, left⟩ := start
    refine ⟨fun q x l k _ _ H => ?_, fun k init _ l inside => absurd (pc _) inside.2⟩
    rw [State.Has, left, State.done_out (pc q)] at H
    obtain lt | ⟨-, mem⟩ := H
    · cases lt
    · cases mem
  | @step s a s' h _ st ih =>
    obtain ⟨-, st⟩ := machine_step st
    have T := timely s h
    have spl := split h
    constructor
    case came =>
      intro q x l k mem dst H
      obtain H | ⟨rfl, -, t, at_q⟩ := (goes h st q).has_back mem H
      · exact (ih.came q x l k mem dst H).step st
      · exact Came.step st (.inr (T.writes q _ x t l at_q dst).1)
    case value =>
      intro k init known l inside
      have known' (l) (came : Came s (owner l) k) : init l = s.seen (owner l) k l := by
        rw [known l (came.step st), seen_stays st came]
      -- nobody works on the location in a step that leaves it as it is
      have stays (before : s.Inside (owner l) k) (val : s'.val l = s.val l)
          (not : ∀ q d x t, a = .run q → s.pc q = some (d, x :: t) → x.dst = some l → s.left q ≠ k) :
          ∃ u, P.At prog s' l k u ∧ s'.val l = P.value init l u := by
        obtain ⟨u, A, isU⟩ := ih.value k init known' l before
        exact ⟨u, at_stays h st not A, val.trans isU⟩
      have back := inside_back st inside
      cases st with
      | @enter r out =>
        obtain before | ⟨is, -, isK⟩ := back
        · exact stays before rfl (by rintro _ _ _ _ ⟨⟩)
        · obtain rfl := Label.enter.inj is
          refine ⟨0, fun q x mem dst => ?_, ?_⟩
          · refine ⟨fun H => ?_, fun lt => absurd lt (Nat.not_lt_zero _)⟩
            obtain H | ⟨-, is', -⟩ := (goes h (Step.enter out) q).has_back mem H
            · obtain lt | inside := ih.came q x l k mem dst H
              · omega
              · exact absurd out inside.2
            · cases is'
          · rw [F.start, known l (.inr inside), isK]
            show s.val l = update s.seen (owner l) _ (owner l) (s.left (owner l)) l
            rw [update_self, update_self]
      | @run r d x t m at_r ex =>
        obtain before | ⟨is, -⟩ := back
        · have mem : x ∈ prog r := by
            rw [← spl r d (x :: t) at_r]
            exact mem_append_right d mem_cons_self
          by_cases here : x.dst = some l ∧ s.left r = k
          · obtain ⟨dst, rfl⟩ := here
            refine ⟨P.turn r x + 1, fun q y mem' dst' => ?_, exec_planned F T ih at_r mem ex dst init known'⟩
            rw [Nat.lt_succ_iff_lt_or_eq, ← (T.writes r d x t l at_r dst).2 q y mem' dst']
            constructor
            · intro H
              obtain H | ⟨-, is, t', at_q⟩ := (goes h (.run at_r ex) q).has_back mem' H
              · exact .inl H
              · cases is
                cases at_r.symm.trans at_q
                exact .inr rfl
            · rintro (H | turn)
              · exact (goes h (.run at_r ex) q).has H
              · obtain ⟨rfl, rfl⟩ := F.distinct q y r x l mem' mem dst' dst turn
                refine .inr ⟨(congrFun (exec_frame ex).2.1 q).symm, ?_⟩
                rw [State.done_in (update_self ..)]
                exact mem_append_right d mem_cons_self
          · refine stays before ?_ fun q d' y t' is at_q dst round => ?_
            · show m.val l = s.val l
              rw [exec_effect ex, effect_of_ne fun dst => here
                ⟨dst, (T.writes r d x t l at_r dst).1.1.symm.trans before.1⟩]
            · cases is
              cases at_r.symm.trans at_q
              exact here ⟨dst, round⟩
        · cases is
      | @ret r d at_r =>
        obtain before | ⟨is, -⟩ := back
        · exact stays before rfl (by rintro _ _ _ _ ⟨⟩)
        · cases is
      | @set r f out =>
        obtain before | ⟨is, -⟩ := back
        · refine stays before ?_ (by rintro _ _ _ _ ⟨⟩)
          have other : owner l ≠ r := by
            intro isR
            rw [isR] at before
            exact before.2 out
          exact if_neg other
        · cases is

/-! ## Copies of what nobody writes -/

section Exchange
omit [DecidableEq C] [DecidableEq L] [Add α]

/-- The scripts only copy, into each location from one other, to which nothing is copied. -/
structure Exchange (prog : Nat → List (Instr C L)) : Prop where
  add : ∀ p dst a b, .add dst a b ∉ prog p
  unique : ∀ p q dst src src', .copy dst src ∈ prog p → .copy dst src' ∈ prog q → p = q ∧ src = src'
  apart : ∀ p q dst src src', .copy dst src ∈ prog p → .copy src src' ∉ prog q

open Classical in
/-- What a location is copied from. -/
noncomputable def source (prog : Nat → List (Instr C L)) (l : L) : L :=
  if h : ∃ src p, .copy l src ∈ prog p then h.choose else l

/-- Each location is written once at most. -/
noncomputable def exchange (prog : Nat → List (Instr C L)) : Plan C L α where
  turn _ _ := 0
  reads _ _ _ := 0
  value init l u := if u = 0 then init l else init (source prog l)

variable {p : Nat} {dst src : L} (E : Exchange prog)
include E

lemma source_eq (mem : .copy dst src ∈ prog p) : source prog dst = src := by
  have some : ∃ src p, .copy dst src ∈ prog p := ⟨src, p, mem⟩
  rw [source, dif_pos some]
  obtain ⟨q, mem'⟩ := some.choose_spec
  exact (E.unique q p dst _ src mem' mem).2

lemma copy_of_dst (mem : x ∈ prog q) (dst : x.dst = some l) : ∃ src, x = .copy l src := by
  cases x with
  | copy l' src =>
    cases dst
    exact ⟨src, rfl⟩
  | add l' a b => exact absurd mem (E.add q l' a b)
  | inc | waitLt | waitLe | load | waitReg => cases dst

lemma exchange_fits [Add α] : (exchange prog : Plan C L α).Fits prog := by
  constructor
  case start =>
    intro init l
    show (if 0 = 0 then init l else init (source prog l)) = init l
    rw [if_pos rfl]
  case same =>
    intro init l u v same
    show (if u = 0 then init l else init (source prog l)) = if v = 0 then init l else init (source prog l)
    by_cases written : ∃ src p, Instr.copy l src ∈ prog p
    · obtain ⟨src, p, mem⟩ := written
      have both : 0 < u ↔ 0 < v := same p (.copy l src) mem rfl
      by_cases zero : u = 0
      · rw [if_pos zero, if_pos (by omega)]
      · rw [if_neg zero, if_neg (by omega)]
    · have self : source prog l = l := dif_neg written
      rw [self, ite_self, ite_self]
  case copy =>
    intro init q dst src mem
    show init (source prog dst) = init src
    rw [source_eq E mem]
  case add => exact fun init q dst a b mem => absurd mem (E.add q dst a b)
  case distinct =>
    intro q x r y l mem mem' dst dst' _
    obtain ⟨src, rfl⟩ := copy_of_dst E mem dst
    obtain ⟨src', rfl⟩ := copy_of_dst E mem' dst'
    obtain ⟨rfl, rfl⟩ := E.unique q r l src src' mem mem'
    exact ⟨rfl, rfl⟩

lemma exchange_timely {owner : L → Nat} {s : State C L α}
    (inside : ∀ q d t dst src, s.pc q = some (d, .copy dst src :: t) →
      s.Inside (owner dst) (s.left q) ∧ s.Inside (owner src) (s.left q) ∧ .copy dst src ∉ d)
    (spl : ∀ q d t, s.pc q = some (d, t) → d ++ t = prog q) : (exchange prog).Timely prog owner s := by
  have next {q d x t} (at_q : s.pc q = some (d, x :: t)) : x ∈ prog q := by
    rw [← spl q d (x :: t) at_q]
    exact mem_append_right d mem_cons_self
  constructor
  case writes =>
    intro q d x t l at_q dst
    obtain ⟨src, rfl⟩ := copy_of_dst E (next at_q) dst
    obtain ⟨in_dst, -, new⟩ := inside q d t l src at_q
    refine ⟨in_dst, fun r y mem dst' => ⟨fun H => ?_, fun lt => absurd lt (Nat.lt_irrefl 0)⟩⟩
    obtain ⟨src', rfl⟩ := copy_of_dst E mem dst'
    obtain ⟨rfl, rfl⟩ := E.unique r q l src' src mem (next at_q)
    obtain lt | ⟨-, mem'⟩ := H
    · exact absurd lt (Nat.lt_irrefl _)
    · rw [State.done_in at_q] at mem'
      exact absurd mem' new
  case reads =>
    intro q d x t l at_q isSrc
    have isCopy : ∃ dst, x = .copy dst l := by
      cases x with
      | copy dst src =>
        cases mem_singleton.1 isSrc
        exact ⟨dst, rfl⟩
      | add l' a b => exact absurd (next at_q) (E.add q l' a b)
      | inc | waitLt | waitLe | load | waitReg => cases isSrc
    obtain ⟨dst, rfl⟩ := isCopy
    refine ⟨(inside q d t dst l at_q).2.1, fun r y mem dst' => ?_⟩
    obtain ⟨src', rfl⟩ := copy_of_dst E mem dst'
    exact absurd mem (E.apart q r dst l src' (next at_q))

lemma exchanged [Add α] {owner : L → Nat} {s : State C L α} (H : (exchange prog).Holds prog owner s)
    (mem : .copy dst src ∈ prog p) (has : s.Has p k (.copy dst src)) (inside : s.Inside (owner dst) k) :
    s.val dst = s.seen (owner src) k src := by
  have A : (exchange prog : Plan C L α).At prog s dst k 1 := by
    intro q x mem' dst'
    obtain ⟨src', rfl⟩ := copy_of_dst E mem' dst'
    obtain ⟨rfl, rfl⟩ := E.unique q p dst src' src mem' mem
    exact iff_of_true has Nat.one_pos
  rw [H.val_eq (exchange_fits E) inside A]
  show s.seen (owner (source prog dst)) k (source prog dst) = _
  rw [source_eq E mem]

end Exchange

/-! ## Ranks that write to their own locations only -/

/-- Where ranks write to their own locations only, and read these and, at ranks in the same call, what nobody writes to,
each has what its instructions alone make of the locations that it has found. -/
theorem alone (own : ∀ q x l, x ∈ prog q → x.dst = some l → owner l = q)
    (reads : ∀ s : State C L α, (machine n prog owner).Reach g s → ∀ q d x t l, s.pc q = some (d, x :: t) →
      l ∈ x.srcs →
      owner l = q ∨ s.Inside (owner l) (s.left q) ∧ ∀ p y, y ∈ prog p → y.dst ≠ some l)
    (h : (machine n prog owner).Reach g s) : ∀ p d t, s.pc p = some (d, t) → ∀ init : L → α,
      (∀ l, Came s (owner l) (s.left p) → init l = s.seen (owner l) (s.left p) l) →
      ∀ l, owner l = p → s.val l = after init d l := by
  induction h with
  | init start =>
    intro p d t at_p
    cases (start.2.1 p).symm.trans at_p
  | @step s a s' h _ st ih =>
    obtain ⟨-, st⟩ := machine_step st
    intro p d t at_p init known l isOwn
    subst isOwn
    have known' (round : s'.left (owner l) = s.left (owner l)) (l') (came : Came s (owner l') (s.left (owner l))) :
        init l' = s.seen (owner l') (s.left (owner l)) l' := by
      rw [known l' (round ▸ came.step st), seen_stays st (round ▸ came), round]
    cases st with
    | @enter r out =>
      by_cases isR : owner l = r
      · subst isR
        have isIn := at_p
        cases (update_self ..).symm.trans at_p
        rw [after, foldl_nil, known l (.inr (State.inside_in isIn))]
        show s.val l = update s.seen (owner l) _ (owner l) (s.left (owner l)) l
        rw [update_self, update_self]
      · exact ih _ d t ((update_of_ne isR ..).symm.trans at_p) init (known' rfl) l rfl
    | @run r d' x t' m at_r ex =>
      have round : m.left (owner l) = s.left (owner l) := congrFun (exec_frame ex).2.1 _
      have part {q d t y} (at_q : s.pc q = some (d, t)) (mem : y ∈ d ++ t) : y ∈ prog q :=
        split h q d t at_q ▸ mem
      show m.val l = _
      rw [exec_effect ex]
      by_cases isR : owner l = r
      · subst isR
        cases (update_self ..).symm.trans at_p
        rw [after_append]
        show _ = effect (after init d') x l
        by_cases dst : x.dst = some l
        · refine effect_congr (fun l' src => ?_) dst
          obtain isOwn | ⟨⟨same, isIn⟩, none⟩ := reads s h _ d' x _ l' at_r src
          · exact ih _ d' _ at_r init (known' round) l' isOwn
          · obtain ⟨⟨d₂, t₂⟩, at_q⟩ := Option.ne_none_iff_exists'.1 isIn
            rw [ih _ d₂ t₂ at_q init (by rw [same]; exact known' round) l' rfl,
              after_of_ne fun y mem => none _ y (part at_q (mem_append_left _ mem)),
              after_of_ne fun y mem => none _ y (part at_r (mem_append_left _ mem))]
        · rw [effect_of_ne dst, effect_of_ne dst, ih _ d' _ at_r init (known' round) l rfl]
      · rw [effect_of_ne fun dst => isR (own r x l (part at_r (mem_append_right _ mem_cons_self)) dst)]
        exact ih _ d t ((update_of_ne isR ..).symm.trans at_p) init (known' round) l rfl
    | @ret r d' at_r =>
      have isR : owner l ≠ r := by
        rintro rfl
        cases (update_self ..).symm.trans at_p
      exact ih _ d t ((update_of_ne isR ..).symm.trans at_p) init (known' (update_of_ne isR ..)) l rfl
    | @set r f out =>
      have isR : owner l ≠ r := by
        rintro rfl
        cases out.symm.trans at_p
      show (if owner l = r then f l else s.val l) = _
      rw [if_neg isR]
      exact ih _ d t at_p init (known' rfl) l rfl

end Kupl.Script
