import Kupl.Fence.Create

/-!
# Fences on a new window (`kupl_shm.cpp`)

Where no rank reads from memory that its owner has yet to clear, unless there is a zero, the fences on a new window are
a run of the fences whose flags all begin with 0: `Inv`. The memory of a rank is all zeros when it gets its fences, and
until then the others see zeros.
-/

namespace Kupl.Fence.Create
open Function (update update_of_ne update_self)

variable {backend : Backend} {n : Nat} {algo : Nat → Algo} {s s' : State} {p q off : Nat} {v : Int}

namespace State

/-- The window that the others see. -/
def shown (n : Nat) (s : State) : Window :=
  fun q off => if s.phase q = .ready ∧ off < fenceSize n then s.fences.win q off else 0

lemma view_eq : s.view n = s.fences.withWin (s.shown n) := rfl

lemma phase_self {phase : Phase} : (s.goto p phase).phase p = phase := update_self ..

lemma phase_of_ne {phase : Phase} (ne : q ≠ p) : (s.goto p phase).phase q = s.phase q := update_of_ne ne _ _

lemma fill_of_ne {words : Nat → Int} (ne : q ≠ p) : (s.fill p words).fences.win q = s.fences.win q :=
  update_of_ne ne _ _

lemma zeroed_self {part : Nat → Bool} : (s.zero n p part).zeroed p off = (s.zeroed p off || part off) := by
  show update s.zeroed p (fun off => s.zeroed p off || part off) p off = _
  rw [update_self]

/-- A rank goes on in a fence. -/
def pass (n : Nat) (algo : Nat → Algo) (s : State) (a : Fence.Label) (f : Fences) : State :=
  { s with fences := f, seen := s.note n algo a, wrote := s.keep n algo a }

variable {a : Fence.Label}

lemma mem_note {r : Seen} (mem : r ∈ s.note n algo a) :
    r ∈ s.seen ∨ ∃ q off, s.fences.get n algo a = some (q, off) ∧
      r = ⟨a.rank, q, off, s.fences.win q off⟩ := by
  unfold note at mem
  split at mem
  · exact .inl mem
  · rename_i q off is
    cases mem with
    | head => exact .inr ⟨q, off, is, rfl⟩
    | tail _ mem => exact .inl mem

lemma note_mem (is : s.fences.get n algo a = some (q, off)) :
    ⟨a.rank, q, off, s.fences.win q off⟩ ∈ s.note n algo a := by
  unfold note
  rw [is]
  exact List.mem_cons_self

lemma word_cases (s : State) (a : Fence.Label) (q off : Nat) :
    (∃ v, q = a.rank ∧ s.fences.put n algo a = some (off, v) ∧
      (∀ w : Window, w.put a.rank (s.fences.put n algo a) q off = v) ∧
        s.keep n algo a q off = v :: s.wrote q off) ∨
    (∀ w : Window, w.put a.rank (s.fences.put n algo a) q off = w q off) ∧
      s.keep n algo a q off = s.wrote q off := by
  unfold keep
  cases s.fences.put n algo a with
  | none => exact .inr ⟨fun _ => rfl, rfl⟩
  | some x =>
    obtain ⟨o, v⟩ := x
    dsimp only [Window.put]
    by_cases rank : q = a.rank
    · rw [rank, update_self]
      by_cases word : off = o
      · rw [word, update_self]
        refine .inl ⟨v, rfl, rfl, fun w => ?_, rfl⟩
        rw [update_self, update_self]
      · rw [update_of_ne word]
        refine .inr ⟨fun w => ?_, rfl⟩
        rw [update_self, update_of_ne word]
    · rw [update_of_ne rank]
      refine .inr ⟨fun w => ?_, rfl⟩
      rw [update_of_ne rank]

end State

/-- The invariant: whoever has left the exchange has found everybody in it; memory that is not cleared yet is as the
back end gave it; and what a rank with fences has written last is there, or a zero. -/
structure Inv (backend : Backend) (n : Nat) (algo : Nat → Algo) (s : State) : Prop where
  within : s.fences.Within n
  all : ∀ p, s.phase p ≠ .out → s.phase p ≠ .entered → ∀ q < n, s.phase q ≠ .out
  untouched : ∀ p, s.phase p = .out → s.fences.win p = s.old p
  early : ∀ p, s.phase p = .out ∨ s.phase p = .entered → ∀ off, s.zeroed p off = false
  memory : ∀ p, s.phase p = .entered ∨ s.phase p = .zeroing → ∀ off < fenceSize n,
    s.fences.win p off = if backend ≠ .xpmem ∨ s.zeroed p off = true then 0 else s.old p off
  none : ∀ p, s.phase p ≠ .ready → ∀ off, s.wrote p off = []
  last : ∀ p off, s.phase p = .ready → off < fenceSize n → s.fences.win p off = (s.wrote p off).headD 0
  far : ∀ p off, fenceSize n ≤ off → s.wrote p off = []
  seen : ∀ r ∈ s.seen, r.owner ≠ r.reader → r.value = 0 ∨ r.value ∈ s.wrote r.owner r.off
  zeros : (Fence.fences n algo).Reachable (s.view n)

namespace Inv

section
variable (I : Inv backend n algo s)
include I

lemma good : Good n algo s := by
  refine ⟨I.seen, fun p off v l is => ?_, I.zeros⟩
  have some : s.wrote p off ≠ [] := by
    rw [is]
    exact List.cons_ne_nil v l
  have ready : s.phase p = .ready := by
    by_contra no
    exact some (I.none p no off)
  have inside : off < fenceSize n := by
    by_contra no
    exact some (I.far p off (Nat.le_of_not_lt no))
  rw [I.last p off ready inside, is]
  rfl

omit I in
lemma start (w : Window) : Inv backend n algo (start w) where
  within := .start w
  all p no := absurd rfl no
  untouched _ _ := rfl
  early _ _ _ := rfl
  memory p at_p := by
    cases at_p with
    | inl h | inr h => cases h
  none _ _ _ := rfl
  last p off ready := by cases ready
  far _ _ _ := rfl
  seen r mem := by cases mem
  zeros := by
    apply Machine.Reach.init
    show (Create.start w).view n = .start fun _ _ => 0
    rw [State.view_eq]
    have shown : (Create.start w).shown n = fun _ _ => 0 := by
      funext q off
      exact if_neg fun h => by cases h.1
    rw [shown]
    rfl

omit I in
lemma prepare {w : Window} {was : Phase} (now : Phase) (I : Inv backend n algo s) (at_p : s.phase p = was)
    (at_p' : s'.phase p = now) (unready : was ≠ .ready ∧ now ≠ .ready ∧ now ≠ .out)
    (fences : s'.fences = s.fences.withWin w) (win : ∀ q, q ≠ p → w q = s.fences.win q)
    (phase : ∀ q, q ≠ p → s'.phase q = s.phase q) (old : s'.old = s.old)
    (zeroed : ∀ q, q ≠ p → s'.zeroed q = s.zeroed q) (seen : s'.seen = s.seen) (wrote : s'.wrote = s.wrote)
    (all : now ≠ .entered → ∀ q < n, s.phase q ≠ .out)
    (early : now = .entered → ∀ off, s'.zeroed p off = false)
    (memory : now = .entered ∨ now = .zeroing → ∀ off < fenceSize n,
      w p off = if backend ≠ .xpmem ∨ s'.zeroed p off = true then 0 else s.old p off) : Inv backend n algo s' := by
  have before : s.phase p ≠ .ready := at_p ▸ unready.1
  have after : s'.phase p ≠ .ready := at_p' ▸ unready.2.1
  have there : s'.phase p ≠ .out := at_p' ▸ unready.2.2
  have isWin : s'.fences.win = w := by
    rw [fences]
    rfl
  have shown : s'.shown n = s.shown n := by
    funext q off
    by_cases isP : q = p
    · rw [isP, State.shown, State.shown, if_neg fun h => after h.1, if_neg fun h => before h.1]
    · rw [State.shown, State.shown, phase q isP, isWin, win q isP]
  refine ⟨?_, fun q no no' r lt => ?_, fun q out => ?_, fun q h => ?_, fun q h => ?_, fun q no => ?_,
    fun q off ready inside => ?_, ?_, ?_, ?_⟩
  · rw [fences]
    exact ⟨⟨I.within.pair.idx, I.within.pair.remote⟩, I.within.idx⟩
  · by_cases isR : r = p
    · rw [isR]
      exact there
    · rw [phase r isR]
      by_cases isP : q = p
      · rw [isP, at_p'] at no'
        exact all no' r lt
      · rw [phase q isP] at no no'
        exact I.all q no no' r lt
  · have isP : q ≠ p := by
      rintro rfl
      exact there out
    rw [phase q isP] at out
    rw [isWin, win q isP, old]
    exact I.untouched q out
  · by_cases isP : q = p
    · rw [isP] at h ⊢
      exact early (at_p'.symm.trans (h.resolve_left there))
    · rw [phase q isP] at h
      rw [zeroed q isP]
      exact I.early q h
  · by_cases isP : q = p
    · rw [isP, at_p'] at h
      rw [isP, isWin, old]
      exact memory h
    · rw [phase q isP] at h
      rw [isWin, win q isP, zeroed q isP, old]
      exact I.memory q h
  · rw [wrote]
    by_cases isP : q = p
    · rw [isP]
      exact I.none p before
    · rw [phase q isP] at no
      exact I.none q no
  · have isP : q ≠ p := by
      rintro rfl
      exact after ready
    rw [phase q isP] at ready
    rw [isWin, win q isP, wrote]
    exact I.last q off ready inside
  · rw [wrote]
    exact I.far
  · rw [seen, wrote]
    exact I.seen
  · have same : s'.view n = s.view n := by
      rw [State.view_eq, State.view_eq, shown, fences]
      rfl
    rw [same]
    exact I.zeros

lemma alloc (at_p : s.phase p = .out) : Inv backend n algo (s.alloc n p backend) := by
  have early := I.early p (.inl at_p)
  have old := I.untouched p at_p
  have zeros {w : Nat → Int} (isW : ∀ off < fenceSize n, w off = if backend ≠ .xpmem then 0 else s.old p off) :
      Inv backend n algo ((s.fill p w).goto p .entered) := by
    refine I.prepare .entered at_p State.phase_self (by decide) rfl (fun q ne => State.fill_of_ne ne)
      (fun q ne => State.phase_of_ne ne) rfl (fun _ _ => rfl) rfl rfl (fun no => absurd rfl no) (fun _ => early)
      fun _ off inside => ?_
    have isOff : ((s.fill p w).goto p .entered).zeroed p off = false := early off
    rw [isOff, update_self, isW off inside]
    exact if_congr (or_iff_left Bool.false_ne_true).symm rfl rfl
  cases isB : backend with
  | xpmem =>
    rw [isB] at zeros
    have same : (s.fill p (s.fences.win p)).goto p .entered = s.goto p .entered := by
      rw [State.fill, Function.update_eq_self]
      rfl
    rw [State.alloc, ← same]
    exact zeros fun off _ => congrFun old off
  | posix | sls =>
    rw [isB] at zeros
    exact zeros fun off inside => if_pos inside

lemma gathered (at_p : s.phase p = .entered) (all : ∀ q < n, s.phase q ≠ .out) :
    Inv backend n algo (s.goto p .zeroing) :=
  I.prepare .zeroing (w := s.fences.win) at_p State.phase_self (by decide) rfl (fun _ _ => rfl)
    (fun q ne => State.phase_of_ne ne) rfl (fun _ _ => rfl) rfl rfl (fun _ => all) (fun no => by cases no)
    (fun _ => I.memory p (.inl at_p))

lemma all_zeroing (at_p : s.phase p = .zeroing) : ∀ q < n, s.phase q ≠ .out := by
  refine I.all p ?_ ?_
  · rw [at_p]
    decide
  · rw [at_p]
    decide

lemma zero (at_p : s.phase p = .zeroing) (part : Nat → Bool) : Inv backend n algo (s.zero n p part) := by
  refine I.prepare .zeroing at_p at_p (by decide) rfl (fun q ne => State.fill_of_ne ne) (fun _ _ => rfl) rfl
    (fun q ne => update_of_ne ne _ _) rfl rfl (fun _ => I.all_zeroing at_p) (fun no => by cases no)
    fun _ off inside => ?_
  rw [State.zeroed_self, update_self]
  cases isPart : part off with
  | true => rw [if_pos ⟨rfl, inside⟩, Bool.or_true, if_pos (.inr rfl)]
  | false =>
    rw [if_neg fun h => Bool.false_ne_true h.1, Bool.or_false]
    exact I.memory p (.inr at_p) off inside

lemma fail (at_p : s.phase p = .zeroing) : Inv backend n algo (s.goto p .dropped) :=
  I.prepare .dropped (w := s.fences.win) at_p State.phase_self (by decide) rfl (fun _ _ => rfl)
    (fun q ne => State.phase_of_ne ne) rfl (fun _ _ => rfl) rfl rfl (fun _ => I.all_zeroing at_p)
    (fun no => by cases no) fun no => by
      cases no with
      | inl h | inr h => cases h

lemma scribble (at_p : s.phase p = .dropped) (words : Nat → Int) : Inv backend n algo (s.fill p words) := by
  have all : ∀ q < n, s.phase q ≠ .out := by
    refine I.all p ?_ ?_
    · rw [at_p]
      decide
    · rw [at_p]
      decide
  refine I.prepare .dropped at_p at_p (by decide) rfl (fun q ne => State.fill_of_ne ne) (fun _ _ => rfl) rfl
    (fun _ _ => rfl) rfl rfl (fun _ => all) (fun no => by cases no) fun no => ?_
  cases no with
  | inl h | inr h => cases h

lemma create (at_p : s.phase p = .zeroing)
    (zeroed : ∀ off < fenceSize n, s.zeroed p off = true) : Inv backend n algo (s.goto p .ready) := by
  have clear (off) (inside : off < fenceSize n) : s.fences.win p off = 0 := by
    rw [I.memory p (.inr at_p) off inside, if_pos (.inr (zeroed off inside))]
  have unready : s.phase p ≠ .ready := by
    rw [at_p]
    decide
  have other {q : Nat} {phase : Phase} (is : (s.goto p .ready).phase q = phase) (ne : phase ≠ .ready) :
      q ≠ p ∧ s.phase q = phase := by
    have isP : q ≠ p := by
      rintro rfl
      exact ne (is.symm.trans State.phase_self)
    exact ⟨isP, (State.phase_of_ne isP).symm.trans is⟩
  have shown : (s.goto p .ready).shown n = s.shown n := by
    funext q off
    by_cases isP : q = p
    · have none : s.shown n p off = 0 := if_neg fun h => unready h.1
      rw [isP, none, State.shown]
      split
      · rename_i h
        exact clear off h.2
      · rfl
    · rw [State.shown, State.shown, State.phase_of_ne isP]
      rfl
  have all := I.all_zeroing at_p
  refine ⟨I.within, fun q no no' r lt => ?_, fun q out => ?_, fun q h => ?_, fun q h => ?_, fun q no => ?_,
    fun q off ready inside => ?_, I.far, I.seen, ?_⟩
  · by_cases isR : r = p
    · rw [isR, State.phase_self]
      decide
    · rw [State.phase_of_ne isR]
      exact all r lt
  · exact I.untouched q (other out (by decide)).2
  · cases h with
    | inl out => exact I.early q (.inl (other out (by decide)).2)
    | inr entered => exact I.early q (.inr (other entered (by decide)).2)
  · cases h with
    | inl entered => exact I.memory q (.inl (other entered (by decide)).2)
    | inr zeroing => exact I.memory q (.inr (other zeroing (by decide)).2)
  · obtain ⟨-, is⟩ := other rfl no
    exact I.none q fun h => no (is.symm.trans h)
  · by_cases isP : q = p
    · have nothing : (s.goto p .ready).wrote p off = [] := I.none p unready off
      rw [isP, nothing]
      exact clear off inside
    · exact I.last q off ((State.phase_of_ne isP).symm.trans ready) inside
  · have same : (s.goto p .ready).view n = s.view n := by
      rw [State.view_eq, State.view_eq, shown]
      rfl
    rw [same]
    exact I.zeros

lemma shows_iff (all : ∀ q < n, s.phase q ≠ .out) (lt : q < n) (inside : off < fenceSize n) :
    s.Shows backend q off ↔ s.phase q = .ready ∨ s.fences.win q off = 0 := by
  have cleared (at_q : s.phase q = .entered ∨ s.phase q = .zeroing) :
      s.fences.win q off = 0 ↔ backend ≠ .xpmem ∨ s.zeroed q off = true ∨ s.old q off = 0 := by
    rw [I.memory q at_q off inside, ← or_assoc]
    constructor
    · intro zero
      by_cases clear : backend ≠ .xpmem ∨ s.zeroed q off = true
      · exact .inl clear
      · rw [if_neg clear] at zero
        exact .inr zero
    · intro h
      split
      · rfl
      · rename_i unclear
        exact h.resolve_left unclear
  rw [State.Shows]
  cases at_q : s.phase q with
  | out => exact absurd at_q (all q lt)
  | entered =>
    rw [cleared (.inl at_q)]
    simp
  | zeroing =>
    rw [cleared (.inr at_q)]
    simp
  | ready | dropped => simp

end

variable {f : Fences}

section
variable (I : Inv backend n algo s)
include I

lemma get_inside {a : Fence.Label} (st : s.fences.step n algo a = some f)
    (is : s.fences.get n algo a = some (q, off)) : q < n ∧ off < fenceSize n := by
  cases a with
  | enter p | enterPeer p remote => cases is
  | run p => exact I.within.reads (Option.ite_none_right_eq_some.1 st).1 is

lemma put_inside {a : Fence.Label} (is : s.fences.put n algo a = some (off, v)) : off < fenceSize n := by
  cases a with
  | enter p | enterPeer p remote => cases is
  | run p => exact I.within.writes is

lemma all_ready (ready : s.phase p = .ready) : ∀ q < n, s.phase q ≠ .out := by
  refine I.all p ?_ ?_
  · rw [ready]
    decide
  · rw [ready]
    decide

lemma shows {a : Fence.Label} (ready : s.phase a.rank = .ready)
    (st : s.fences.step n algo a = some f) (is : s.fences.get n algo a = some (q, off)) :
    s.Shows backend q off ↔ s.phase q = .ready ∨ s.fences.win q off = 0 := by
  obtain ⟨lt, inside⟩ := I.get_inside st is
  exact I.shows_iff (I.all_ready ready) lt inside

lemma agree {a : Fence.Label} (ready : s.phase a.rank = .ready) (st : s.fences.step n algo a = some f)
    (settled : Settled backend n algo s (.fence a)) : (s.shown n).Agree s.fences.win (s.fences.get n algo a) := by
  intro q off is
  by_cases at_q : s.phase q = .ready
  · exact if_pos ⟨at_q, (I.get_inside st is).2⟩
  · have other : q ≠ a.rank := by
      rintro rfl
      exact at_q ready
    have zero := ((I.shows ready st is).1 (settled q off is other)).resolve_left at_q
    rw [zero]
    exact if_neg fun h => at_q h.1

lemma fence {a : Fence.Label} (ready : s.phase a.rank = .ready) (st : s.fences.step n algo a = some f)
    (settled : Settled backend n algo s (.fence a)) : Inv backend n algo (s.pass n algo a f) := by
  have win : f.win = s.fences.win.put a.rank (s.fences.put n algo a) := Fences.step_win st
  have unready {q : Nat} (no : s.phase q ≠ .ready) (off : Nat) :
      f.win q off = s.fences.win q off ∧ s.keep n algo a q off = s.wrote q off := by
    rw [win]
    cases s.word_cases a q off with
    | inl h =>
      obtain ⟨v, rfl, -⟩ := h
      exact absurd ready no
    | inr h => exact ⟨h.1 _, h.2⟩
  refine ⟨I.within.step st, I.all, fun q out => ?_, I.early, fun q at_q off inside => ?_, fun q no off => ?_,
    fun q off at_q inside => ?_, fun q off far => ?_, fun r mem ne => ?_, ?_⟩
  · have no : s.phase q ≠ .ready := by
      intro at_q
      exact absurd (at_q.symm.trans out) (by decide)
    exact (funext fun off => (unready no off).1).trans (I.untouched q out)
  · have no : s.phase q ≠ .ready := by
      intro ready
      have at_q : s.phase q = .entered ∨ s.phase q = .zeroing := at_q
      rw [ready] at at_q
      exact absurd at_q (by decide)
    exact (unready no off).1.trans (I.memory q at_q off inside)
  · exact (unready no off).2.trans (I.none q no off)
  · show f.win q off = (s.keep n algo a q off).headD 0
    rw [win]
    cases s.word_cases a q off with
    | inl h =>
      obtain ⟨v, -, -, isWin, isKeep⟩ := h
      rw [isWin, isKeep]
      rfl
    | inr h =>
      rw [h.1, h.2]
      exact I.last q off at_q inside
  · cases s.word_cases a q off with
    | inl h =>
      obtain ⟨v, -, put, -⟩ := h
      exact absurd (I.put_inside put) (Nat.not_lt.2 far)
    | inr h => exact h.2.trans (I.far q off far)
  · have kept : r.value = 0 ∨ r.value ∈ s.wrote r.owner r.off := by
      cases State.mem_note mem with
      | inl old => exact I.seen r old ne
      | inr new =>
        obtain ⟨q, off, is, rfl⟩ := new
        cases (I.shows ready st is).1 (settled q off is ne) with
        | inl at_q =>
          rw [I.last q off at_q (I.get_inside st is).2]
          cases s.wrote q off with
          | nil => exact .inl rfl
          | cons v l => exact .inr List.mem_cons_self
        | inr zero => exact .inl zero
    refine kept.imp_right fun mem => ?_
    show r.value ∈ s.keep n algo a r.owner r.off
    cases s.word_cases a r.owner r.off with
    | inl h =>
      obtain ⟨v, -, -, -, isKeep⟩ := h
      rw [isKeep]
      exact List.mem_cons_of_mem v mem
    | inr h =>
      rw [h.2]
      exact mem
  · have shown : (s.pass n algo a f).shown n = (s.shown n).put a.rank (s.fences.put n algo a) := by
      funext q off
      show (if s.phase q = .ready ∧ off < fenceSize n then f.win q off else 0) = _
      rw [win]
      cases s.word_cases a q off with
      | inl h =>
        obtain ⟨v, rfl, put, isWin, -⟩ := h
        rw [isWin, isWin]
        exact if_pos ⟨ready, I.put_inside put⟩
      | inr h =>
        rw [h.1, h.1]
        rfl
    have next : (s.view n).step n algo a = some ((s.pass n algo a f).view n) := by
      rw [State.view_eq, Fences.step_withWin (I.agree ready st settled), st, State.view_eq, shown]
      rfl
    exact .step I.zeros trivial next

lemma step {l : Label} (settled : Settled backend n algo s l)
    (st : step backend n algo s l = some s') : Inv backend n algo s' := by
  cases l with
  | alloc p =>
    obtain ⟨⟨-, at_p⟩, st⟩ := Option.ite_none_right_eq_some.1 st
    obtain rfl := Option.some.inj st
    exact I.alloc at_p
  | gathered p =>
    obtain ⟨⟨-, at_p, all⟩, st⟩ := Option.ite_none_right_eq_some.1 st
    obtain rfl := Option.some.inj st
    exact I.gathered at_p all
  | zero p part =>
    obtain ⟨at_p, st⟩ := Option.ite_none_right_eq_some.1 st
    obtain rfl := Option.some.inj st
    exact I.zero at_p part
  | create p =>
    obtain ⟨⟨at_p, zeroed⟩, st⟩ := Option.ite_none_right_eq_some.1 st
    obtain rfl := Option.some.inj st
    exact I.create at_p zeroed
  | fail p =>
    obtain ⟨at_p, st⟩ := Option.ite_none_right_eq_some.1 st
    obtain rfl := Option.some.inj st
    exact I.fail at_p
  | scribble p off v =>
    obtain ⟨⟨at_p, -⟩, st⟩ := Option.ite_none_right_eq_some.1 st
    obtain rfl := Option.some.inj st
    exact I.scribble at_p _
  | fence a =>
    obtain ⟨ready, st⟩ := Option.ite_none_right_eq_some.1 st
    obtain ⟨f, goes, rfl⟩ := Option.map_eq_some_iff.1 st
    exact I.fence ready goes settled

lemma settled {l : Label} (st : Create.step backend n algo s l = some s')
    (G : Good n algo s') : Settled backend n algo s l := by
  cases l with
  | fence a =>
    obtain ⟨ready, st⟩ := Option.ite_none_right_eq_some.1 st
    obtain ⟨f, goes, rfl⟩ := Option.map_eq_some_iff.1 st
    intro q off is other
    rw [I.shows ready goes is]
    by_cases at_q : s.phase q = .ready
    · exact .inl at_q
    · have nothing : s.keep n algo a q off = [] := by
        cases s.word_cases a q off with
        | inl h => exact absurd h.choose_spec.1 other
        | inr h => exact h.2.trans (I.none q at_q off)
      have seen : s.fences.win q off = 0 ∨ s.fences.win q off ∈ s.keep n algo a q off :=
        G.seen _ (State.note_mem is) other
      rw [nothing] at seen
      exact .inr (seen.resolve_right List.not_mem_nil)
  | alloc | gathered | zero | create | fail | scribble => trivial

end

end Inv

lemma reach_inv (h : (machine backend n algo).Reach (Settled backend n algo) s) : Inv backend n algo s := by
  refine h.inv (fun s init => ?_) fun s l s' I settled st => I.step settled st
  obtain ⟨w, rfl⟩ := init
  exact .start w

instance : Decidable (s.Shows backend q off) :=
  inferInstanceAs (Decidable (_ = _ ∨ _ ≠ _ ∧ (_ ≠ _ ∨ _ = _ ∨ _ = _) ∨ _ = _ ∧ _ = _))

lemma settled_iff {a : Fence.Label} (is : s.fences.get n algo a = some (q, off)) :
    Settled backend n algo s (.fence a) ↔ q = a.rank ∨ s.Shows backend q off := by
  constructor
  · intro settled
    exact or_iff_not_imp_left.2 (settled q off is)
  · intro ok q' off' same other
    obtain ⟨rfl, rfl⟩ := Prod.mk.inj (Option.some.inj (is.symm.trans same))
    exact ok.resolve_left other

instance : ∀ l, Decidable (Settled backend n algo s l)
  | .fence a =>
    match is : s.fences.get n algo a with
    | none => .isTrue fun _ _ same => absurd (is.symm.trans same) (Option.some_ne_none _).symm
    | some _ => decidable_of_iff _ (settled_iff is).symm
  | .alloc _ | .gathered _ | .zero _ _ | .create _ | .fail _ | .scribble _ _ _ => .isTrue trivial

/-- Where every read of another rank's flags finds fences there, or a word that is zero already, the fences on the new
window are as if all flags had begun with 0; and each step that does not find so breaks this. -/
theorem flags_settled_iff (h : (machine backend n algo).Reach (Settled backend n algo) s) : Good n algo s ∧
      ∀ l s', (machine backend n algo).step s l = some s' → (Good n algo s' ↔ Settled backend n algo s l) := by
  have I := reach_inv h
  exact ⟨I.good, fun l s' st => ⟨fun G => I.settled st G, fun settled => (I.step settled st).good⟩⟩

/-- Two ranks get memory with leftovers of an allocator, clear it and meet in a fence. -/
theorem flags_settled_iff_two : ∃ s, (machine .xpmem 2 fun _ => .linear).Reach
    (Settled .xpmem 2 fun _ => .linear) s ∧
    (s.fences.left 0 = 1 ∧ s.fences.left 1 = 1 ∧ s.old 0 0 = 1) ∧
    Good 2 (fun _ => .linear) s ∧ ∀ l s', (machine .xpmem 2 fun _ => .linear).step s l = some s' →
      (Good 2 (fun _ => .linear) s' ↔ Settled .xpmem 2 (fun _ => .linear) s l) := by
  refine Machine.shown_and (s := start fun _ _ => 1) [.alloc 1, .alloc 0, .gathered 1, .zero 1 fun _ => true, .create 1,
    .gathered 0, .zero 0 fun _ => true, .fence (.enter 1), .fence (.run 1), .fence (.run 1), .create 0,
    .fence (.enter 0), .fence (.run 0), .fence (.run 0), .fence (.run 0), .fence (.run 0), .fence (.run 1),
    .fence (.run 1), .fence (.run 1), .fence (.run 0)] ⟨_, rfl⟩ (by decide +kernel) fun s h _ => ?_
  exact flags_settled_iff h

/-- Rank 1 finds what an earlier fence left in the memory that rank 0 has got, and leaves the first fence while rank 0
is still in the exchange. -/
theorem flags_settled_not : ∃ s, (machine .xpmem 2 fun _ => .linear).Reachable s ∧
    ¬ Good 2 (fun _ => .linear) s ∧
    s.fences.left 1 = 1 ∧ s.phase 0 = .entered := by
  refine Machine.shown (P := fun s => (∃ r ∈ s.seen, r.owner ≠ r.reader ∧
      ¬ (r.value = 0 ∨ r.value ∈ s.wrote r.owner r.off)) ∧ s.fences.left 1 = 1 ∧ s.phase 0 = .entered)
    (s := start fun _ _ => 1) [.alloc 1, .alloc 0, .gathered 1, .zero 1 fun _ => true, .create 1, .fence (.enter 1),
    .fence (.run 1), .fence (.run 1), .fence (.run 1), .fence (.run 1), .fence (.run 1)] ⟨_, rfl⟩
      (by decide +kernel)
    fun s h is => ?_
  obtain ⟨⟨r, mem, other, strange⟩, left⟩ := is
  exact ⟨fun G => strange (G.seen r mem other), left⟩

end Kupl.Fence.Create
