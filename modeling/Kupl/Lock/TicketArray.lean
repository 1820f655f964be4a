import Kupl.Machine.Run

/-!
# The ticket array lock (`kupl_ticket_array_lock.cpp`)

Who wants the lock draws a ticket, and waits until the slot of this ticket, its number modulo the number of slots, shows
it. Who releases the lock writes the next ticket into its slot. A thread may also try: if the slot of the ticket that
would be drawn next already shows it, the thread draws this ticket if nobody else has in the meantime.

| source | here |
|---|---|
| `raw->head`, `raw->next`, `raw->values[i].value` | `head`, `next`, `values i` |
| `raw->size` | `size` |
| `kupl_tal_lock`: fetch and add; the loop | `lock`; `run` at `wait` |
| `kupl_tal_unlock`: load of `next`; its store; the slot | `unlock`; `run` at `bump`; `run` at `store` |
| `kupl_tal_trylock`: load; compare; compare and swap | `tryLock`; `run` at `tried`; `run` at `seen` |
-/

namespace Kupl.TicketArray
open Function (update update_of_ne update_self)

/-- Where a thread is, with the ticket that it has drawn or would draw. -/
inductive Pc where
  | idle
  | wait (head : Nat)
  | hold (head : Nat)
  | bump (head next : Nat)
  | store (head idx : Nat)
  | tried (head : Nat)
  | seen (head : Nat)
deriving DecidableEq

/-- (C++ `kupl_ticket_array_lock_t`), and the threads. -/
structure State where
  head : Nat
  next : Nat
  values : Nat → Nat
  pc : Nat → Pc

/-- A thread calls one of the functions, or goes on in it; only who holds the lock unlocks it. -/
inductive Label where
  | lock (t : Nat)
  | tryLock (t : Nat)
  | unlock (t : Nat)
  | run (t : Nat)

def Label.thread : Label → Nat
  | .lock t | .tryLock t | .unlock t | .run t => t

def State.goto (s : State) (t : Nat) (pc : Pc) : State := { s with pc := update s.pc t pc }

/-- A step with `size` slots. -/
def step (size : Nat) (s : State) : Label → Option State
  | .lock t => if s.pc t = .idle then some ({ s with head := s.head + 1 }.goto t (.wait s.head)) else none
  | .tryLock t => if s.pc t = .idle then some (s.goto t (.tried s.head)) else none
  | .unlock t =>
    match s.pc t with
    | .hold h => some (s.goto t (.bump h s.next))
    | _ => none
  | .run t =>
    match s.pc t with
    | .wait h => if s.values (h % size) = h then some (s.goto t (.hold h)) else some s
    | .bump h next => some ({ s with next := next + 1 }.goto t (.store h ((next + 1) % size)))
    | .store _ idx => some ({ s with values := update s.values idx s.next }.goto t .idle)
    | .tried h => if s.values (h % size) = h then some (s.goto t (.seen h)) else some (s.goto t .idle)
    | .seen h => if s.head = h then some ({ s with head := h + 1 }.goto t (.hold h)) else some (s.goto t .idle)
    | .idle | .hold _ => none

/-- `n` threads that share a lock with `size` slots; it is empty at first (C++ `kupl_ticket_array_lock_init`). -/
def machine (n size : Nat) : Machine State Label where
  init s := s.head = 0 ∧ s.next = 0 ∧ (∀ i, s.values i = 0) ∧ ∀ t, s.pc t = .idle
  step s a := if a.thread < n then step size s a else none

/-- A thread has the lock with a ticket, which it has not begun to pass on. -/
def Pc.Holds (pc : Pc) (h : Nat) : Prop := pc = .hold h ∨ ∃ next, pc = .bump h next

/-- A thread has the lock, or is about to have released it. -/
def Pc.Busy (pc : Pc) : Prop := (∃ h, pc.Holds h) ∨ ∃ h idx, pc = .store h idx

/-- A thread has drawn a ticket, which it has not begun to pass on. -/
def Pc.Drew (pc : Pc) (h : Nat) : Prop := pc = .wait h ∨ pc.Holds h

variable {n size t u h k i : Nat} {s s' : State} {a : Label}

/-- The steps, one constructor for each of them. -/
inductive Step (size : Nat) (s : State) : Label → State → Prop
  | lock {t : Nat} (out : s.pc t = .idle) : Step size s (.lock t) ({ s with head := s.head + 1 }.goto t (.wait s.head))
  | tryLock {t : Nat} (out : s.pc t = .idle) : Step size s (.tryLock t) (s.goto t (.tried s.head))
  | unlock {t h : Nat} (at_t : s.pc t = .hold h) : Step size s (.unlock t) (s.goto t (.bump h s.next))
  | take {t h : Nat} (at_t : s.pc t = .wait h) (shows : s.values (h % size) = h) :
      Step size s (.run t) (s.goto t (.hold h))
  | spin {t h : Nat} (at_t : s.pc t = .wait h) (not : s.values (h % size) ≠ h) : Step size s (.run t) s
  | bump {t h next : Nat} (at_t : s.pc t = .bump h next) :
      Step size s (.run t) ({ s with next := next + 1 }.goto t (.store h ((next + 1) % size)))
  | store {t h idx : Nat} (at_t : s.pc t = .store h idx) :
      Step size s (.run t) ({ s with values := update s.values idx s.next }.goto t .idle)
  | see {t h : Nat} (at_t : s.pc t = .tried h) (shows : s.values (h % size) = h) :
      Step size s (.run t) (s.goto t (.seen h))
  | giveUp {t : Nat} (at_t : (∃ h, s.pc t = .tried h) ∨ ∃ h, s.pc t = .seen h) :
      Step size s (.run t) (s.goto t .idle)
  | swap {t h : Nat} (at_t : s.pc t = .seen h) (same : s.head = h) :
      Step size s (.run t) ({ s with head := h + 1 }.goto t (.hold h))

lemma Step.of_step (st : step size s a = some s') : Step size s a s' := by
  cases a with
  | lock t =>
    dsimp only [step] at st
    split at st
    case isTrue out =>
      cases st
      exact .lock out
    case isFalse => cases st
  | tryLock t =>
    dsimp only [step] at st
    split at st
    case isTrue out =>
      cases st
      exact .tryLock out
    case isFalse => cases st
  | unlock t =>
    cases at_t : s.pc t with
    | hold h =>
      simp only [step, at_t, Option.some.injEq] at st
      subst st
      exact .unlock at_t
    | idle | wait | bump | store | tried | seen =>
      simp only [step, at_t, reduceCtorEq] at st
  | run t =>
    cases at_t : s.pc t with
    | wait h =>
      simp only [step, at_t] at st
      split at st
      case isTrue shows =>
        cases st
        exact .take at_t shows
      case isFalse not =>
        cases st
        exact .spin at_t not
    | bump h next =>
      simp only [step, at_t, Option.some.injEq] at st
      subst st
      exact .bump at_t
    | store h idx =>
      simp only [step, at_t, Option.some.injEq] at st
      subst st
      exact .store at_t
    | tried h =>
      simp only [step, at_t] at st
      split at st
      case isTrue shows =>
        cases st
        exact .see at_t shows
      case isFalse not =>
        cases st
        exact .giveUp (.inl ⟨h, at_t⟩)
    | seen h =>
      simp only [step, at_t] at st
      split at st
      case isTrue same =>
        cases st
        exact .swap at_t same
      case isFalse not =>
        cases st
        exact .giveUp (.inr ⟨h, at_t⟩)
    | idle | hold =>
      simp only [step, at_t, reduceCtorEq] at st

/-! ## What a thread means for the others -/

variable {pc : Pc}

lemma goto_elim {P : Pc → Prop} (now : P ((s.goto t pc).pc u)) : (u = t ∧ P pc) ∨ (u ≠ t ∧ P (s.pc u)) := by
  dsimp only [State.goto] at now
  by_cases same : u = t
  · rw [same, update_self] at now
    exact .inl ⟨same, now⟩
  · rw [update_of_ne same] at now
    exact .inr ⟨same, now⟩

lemma goto_self : (s.goto t pc).pc t = pc := update_self ..

lemma goto_ne (ne : u ≠ t) : (s.goto t pc).pc u = s.pc u := update_of_ne ne ..

@[simp] lemma holds_hold : (Pc.hold k).Holds h ↔ h = k := by
  simp [Pc.Holds, eq_comm]

@[simp] lemma holds_bump {next : Nat} : (Pc.bump k next).Holds h ↔ h = k := by
  simp [Pc.Holds, eq_comm]

lemma holds_wait : ¬ (Pc.wait k).Holds h := by
  simp [Pc.Holds]

@[simp] lemma drew_wait : (Pc.wait k).Drew h ↔ h = k := by
  simp [Pc.Drew, Pc.Holds, eq_comm]

@[simp] lemma drew_hold : (Pc.hold k).Drew h ↔ h = k := by
  simp [Pc.Drew]

@[simp] lemma drew_bump {next : Nat} : (Pc.bump k next).Drew h ↔ h = k := by
  simp [Pc.Drew]

lemma drew_store {idx : Nat} : ¬ (Pc.store k idx).Drew h := by
  simp [Pc.Drew, Pc.Holds]

lemma busy_store {idx : Nat} : (Pc.store k idx).Busy := .inr ⟨k, idx, rfl⟩

lemma Pc.Holds.busy (H : pc.Holds h) : pc.Busy := .inl ⟨h, H⟩

/-- Who has drawn no ticket and holds no lock. -/
def Pc.Quiet (pc : Pc) : Prop := (∀ h, ¬ pc.Drew h) ∧ ¬ pc.Busy

lemma quiet_idle : Pc.idle.Quiet := by
  simp [Pc.Quiet, Pc.Drew, Pc.Busy, Pc.Holds]

lemma quiet_tried : (Pc.tried k).Quiet := by
  simp [Pc.Quiet, Pc.Drew, Pc.Busy, Pc.Holds]

lemma quiet_seen : (Pc.seen k).Quiet := by
  simp [Pc.Quiet, Pc.Drew, Pc.Busy, Pc.Holds]

/-! ## The invariant -/

/-- The tickets that have been drawn and not been passed on are those from `next` on; the first one has the lock if
anybody has; and the slots show no ticket that has not been reached. -/
structure Inv (size : Nat) (s : State) : Prop where
  le : s.next ≤ s.head
  drew : ∀ t h, (s.pc t).Drew h → s.next ≤ h ∧ h < s.head
  distinct : ∀ t u h, (s.pc t).Drew h → (s.pc u).Drew h → t = u
  queued : ∀ h, s.next ≤ h → h < s.head → ∃ t, (s.pc t).Drew h
  held : ∀ t h, (s.pc t).Holds h → h = s.next
  loaded : ∀ t h k, s.pc t = .bump h k → k = s.next
  stored : ∀ t h i, s.pc t = .store h i → s.next = h + 1 ∧ i = s.next % size ∧ ∀ j, s.values j ≤ h
  alone : ∀ t u, (s.pc t).Busy → (s.pc u).Busy → t = u
  low : ∀ i, s.values i ≤ s.next
  top : (∀ t h i, s.pc t ≠ .store h i) → s.values (s.next % size) = s.next
  seen : ∀ t h, s.pc t = .seen h → h ≤ s.next ∧ ∀ u k i, s.pc u = .store k i → h ≤ k

section
variable (I : Inv size s)
include I

lemma Inv.shown (le : s.next ≤ h) (shows : s.values i = h) : h = s.next ∧ ∀ u k j, s.pc u ≠ .store k j := by
  have low := I.low i
  refine ⟨by omega, fun u k j at_u => ?_⟩
  obtain ⟨next, -, low⟩ := I.stored u k j at_u
  have low := low i
  omega

lemma Inv.quiet (was : (s.pc t).Quiet) (now : pc.Quiet)
    (seen : ∀ h, pc = .seen h → h ≤ s.next ∧ ∀ u k i, s.pc u = .store k i → h ≤ k) :
      Inv size (s.goto t pc) := by
  have drew {u h} (D : ((s.goto t pc).pc u).Drew h) : (s.pc u).Drew h := by
    obtain ⟨-, D⟩ | ⟨-, D⟩ := goto_elim (P := (Pc.Drew · h)) D
    · exact absurd D (now.1 h)
    · exact D
  have holds {u h} (H : ((s.goto t pc).pc u).Holds h) : (s.pc u).Holds h := by
    obtain ⟨-, H⟩ | ⟨-, H⟩ := goto_elim (P := (Pc.Holds · h)) H
    · exact absurd H.busy now.2
    · exact H
  have busy {u} (B : ((s.goto t pc).pc u).Busy) : (s.pc u).Busy := by
    obtain ⟨-, B⟩ | ⟨-, B⟩ := goto_elim (P := Pc.Busy) B
    · exact absurd B now.2
    · exact B
  have back {u h i} (at_u : (s.goto t pc).pc u = .store h i) : s.pc u = .store h i := by
    obtain ⟨-, rfl⟩ | ⟨-, at_u⟩ := goto_elim (P := (· = .store h i)) at_u
    · exact absurd busy_store now.2
    · exact at_u
  constructor
  case le => exact I.le
  case drew => exact fun u h D => I.drew u h (drew D)
  case distinct => exact fun u v h D D' => I.distinct u v h (drew D) (drew D')
  case queued =>
    intro h ge lt
    obtain ⟨u, D⟩ := I.queued h ge lt
    refine ⟨u, ?_⟩
    rw [goto_ne]
    · exact D
    · rintro rfl
      exact was.1 h D
  case held => exact fun u h H => I.held u h (holds H)
  case loaded =>
    intro u h k at_u
    obtain ⟨-, rfl⟩ | ⟨-, at_u⟩ := goto_elim (P := (· = .bump h k)) at_u
    · exact absurd (holds_bump.2 rfl).busy now.2
    · exact I.loaded u h k at_u
  case stored => exact fun u h i at_u => I.stored u h i (back at_u)
  case alone => exact fun u v B B' => I.alone u v (busy B) (busy B')
  case low => exact I.low
  case top =>
    intro none
    apply I.top
    intro u h i at_u
    refine none u h i ?_
    rw [goto_ne]
    · exact at_u
    · rintro rfl
      rw [at_u] at was
      exact was.2 busy_store
  case seen =>
    intro u h at_u
    obtain ⟨-, is⟩ | ⟨-, at_u⟩ := goto_elim (P := (· = .seen h)) at_u
    · exact ⟨(seen h is).1, fun v k i at_v => (seen h is).2 v k i (back at_v)⟩
    · exact ⟨(I.seen u h at_u).1, fun v k i at_v => (I.seen u h at_u).2 v k i (back at_v)⟩

lemma Inv.lock (out : s.pc t = .idle) : Inv size ({ s with head := s.head + 1 }.goto t (.wait s.head)) := by
  have drew {u h} (D : (({ s with head := s.head + 1 }.goto t (.wait s.head)).pc u).Drew h) :
      (u = t ∧ h = s.head) ∨ (s.pc u).Drew h := by
    obtain ⟨same, D⟩ | ⟨-, D⟩ := goto_elim (P := (Pc.Drew · h)) D
    · exact .inl ⟨same, drew_wait.1 D⟩
    · exact .inr D
  have back {u pc} (at_u : ({ s with head := s.head + 1 }.goto t (.wait s.head)).pc u = pc) (ne : .wait s.head ≠ pc) :
      s.pc u = pc := by
    obtain ⟨-, is⟩ | ⟨-, at_u⟩ := goto_elim (P := (· = pc)) at_u
    · exact absurd is ne
    · exact at_u
  have holds {u h} (H : (({ s with head := s.head + 1 }.goto t (.wait s.head)).pc u).Holds h) : (s.pc u).Holds h := by
    obtain ⟨-, H⟩ | ⟨-, H⟩ := goto_elim (P := (Pc.Holds · h)) H
    · exact absurd H holds_wait
    · exact H
  have busy {u} (B : (({ s with head := s.head + 1 }.goto t (.wait s.head)).pc u).Busy) : (s.pc u).Busy := by
    obtain ⟨h, H⟩ | ⟨h, i, at_u⟩ := B
    · exact (holds H).busy
    · exact .inr ⟨h, i, back at_u nofun⟩
  have le := I.le
  constructor
  case le =>
    show s.next ≤ s.head + 1
    omega
  case drew =>
    intro u h D
    show s.next ≤ h ∧ h < s.head + 1
    obtain ⟨-, rfl⟩ | D := drew D
    · omega
    · have := I.drew u h D
      omega
  case distinct =>
    intro u v h D D'
    obtain ⟨isT, isHead⟩ | D₁ := drew D
    · obtain ⟨isT', -⟩ | D₂ := drew D'
      · rw [isT, isT']
      · have := I.drew v h D₂
        omega
    · obtain ⟨-, isHead⟩ | D₂ := drew D'
      · have := I.drew u h D₁
        omega
      · exact I.distinct u v h D₁ D₂
  case queued =>
    intro h ge lt
    obtain lt | rfl := Nat.lt_or_eq_of_le (Nat.le_of_lt_succ lt)
    · obtain ⟨u, D⟩ := I.queued h ge lt
      refine ⟨u, ?_⟩
      rw [goto_ne]
      · exact D
      · rintro rfl
        rw [out] at D
        exact quiet_idle.1 h D
    · exact ⟨t, by rw [goto_self]; exact drew_wait.2 rfl⟩
  case held => exact fun u h H => I.held u h (holds H)
  case loaded => exact fun u h k at_u => I.loaded u h k (back at_u nofun)
  case stored => exact fun u h i at_u => I.stored u h i (back at_u nofun)
  case alone => exact fun u v B B' => I.alone u v (busy B) (busy B')
  case low => exact I.low
  case top =>
    intro none
    apply I.top
    intro u h i at_u
    refine none u h i ?_
    rw [goto_ne]
    · exact at_u
    · rintro rfl
      cases out.symm.trans at_u
  case seen =>
    exact fun u h at_u => ⟨(I.seen u h (back at_u nofun)).1,
      fun v k i at_v => (I.seen u h (back at_u nofun)).2 v k i (back at_v nofun)⟩

lemma Inv.keep (mine : (s.pc t).Drew h) (first : h = s.next) (none : ∀ u k i, s.pc u ≠ .store k i)
    (holds : ∀ k, pc.Holds k ↔ k = h) (wait : ∀ k, pc ≠ .wait k) (seen : ∀ k, pc ≠ .seen k)
    (store : ∀ k i, pc ≠ .store k i) (loaded : ∀ h k, pc = .bump h k → k = s.next) :
      Inv size (s.goto t pc) := by
  have drew {u k} (D : ((s.goto t pc).pc u).Drew k) : (s.pc u).Drew k := by
    obtain ⟨same, is | H⟩ | ⟨-, D⟩ := goto_elim (P := (Pc.Drew · k)) D
    · exact absurd is (wait k)
    · rw [same, (holds k).1 H]
      exact mine
    · exact D
  have back {u k i} : (s.goto t pc).pc u ≠ .store k i := by
    intro at_u
    obtain ⟨-, is⟩ | ⟨-, at_u⟩ := goto_elim (P := (· = .store k i)) at_u
    · exact store k i is
    · exact none u k i at_u
  have held {u k} (H : ((s.goto t pc).pc u).Holds k) : k = s.next := by
    obtain ⟨-, H⟩ | ⟨-, H⟩ := goto_elim (P := (Pc.Holds · k)) H
    · rw [(holds k).1 H]
      exact first
    · exact I.held u k H
  -- who is busy has the first ticket, which only one thread has
  have busy {u} (B : ((s.goto t pc).pc u).Busy) : u = t := by
    obtain ⟨k, H⟩ | ⟨k, i, at_u⟩ := B
    · have D : (s.pc u).Drew k := drew (.inr H)
      rw [held H, ← first] at D
      exact I.distinct u t h D mine
    · exact absurd at_u back
  constructor
  case le => exact I.le
  case drew => exact fun u k D => I.drew u k (drew D)
  case distinct => exact fun u v k D D' => I.distinct u v k (drew D) (drew D')
  case queued =>
    intro k ge lt
    obtain ⟨u, D⟩ := I.queued k ge lt
    by_cases same : u = t
    · rw [same] at D
      have isH : k = h := by
        obtain is | H := D
        · obtain is' | H' := mine
          · cases is.symm.trans is'
            rfl
          · rw [is] at H'
            exact absurd H' holds_wait
        · exact (I.held t k H).trans first.symm
      refine ⟨t, ?_⟩
      rw [goto_self]
      exact .inr ((holds k).2 isH)
    · refine ⟨u, ?_⟩
      rw [goto_ne same]
      exact D
  case held => exact fun u k => held
  case loaded =>
    intro u h' k at_u
    obtain ⟨-, is⟩ | ⟨-, at_u⟩ := goto_elim (P := (· = .bump h' k)) at_u
    · exact loaded h' k is
    · exact I.loaded u h' k at_u
  case stored => exact fun u k i at_u => absurd at_u back
  case alone => exact fun u v B B' => (busy B).trans (busy B').symm
  case low => exact I.low
  case top => exact fun _ => I.top none
  case seen =>
    intro u k at_u
    obtain ⟨-, is⟩ | ⟨-, at_u⟩ := goto_elim (P := (· = .seen k)) at_u
    · exact absurd is (seen k)
    · exact ⟨(I.seen u k at_u).1, fun v m i at_v => absurd at_v back⟩

lemma Inv.take (at_t : s.pc t = .wait h) (shows : s.values (h % size) = h) : Inv size (s.goto t (.hold h)) := by
  have mine : (s.pc t).Drew h := .inl at_t
  obtain ⟨first, none⟩ := I.shown (I.drew t h mine).1 shows
  exact I.keep mine first none (fun k => holds_hold) nofun nofun nofun nofun

lemma Inv.none (H : (s.pc t).Holds h) : ∀ u k i, s.pc u ≠ .store k i := by
  intro u k i at_u
  have same := I.alone t u H.busy (.inr ⟨k, i, at_u⟩)
  rw [same, at_u] at H
  exact drew_store (.inr H)

lemma Inv.unlock (at_t : s.pc t = .hold h) : Inv size (s.goto t (.bump h s.next)) := by
  have H : (s.pc t).Holds h := .inl at_t
  refine I.keep (.inr H) (I.held t h H) (I.none H) (fun k => holds_bump) nofun nofun nofun fun h' k is => ?_
  cases is
  rfl

lemma Inv.bump (at_t : s.pc t = .bump h k) :
    Inv size ({ s with next := k + 1 }.goto t (.store h ((k + 1) % size))) := by
  have H : (s.pc t).Holds h := .inr ⟨k, at_t⟩
  have first := I.held t h H
  obtain rfl := I.loaded t h k at_t
  have bounds := I.drew t h (.inr H)
  have drew {u m} (D : (({ s with next := s.next + 1 }.goto t (.store h ((s.next + 1) % size))).pc u).Drew m) :
      u ≠ t ∧ (s.pc u).Drew m := by
    obtain ⟨-, D⟩ | D := goto_elim (P := (Pc.Drew · m)) D
    · exact absurd D drew_store
    · exact D
  have busy {u} (B : (({ s with next := s.next + 1 }.goto t (.store h ((s.next + 1) % size))).pc u).Busy) : u = t := by
    obtain ⟨same, -⟩ | ⟨-, B⟩ := goto_elim (P := Pc.Busy) B
    · exact same
    · exact I.alone u t B H.busy
  have at_store {u m i}
      (at_u : ({ s with next := s.next + 1 }.goto t (.store h ((s.next + 1) % size))).pc u = .store m i) :
      m = h ∧ i = (s.next + 1) % size := by
    have same := busy (.inr ⟨m, i, at_u⟩)
    rw [same, goto_self] at at_u
    cases at_u
    exact ⟨rfl, rfl⟩
  constructor
  case le =>
    show s.next + 1 ≤ s.head
    omega
  case drew =>
    intro u m D
    obtain ⟨ne, D'⟩ := drew D
    have others := I.drew u m D'
    have not_first : m ≠ h := by
      rintro rfl
      exact ne (I.distinct u t m D' (.inr H))
    show s.next + 1 ≤ m ∧ m < s.head
    omega
  case distinct => exact fun u v m D D' => I.distinct u v m (drew D).2 (drew D').2
  case queued =>
    intro m ge lt
    have ge : s.next + 1 ≤ m := ge
    obtain ⟨u, D⟩ := I.queued m (by omega) lt
    refine ⟨u, ?_⟩
    rw [goto_ne]
    · exact D
    · rintro rfl
      rw [at_t, drew_bump] at D
      omega
  case held =>
    intro u m H'
    have same := busy H'.busy
    rw [same, goto_self] at H'
    exact absurd (.inr H') drew_store
  case loaded =>
    intro u h' m at_u
    have same := busy (.inl ⟨h', .inr ⟨m, at_u⟩⟩)
    rw [same, goto_self] at at_u
    cases at_u
  case stored =>
    intro u m i at_u
    obtain ⟨rfl, rfl⟩ := at_store at_u
    exact ⟨by rw [first]; rfl, rfl, fun i => by rw [first]; exact I.low i⟩
  case alone => exact fun u v B B' => (busy B).trans (busy B').symm
  case low => exact fun i => Nat.le_succ_of_le (I.low i)
  case top => exact fun none => absurd goto_self (none t h _)
  case seen =>
    intro u m at_u
    obtain ⟨-, is⟩ | ⟨-, at_u⟩ := goto_elim (P := (· = .seen m)) at_u
    · cases is
    · obtain ⟨le, -⟩ := I.seen u m at_u
      refine ⟨Nat.le_succ_of_le le, fun v m' i at_v => ?_⟩
      obtain ⟨rfl, -⟩ := at_store at_v
      rw [first]
      exact le

lemma Inv.store (at_t : s.pc t = .store h i) :
    Inv size ({ s with values := update s.values i s.next }.goto t .idle) := by
  have busy_t : (s.pc t).Busy := .inr ⟨h, i, at_t⟩
  obtain ⟨-, rfl, -⟩ := I.stored t h i at_t
  have values j : update s.values (s.next % size) s.next j ≤ s.next := by
    by_cases same : j = s.next % size
    · exact Nat.le_of_eq (by rw [same, update_self])
    · rw [update_of_ne same]
      exact I.low j
  have drew {u k}
      (D : (({ s with values := update s.values (s.next % size) s.next }.goto t .idle).pc u).Drew k) :
      (s.pc u).Drew k := by
    obtain ⟨-, D⟩ | ⟨-, D⟩ := goto_elim (P := (Pc.Drew · k)) D
    · exact absurd D (quiet_idle.1 k)
    · exact D
  -- nobody else has the lock
  have busy {u} : ¬ (({ s with values := update s.values (s.next % size) s.next }.goto t .idle).pc u).Busy := by
    intro B
    obtain ⟨-, B⟩ | ⟨ne, B⟩ := goto_elim (P := Pc.Busy) B
    · exact quiet_idle.2 B
    · exact ne (I.alone u t B busy_t)
  constructor
  case le => exact I.le
  case drew => exact fun u k D => I.drew u k (drew D)
  case distinct => exact fun u v k D D' => I.distinct u v k (drew D) (drew D')
  case queued =>
    intro k ge lt
    obtain ⟨u, D⟩ := I.queued k ge lt
    refine ⟨u, ?_⟩
    rw [goto_ne]
    · exact D
    · rintro rfl
      rw [at_t] at D
      exact drew_store D
  case held => exact fun u k H => absurd H.busy busy
  case loaded => exact fun u k m at_u => absurd (.inl ⟨k, .inr ⟨m, at_u⟩⟩) busy
  case stored => exact fun u k j at_u => absurd (.inr ⟨k, j, at_u⟩) busy
  case alone => exact fun u v B _ => absurd B busy
  case low => exact values
  case top => exact fun _ => update_self ..
  case seen =>
    intro u k at_u
    obtain ⟨-, is⟩ | ⟨-, at_u⟩ := goto_elim (P := (· = .seen k)) at_u
    · cases is
    · exact ⟨(I.seen u k at_u).1, fun v m j at_v => absurd (.inr ⟨m, j, at_v⟩) busy⟩

lemma Inv.swap (at_t : s.pc t = .seen h) (same : s.head = h) :
    Inv size ({ s with head := h + 1 }.goto t (.hold h)) := by
  obtain ⟨le, none⟩ := I.seen t h at_t
  have le' := I.le
  have first : h = s.next := by omega
  -- so no ticket is drawn, and nobody has the lock
  have drew_none {u k} : ¬ (s.pc u).Drew k := by
    intro D
    have := I.drew u k D
    omega
  have store_none {u k i} : s.pc u ≠ .store k i := by
    intro at_u
    have := none u k i at_u
    have := (I.stored u k i at_u).1
    omega
  have drew {u k} (D : (({ s with head := h + 1 }.goto t (.hold h)).pc u).Drew k) : u = t ∧ k = h := by
    obtain ⟨isT, D⟩ | ⟨-, D⟩ := goto_elim (P := (Pc.Drew · k)) D
    · exact ⟨isT, drew_hold.1 D⟩
    · exact absurd D drew_none
  have stays {u k i} : ({ s with head := h + 1 }.goto t (.hold h)).pc u ≠ .store k i := by
    intro at_u
    obtain ⟨-, is⟩ | ⟨-, at_u⟩ := goto_elim (P := (· = .store k i)) at_u
    · cases is
    · exact store_none at_u
  have busy {u} (B : (({ s with head := h + 1 }.goto t (.hold h)).pc u).Busy) : u = t := by
    obtain ⟨k, H⟩ | ⟨k, i, at_u⟩ := B
    · exact (drew (.inr H)).1
    · exact absurd at_u stays
  constructor
  case le =>
    show s.next ≤ h + 1
    omega
  case drew =>
    intro u k D
    obtain ⟨-, rfl⟩ := drew D
    show s.next ≤ k ∧ k < k + 1
    omega
  case distinct => exact fun u v k D D' => (drew D).1.trans (drew D').1.symm
  case queued =>
    intro k ge lt
    have ge : s.next ≤ k := ge
    have lt : k < h + 1 := lt
    refine ⟨t, ?_⟩
    rw [goto_self, drew_hold]
    omega
  case held => exact fun u k H => (drew (.inr H)).2.trans first
  case loaded =>
    intro u k m at_u
    have isT := busy (.inl ⟨k, .inr ⟨m, at_u⟩⟩)
    rw [isT, goto_self] at at_u
    cases at_u
  case stored => exact fun u k i at_u => absurd at_u stays
  case alone => exact fun u v B B' => (busy B).trans (busy B').symm
  case low => exact I.low
  case top => exact fun _ => I.top fun u k i => store_none
  case seen =>
    intro u k at_u
    obtain ⟨-, is⟩ | ⟨-, at_u⟩ := goto_elim (P := (· = .seen k)) at_u
    · cases is
    · exact ⟨(I.seen u k at_u).1, fun v m i at_v => absurd at_v stays⟩

lemma Inv.step (st : Step size s a s') : Inv size s' := by
  cases st with
  | lock out => exact I.lock out
  | tryLock out => exact I.quiet (by rw [out]; exact quiet_idle) quiet_tried nofun
  | unlock at_t => exact I.unlock at_t
  | take at_t shows => exact I.take at_t shows
  | spin => exact I
  | bump at_t => exact I.bump at_t
  | store at_t => exact I.store at_t
  | @see t h at_t shows =>
    refine I.quiet (by rw [at_t]; exact quiet_tried) quiet_seen fun k is => ?_
    cases is
    have low := I.low (h % size)
    refine ⟨by omega, fun u k i at_u => ?_⟩
    have low := (I.stored u k i at_u).2.2 (h % size)
    omega
  | giveUp at_t =>
    refine I.quiet ?_ quiet_idle nofun
    obtain ⟨h, at_t⟩ | ⟨h, at_t⟩ := at_t
    · rw [at_t]
      exact quiet_tried
    · rw [at_t]
      exact quiet_seen
  | swap at_t same => exact I.swap at_t same

end

lemma machine_step (st : (machine n size).step s a = some s') : a.thread < n ∧ Step size s a s' := by
  dsimp only [machine] at st
  split at st
  case isTrue lt => exact ⟨lt, .of_step st⟩
  case isFalse => cases st

lemma Inv.reachable (h : (machine n size).Reachable s) : Inv size s := by
  refine Machine.Reach.inv h (fun s start => ?_) fun s a s' I _ st => I.step (machine_step st).2
  obtain ⟨head, next, values, pc⟩ := start
  have quiet t : (s.pc t).Quiet := by
    rw [pc]
    exact quiet_idle
  constructor
  case le => omega
  case drew => exact fun t h D => absurd D ((quiet t).1 h)
  case distinct => exact fun t u h D => absurd D ((quiet t).1 h)
  case queued =>
    intro h _ lt
    omega
  case held => exact fun t h H => absurd H.busy (quiet t).2
  case loaded => exact fun t h k at_t => absurd (.inl ⟨h, .inr ⟨k, at_t⟩⟩) (quiet t).2
  case stored => exact fun t h i at_t => absurd (.inr ⟨h, i, at_t⟩) (quiet t).2
  case alone => exact fun t u B => absurd B (quiet t).2
  case low => exact fun i => Nat.le_of_eq ((values i).trans next.symm)
  case top => exact fun _ => (values _).trans next.symm
  case seen => exact fun t h at_t => Pc.noConfusion ((pc t).symm.trans at_t)

lemma idle (h : (machine n size).Reachable s) : ∀ t, n ≤ t → s.pc t = .idle := by
  refine Machine.Reach.inv (I := fun s => ∀ t, n ≤ t → s.pc t = .idle) h (fun s start t _ => start.2.2.2 t)
    fun s a s' ih _ st t le => ?_
  obtain ⟨lt, st⟩ := machine_step st
  have ne : t ≠ a.thread := by omega
  cases st with
  | spin => exact ih t le
  | lock | tryLock | unlock | take | bump | store | see | giveUp | swap => exact (goto_ne ne).trans (ih t le)

/-! ## What the lock promises -/

/-- At most one thread has the lock, or is about to have released it; it has the smallest ticket of those that have been
drawn, which is the number of times that the lock has been released; no ticket is drawn twice; and if nobody has the
lock, then the thread with the next ticket can take it, or, if there is none, every thread that tries gets it. -/
structure Served (n size : Nat) (s : State) : Prop where
  alone : ∀ t u, (s.pc t).Busy → (s.pc u).Busy → t = u
  order : ∀ t h, s.pc t = .hold h → h = s.next ∧ ∀ u k, s.pc u = .wait k → h < k
  apart : ∀ t u h, s.pc t = .wait h → s.pc u = .wait h → t = u
  free : (∀ t, ¬ (s.pc t).Busy) →
    (∃ t s', s.pc t = .wait s.next ∧ (machine n size).step s (.run t) = some s' ∧ s'.pc t = .hold s.next) ∨
    s.next = s.head ∧ ∀ t < n, s.pc t = .idle → ∃ s',
      (machine n size).run (fun _ _ => True) s [.tryLock t, .run t, .run t] = some s' ∧ s'.pc t = .hold s.next

/-- What a step keeps: the lock goes to later tickets only, and a thread that waits for a slot which shows its ticket
takes the lock, or finds the slot as it was. -/
structure Keeps (size : Nat) (s s' : State) : Prop where
  next : s.next ≤ s'.next
  slots : ∀ t h, s.pc t = .wait h → s.values (h % size) = h →
    s'.pc t = .hold h ∨ s'.pc t = .wait h ∧ s'.values (h % size) = h

lemma tries (lt : t < n) (out : s.pc t = .idle) (none : s.next = s.head) (shows : s.values (s.next % size) = s.next) :
    ∃ s', (machine n size).run (fun _ _ => True) s [.tryLock t, .run t, .run t] = some s' ∧
      s'.pc t = .hold s.next := by
  rw [none] at shows
  have first : (machine n size).step s (.tryLock t) = some (s.goto t (.tried s.head)) := by
    simp only [machine, Label.thread, if_pos lt, step, if_pos out]
  have second : (machine n size).step (s.goto t (.tried s.head)) (.run t) =
      some ((s.goto t (.tried s.head)).goto t (.seen s.head)) := by
    simp only [machine, Label.thread, if_pos lt, step, goto_self]
    exact if_pos shows
  have third : (machine n size).step ((s.goto t (.tried s.head)).goto t (.seen s.head)) (.run t) =
      some ({ (s.goto t (.tried s.head)).goto t (.seen s.head) with head := s.head + 1 }.goto t (.hold s.head)) := by
    simp only [machine, Label.thread, if_pos lt, step, goto_self]
    exact if_pos rfl
  refine ⟨{ (s.goto t (.tried s.head)).goto t (.seen s.head) with head := s.head + 1 }.goto t
    (.hold s.head), ?_, ?_⟩
  · simp only [Machine.run, if_true, first, second, third]
  · rw [none]
    exact goto_self

lemma Inv.served (I : Inv size s) (beyond : ∀ t, n ≤ t → s.pc t = .idle) : Served n size s := by
  constructor
  case alone => exact I.alone
  case order =>
    intro t h at_t
    have holds : (s.pc t).Holds h := .inl at_t
    refine ⟨I.held t h holds, fun u k at_u => ?_⟩
    have drew : (s.pc u).Drew k := .inl at_u
    have bounds := I.drew u k drew
    have first := I.held t h holds
    have ne : k ≠ h := by
      rintro rfl
      have same := I.distinct t u k (.inr holds) drew
      rw [same, at_u] at at_t
      cases at_t
    omega
  case apart => exact fun t u h at_t at_u => I.distinct t u h (.inl at_t) (.inl at_u)
  case free =>
    intro none
    have shows := I.top fun t h i at_t => none t (.inr ⟨h, i, at_t⟩)
    obtain lt | same := Nat.lt_or_eq_of_le I.le
    · left
      obtain ⟨t, at_t | H⟩ := I.queued s.next (Nat.le_refl _) lt
      · have lt_n : t < n := by
          by_contra ge
          rw [beyond t (Nat.le_of_not_lt ge)] at at_t
          cases at_t
        refine ⟨t, s.goto t (.hold s.next), at_t, ?_, goto_self⟩
        have st : TicketArray.step size s (.run t) = some (s.goto t (.hold s.next)) := by
          simp only [TicketArray.step, at_t]
          exact if_pos shows
        exact (if_pos lt_n).trans st
      · exact absurd H.busy (none t)
    · exact .inr ⟨same, fun t lt out => tries lt out same shows⟩

lemma keeps_goto {pc was : Pc} (moves : s.pc u = was) (wait : ∀ h, was ≠ .wait h) :
    ∀ t h, s.pc t = .wait h → s.values (h % size) = h →
      (s.goto u pc).pc t = .hold h ∨ (s.goto u pc).pc t = .wait h ∧ (s.goto u pc).values (h % size) = h := by
  intro t h at_t shows
  refine .inr ⟨?_, shows⟩
  rw [goto_ne]
  · exact at_t
  · rintro rfl
    exact absurd (moves.symm.trans at_t) (wait h)

lemma Inv.keeps (I : Inv size s) (st : Step size s a s') : Keeps size s s' := by
  cases st with
  | lock out => exact ⟨Nat.le_refl _, keeps_goto (s := { s with head := s.head + 1 }) out nofun⟩
  | tryLock out => exact ⟨Nat.le_refl _, keeps_goto out nofun⟩
  | unlock at_t | see at_t => exact ⟨Nat.le_refl _, keeps_goto at_t nofun⟩
  | @take u k at_u shows =>
    refine ⟨Nat.le_refl _, fun t h at_t shows => ?_⟩
    by_cases same : t = u
    · rw [same] at at_t
      cases at_u.symm.trans at_t
      rw [same]
      exact .inl goto_self
    · exact .inr ⟨(goto_ne same).trans at_t, shows⟩
  | spin => exact ⟨Nat.le_refl _, fun t h at_t shows => .inr ⟨at_t, shows⟩⟩
  | @bump u h k at_u =>
    refine ⟨?_, keeps_goto (s := { s with next := k + 1 }) at_u nofun⟩
    rw [I.loaded u h k at_u]
    exact Nat.le_succ _
  | store at_u =>
    -- no waiting thread's ticket is shown before this slot is written
    refine ⟨Nat.le_refl _, fun t h at_t shows => ?_⟩
    have none := (I.shown (I.drew t h (.inl at_t)).1 shows).2
    exact absurd at_u (none _ _ _)
  | giveUp at_t =>
    obtain ⟨h, at_t⟩ | ⟨h, at_t⟩ := at_t
    · exact ⟨Nat.le_refl _, keeps_goto at_t nofun⟩
    · exact ⟨Nat.le_refl _, keeps_goto at_t nofun⟩
  | @swap u h at_t => exact ⟨Nat.le_refl _, keeps_goto (s := { s with head := h + 1 }) at_t nofun⟩

/-- In every state reached by any number of threads the lock is held as promised, and every step keeps it so. -/
theorem lock_served (h : (machine n size).Reachable s) :
    Served n size s ∧ ∀ a s', (machine n size).step s a = some s' → Keeps size s s' :=
  have I := Inv.reachable h
  ⟨I.served (idle h), fun _ _ st => I.keeps (machine_step st).2⟩

/-- Four threads share two slots: one has the lock, three wait, and the lock is passed on. -/
theorem lock_served_four : ∃ s, (machine 4 2).Reachable s ∧ (s.pc 1 = .hold 1 ∧ s.pc 3 = .wait 3) ∧
    Served 4 2 s ∧ ∀ a s', (machine 4 2).step s a = some s' → Keeps 2 s s' := by
  refine Machine.shown_and (s := ⟨0, 0, fun _ => 0, fun _ => .idle⟩) [.lock 0, .run 0, .lock 1, .lock 2, .lock 3,
    .unlock 0,
    .run 0, .run 0, .run 1] ⟨rfl, rfl, fun _ => rfl, fun _ => rfl⟩ (by decide +kernel) fun s h _ => ?_
  exact lock_served h

end Kupl.TicketArray
