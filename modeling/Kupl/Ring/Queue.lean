import Kupl.Machine.Run
import Kupl.Ring.Adders

/-!
# The ring queue of the schedulers

`queue_create`, `queue_add_tb` and `queue_get_tb` of
`src/mt/scheduler/plugin/static_mq/kupl_sched_static_mq.cpp` (the same in the other plugins). Producers
hold `add_lock`, consumers `get_lock`, and the loads and stores of a push and of a pop come in any order.

`kupl_vector_empty_macro` loads `head` and `tail` in an order that the language leaves open; a step of a
consumer says which comes first. `popped` is history: the tasks that were popped, in the order in which
`head` went up.
-/

namespace Kupl.Ring

variable {ι κ α : Type*}

/-- Where a consumer is: outside, holding `get_lock`, with `head` or `tail` loaded for the check (and how
many were pushed when `tail` was), with the queue found not empty, with the index for the front, with the
front read, or with the result and about to unlock. -/
inductive GetPc (α : Type*) where
  | out
  | locked
  | head (head : BitVec 64)
  | tail (tail : BitVec 64) (pushed : Nat)
  | busy
  | front (idx : Nat)
  | taken (tb : α)
  | done (tb : Option α) (pushed : Nat)

/-- The consumers, their lock and what they have popped. -/
structure Getters (κ α : Type*) where
  lock : Option κ
  pc : κ → GetPc α
  popped : List α

/-- A queue with its users (C++ `queue_t`). -/
structure Queue (ι κ α : Type*) where
  vec : KuplVector α
  add : Adders ι α
  get : Getters κ α

/-- A call, or the next load, store or unlock inside one. -/
inductive QueueLabel (ι κ α : Type*) where
  | add (p : ι) (tb : α)
  | adder (p : ι)
  | get (c : κ)
  | getter (c : κ) (tailFirst : Bool)

namespace Getters

/-- No one is inside and nothing was popped. -/
def start : Getters κ α := ⟨none, fun _ => .out, []⟩

variable [DecidableEq κ]

/-- A consumer goes on to the next place. -/
def goto (G : Getters κ α) (c : κ) (pc : GetPc α) : Getters κ α :=
  { G with pc := Function.update G.pc c pc }

@[simp] lemma goto_self (G : Getters κ α) (c : κ) (pc : GetPc α) : (G.goto c pc).pc c = pc :=
  Function.update_self ..

lemma goto_of_ne (G : Getters κ α) {c d : κ} (ne : d ≠ c) (pc : GetPc α) : (G.goto c pc).pc d = G.pc d :=
  Function.update_of_ne ne _ _

/-- Consumer `c` takes `get_lock`. -/
def call (G : Getters κ α) (c : κ) : Option (Getters κ α) :=
  match G.lock, G.pc c with
  | none, .out => some { G.goto c .locked with lock := some c }
  | _, _ => none

/-- The next load or store of consumer `c`, or its unlock; `pushed` is how many were pushed so far. -/
def step (G : Getters κ α) (v : KuplVector α) (pushed : Nat) (c : κ) (tailFirst : Bool) :
    Option (Getters κ α × KuplVector α) :=
  match G.pc c with
  | .out => none
  | .locked => some (G.goto c (if tailFirst then .tail v.tail pushed else .head v.head), v)
  | .head h => some (G.goto c (if KuplVector.isEmpty h v.tail then .done none pushed else .busy), v)
  | .tail t seen => some (G.goto c (if KuplVector.isEmpty v.head t then .done none seen else .busy), v)
  | .busy => some (G.goto c (.front (v.frontIdx v.head)), v)
  | .front idx => some (G.goto c (.taken (v.data idx)), v)
  | .taken tb =>
    some ({ G.goto c (.done (some tb) pushed) with popped := G.popped ++ [tb] }, v.popFront)
  | .done _ _ => some ({ G.goto c .out with lock := none }, v)

end Getters

namespace Queue
variable [DecidableEq ι] [DecidableEq κ]

def step (s : Queue ι κ α) : QueueLabel ι κ α → Option (Queue ι κ α)
  | .add p tb => (s.add.call p tb).map fun A => { s with add := A }
  | .adder p => (s.add.step s.vec p).map fun (A, v) => { s with add := A, vec := v }
  | .get c => (s.get.call c).map fun G => { s with get := G }
  | .getter c tailFirst =>
    (s.get.step s.vec s.add.log.length c tailFirst).map fun (G, v) => { s with get := G, vec := v }

/-- The queue of a length that `queue_create` accepts, in the hands of any producers and consumers. -/
def machine (ι κ α : Type*) [DecidableEq ι] [DecidableEq κ] [Inhabited α] :
    Machine (Queue ι κ α) (QueueLabel ι κ α) where
  init s := s.add = .start ∧ s.get = .start ∧
    ∃ (size : BitVec 64) (calloc : Bool), kuplVectorCreate size 8 calloc = some s.vec
  step := step

end Queue

/-- What a consumer inside knows of the vector and of what was pushed and popped. -/
def GetPc.Knows (v : KuplVector α) (log : List α) (n : Nat) : GetPc α → Prop
  | .out => False
  | .locked => True
  | .head h => h = v.head
  | .tail t seen => t = BitVec.ofNat 64 seen ∧ n ≤ seen ∧ seen ≤ log.length
  | .busy => n < log.length
  | .front idx => n < log.length ∧ idx = n % v.capacity.toNat
  | .taken tb => ∃ lt : n < log.length, tb = log[n]
  | .done _ _ => True

namespace Queue

/-- The invariant: what was popped is the beginning of what was pushed, and everyone inside knows what it
must. -/
structure Inv (s : Queue ι κ α) : Prop where
  add : s.add.Inv s.vec s.get.popped.length
  popped : s.get.popped = s.add.log.take s.get.popped.length
  outside : ∀ c, s.get.lock ≠ some c → s.get.pc c = .out
  inside : ∀ c, s.get.lock = some c → (s.get.pc c).Knows s.vec s.add.log s.get.popped.length

/-- The tasks that were pushed and not popped yet are in the ring, each in its slot, fewer of them than
the capacity; what was popped is what was pushed first, in the same order. -/
structure Delivers (s : Queue ι κ α) : Prop where
  order : s.get.popped <+: s.add.log
  room : s.add.log.length - s.get.popped.length < s.vec.capacity.toNat
  slot : ∀ i, s.get.popped.length ≤ i → (lt : i < s.add.log.length) →
    s.vec.data (i % s.vec.capacity.toNat) = s.add.log[i]

/-- What a step does to the tasks in the ring: their slots are not written to, a push fails where the
ring is full, and a pop finds nothing where all that had been pushed when it loaded `tail` was popped. -/
structure StepOk (s s' : Queue ι κ α) : Prop where
  slots : ∀ i, s.get.popped.length ≤ i → i < s.add.log.length →
    s'.vec.data (i % s.vec.capacity.toNat) = s.vec.data (i % s.vec.capacity.toNat)
  full : ∀ p, s.add.pc p ≠ .done false → s'.add.pc p = .done false → s.add.lock = some p ∧ s.vec.isFull = true
  empty : ∀ c n, s.get.pc c ≠ .done none n → s'.get.pc c = .done none n →
    s.get.lock = some c ∧ s.get.popped.length = n ∧ (n = s.add.log.length ∨ ∃ t, s.get.pc c = .tail t n)

variable {s : Queue ι κ α}

lemma Inv.delivers (I : s.Inv) : s.Delivers where
  order := by
    rw [I.popped]
    exact List.take_prefix _ _
  room := I.add.logs.room
  slot := I.add.logs.slot

end Queue

lemma GetPc.Knows.moves {A A' : Adders ι α} {v v' : KuplVector α} {n : Nat} {pc : GetPc α}
    (k : pc.Knows v A.log n) (M : A.Moves A' v v' n) : pc.Knows v' A'.log n := by
  have le : A.log.length ≤ A'.log.length := by
    obtain e | ⟨tb, e⟩ := M.log
    · rw [e]
    · rw [e, List.length_append]
      omega
  cases pc with
  | out => exact k
  | locked | done _ _ => trivial
  | head h => exact Eq.trans k M.head.symm
  | tail t seen => exact ⟨k.1, k.2.1, Nat.le_trans k.2.2 le⟩
  | busy => exact Nat.lt_of_lt_of_le k le
  | front idx => exact ⟨Nat.lt_of_lt_of_le k.1 le, by rw [M.capacity]; exact k.2⟩
  | taken tb =>
    obtain ⟨lt, e⟩ := k
    refine ⟨Nat.lt_of_lt_of_le lt le, ?_⟩
    obtain e' | ⟨x, e'⟩ := M.log
    · simp only [e', e]
    · simp only [e', e, List.getElem_append_left lt]

namespace Queue
variable {s s' : Queue ι κ α} {n : Nat}

lemma Inv.ofMoves (I : s.Inv) {A' : Adders ι α} {v' : KuplVector α}
    (I' : A'.Inv v' s.get.popped.length) (M : s.add.Moves A' s.vec v' s.get.popped.length) :
    Inv { s with add := A', vec := v' } where
  add := I'
  popped := by
    have le := I.add.logs.le
    obtain e | ⟨tb, e⟩ := M.log
    · rw [e]
      exact I.popped
    · rw [e]
      exact I.popped.trans (List.take_append_of_le_length le).symm
  outside := I.outside
  inside c e := (I.inside c e).moves M

section Getter
variable [DecidableEq κ]

lemma Inv.goto (I : s.Inv) {c : κ} (held : s.get.lock = some c) {pc : GetPc α}
    (k : pc.Knows s.vec s.add.log s.get.popped.length) : Inv { s with get := s.get.goto c pc } where
  add := I.add
  popped := I.popped
  outside d ne := by
    have ne' : d ≠ c := fun e => ne (e ▸ held)
    exact (s.get.goto_of_ne ne' _).trans (I.outside d ne)
  inside d e := by
    cases held.symm.trans e
    show ((s.get.goto c pc).pc c).Knows s.vec s.add.log s.get.popped.length
    rw [Getters.goto_self]
    exact k

lemma StepOk.same {c : κ} {pc : GetPc α} (ne : ∀ n, pc ≠ .done none n) :
    StepOk s { s with get := s.get.goto c pc } where
  slots _ _ _ := rfl
  full _ ne fails := absurd fails ne
  empty d n ne' e := by
    by_cases eq : d = c
    · subst eq
      exact absurd ((s.get.goto_self d pc).symm.trans e) (ne n)
    · exact absurd ((s.get.goto_of_ne eq pc).symm.trans e) ne'

lemma StepOk.found {c : κ} (held : s.get.lock = some c) (e : s.get.popped.length = n)
    (when : n = s.add.log.length ∨ ∃ t, s.get.pc c = .tail t n) :
    StepOk s { s with get := s.get.goto c (.done none n) } where
  slots _ _ _ := rfl
  full _ ne fails := absurd fails ne
  empty d m ne' e' := by
    by_cases eq : d = c
    · subst eq
      cases (s.get.goto_self d (.done none n)).symm.trans e'
      exact ⟨held, e, when⟩
    · exact absurd ((s.get.goto_of_ne eq _).symm.trans e') ne'

lemma Inv.getter (I : s.Inv) {c : κ} {tailFirst : Bool} {G : Getters κ α} {v : KuplVector α}
    (e : s.get.step s.vec s.add.log.length c tailFirst = some (G, v)) :
    Inv { s with get := G, vec := v } ∧ StepOk s { s with get := G, vec := v } := by
  have here {p} (at_ : s.get.pc c = p) (ne : p ≠ .out) :
      s.get.lock = some c ∧ p.Knows s.vec s.add.log s.get.popped.length := by
    subst at_
    have held : s.get.lock = some c := by
      by_contra no
      exact ne (I.outside c no)
    exact ⟨held, I.inside c held⟩
  unfold Getters.step at e
  cases pc : s.get.pc c with
  | out =>
    simp only [pc] at e
    cases e
  | locked =>
    obtain ⟨held, -⟩ := here pc nofun
    simp only [pc] at e
    cases tailFirst with
    | false =>
      cases e
      exact ⟨I.goto held rfl, .same nofun⟩
    | true =>
      cases e
      exact ⟨I.goto held ⟨I.add.logs.tail, I.add.logs.le, Nat.le_refl _⟩, .same nofun⟩
  | head h =>
    obtain ⟨held, k⟩ := here pc nofun
    obtain rfl : h = s.vec.head := k
    have le := I.add.logs.le
    have empty := I.add.logs.isEmpty_iff le (Nat.le_refl _)
    rw [← I.add.logs.tail] at empty
    simp only [pc] at e
    by_cases none : KuplVector.isEmpty s.vec.head s.vec.tail = true
    · rw [if_pos none] at e
      cases e
      exact ⟨I.goto held trivial, .found held (empty.1 none) (.inl rfl)⟩
    · rw [if_neg none] at e
      cases e
      have ne : s.get.popped.length ≠ s.add.log.length := fun eq => none (empty.2 eq)
      exact ⟨I.goto held (Nat.lt_of_le_of_ne le ne), .same nofun⟩
  | tail t seen =>
    obtain ⟨held, rfl, le, le'⟩ := here pc nofun
    have empty := I.add.logs.isEmpty_iff le le'
    simp only [pc] at e
    by_cases none : KuplVector.isEmpty s.vec.head (BitVec.ofNat 64 seen) = true
    · rw [if_pos none] at e
      cases e
      exact ⟨I.goto held trivial, .found held (empty.1 none) (.inr ⟨_, pc⟩)⟩
    · rw [if_neg none] at e
      cases e
      have ne : s.get.popped.length ≠ seen := fun eq => none (empty.2 eq)
      exact ⟨I.goto held (Nat.lt_of_lt_of_le (Nat.lt_of_le_of_ne le ne) le'), .same nofun⟩
  | busy =>
    obtain ⟨held, k⟩ := here pc nofun
    simp only [pc] at e
    cases e
    refine ⟨I.goto held ⟨k, ?_⟩, .same nofun⟩
    rw [I.add.logs.head, I.add.logs.frontIdx_eq]
  | front idx =>
    obtain ⟨held, lt, rfl⟩ := here pc nofun
    simp only [pc] at e
    cases e
    exact ⟨I.goto held ⟨lt, I.add.logs.slot _ (Nat.le_refl _) lt⟩, .same nofun⟩
  | taken tb =>
    obtain ⟨held, lt, rfl⟩ := here pc nofun
    simp only [pc] at e
    cases e
    have others : ∀ (r : GetPc α) d, d ≠ c → (s.get.goto c r).pc d = s.get.pc d := fun r d ne =>
      s.get.goto_of_ne ne r
    refine ⟨⟨?_, ?_, fun d ne => ?_, fun d e => ?_⟩, ⟨fun _ _ _ => rfl, fun _ ne fails => absurd fails ne,
      fun d m ne e => ?_⟩⟩
    · rw [List.length_append]
      exact I.add.popFront lt
    · show s.get.popped ++ [s.add.log[s.get.popped.length]] = _
      rw [List.length_append, List.length_singleton, ← List.take_append_getElem lt, ← I.popped]
    · exact (others _ d fun eq => ne (eq ▸ held)).trans (I.outside d ne)
    · cases held.symm.trans e
      show ((s.get.goto c _).pc c).Knows _ _ _
      rw [Getters.goto_self]
      trivial
    · by_cases eq : d = c
      · subst eq
        cases (s.get.goto_self d _).symm.trans e
      · exact absurd ((others _ d eq).symm.trans e) ne
  | done r seen =>
    obtain ⟨held, -⟩ := here pc nofun
    simp only [pc] at e
    cases e
    have others : ∀ (r : GetPc α) d, d ≠ c → (s.get.goto c r).pc d = s.get.pc d := fun r d ne =>
      s.get.goto_of_ne ne r
    refine ⟨⟨I.add, I.popped, fun d _ => ?_, fun d e => nomatch e⟩, ⟨fun _ _ _ => rfl,
      fun _ ne fails => absurd fails ne, fun d m ne e => ?_⟩⟩
    · by_cases eq : d = c
      · subst eq
        exact s.get.goto_self d _
      · exact (others _ d eq).trans (I.outside d fun e => eq (Option.some.inj (e.symm.trans held)))
    · by_cases eq : d = c
      · subst eq
        cases (s.get.goto_self d _).symm.trans e
      · exact absurd ((others _ d eq).symm.trans e) ne

end Getter

variable [DecidableEq ι] [DecidableEq κ]

lemma Inv.step (I : s.Inv) {l : QueueLabel ι κ α} (st : s.step l = some s') : s'.Inv ∧ s.StepOk s' := by
  cases l with
  | add p tb =>
    obtain ⟨A, e, rfl⟩ := Option.map_eq_some_iff.1 st
    obtain ⟨I', log, quiet⟩ := I.add.call e
    exact ⟨I.ofMoves I' (.same log), ⟨fun _ _ _ => rfl, fun q ne fails => absurd fails (quiet q ne),
      fun _ _ ne e => absurd e ne⟩⟩
  | adder p =>
    obtain ⟨⟨A, v⟩, e, rfl⟩ := Option.map_eq_some_iff.1 st
    obtain ⟨I', M, full⟩ := I.add.step e
    exact ⟨I.ofMoves I' M, ⟨M.slots, full, fun _ _ ne e => absurd e ne⟩⟩
  | get c =>
    obtain ⟨G, e, rfl⟩ := Option.map_eq_some_iff.1 st
    unfold Getters.call at e
    split at e
    · rename_i free out
      cases e
      refine ⟨⟨I.add, I.popped, fun d ne => ?_, fun d held => ?_⟩,
        ⟨fun _ _ _ => rfl, fun _ ne fails => absurd fails ne, fun d m ne e => ?_⟩⟩
      · have ne' : d ≠ c := fun eq => ne (eq ▸ rfl)
        exact (s.get.goto_of_ne ne' _).trans (I.outside d (by rw [free]; nofun))
      · cases held
        show ((s.get.goto c .locked).pc c).Knows s.vec s.add.log s.get.popped.length
        rw [Getters.goto_self]
        trivial
      · by_cases eq : d = c
        · subst eq
          cases (s.get.goto_self d _).symm.trans e
        · exact absurd ((s.get.goto_of_ne eq _).symm.trans e) ne
    · cases e
  | getter c tailFirst =>
    obtain ⟨⟨G, v⟩, e, rfl⟩ := Option.map_eq_some_iff.1 st
    exact I.getter e

lemma inv_of_init [Inhabited α] (h : (machine ι κ α).init s) : s.Inv := by
  obtain ⟨add, get, size, calloc, e⟩ := h
  refine ⟨⟨?_, ?_, ?_⟩, ?_, ?_, ?_⟩
  · rw [add, get]
    exact kuplVectorCreate_logs e
  · rw [add]
    exact fun _ _ => rfl
  · rw [add]
    nofun
  · rw [add, get]
    rfl
  · rw [get]
    exact fun _ _ => rfl
  · rw [get]
    nofun

end Queue
end Kupl.Ring
