import Kupl.Ring.Vector

/-!
# The producers of a queue

`queue_add_tb` (`src/mt/scheduler/plugin/static_mq/kupl_sched_static_mq.cpp`, with copies in the other
plugins) and `priority_queue_add_tb` (`src/mt/scheduler/plugin/kupl_sched_plugin_api.h`): under
`add_lock`, `kupl_vector_push_back_macro`, each load and each store a step of its own.

`log` is history: the tasks that were pushed, in the order in which `tail` went up.
-/

namespace Kupl.Ring

variable {ι α : Type*}

/-- Where a producer is: outside, holding `add_lock`, with `_tail` loaded, with `_head` loaded and room
found, with the slot written, or with the result and about to unlock. -/
inductive AddPc (α : Type*) where
  | out
  | locked (tb : α)
  | tail (tb : α) (tail : BitVec 64)
  | fits (tb : α) (tail : BitVec 64)
  | stored (tb : α)
  | done (ok : Bool)
  deriving DecidableEq

/-- The producers, their lock and what they have pushed. -/
structure Adders (ι α : Type*) where
  lock : Option ι
  pc : ι → AddPc α
  log : List α

namespace Adders

/-- No one is inside and nothing was pushed. -/
def start : Adders ι α := ⟨none, fun _ => .out, []⟩

variable [DecidableEq ι]

/-- A producer goes on to the next place. -/
def goto (A : Adders ι α) (p : ι) (pc : AddPc α) : Adders ι α :=
  { A with pc := Function.update A.pc p pc }

@[simp] lemma goto_self (A : Adders ι α) (p : ι) (pc : AddPc α) : (A.goto p pc).pc p = pc :=
  Function.update_self ..

lemma goto_of_ne (A : Adders ι α) {p q : ι} (ne : q ≠ p) (pc : AddPc α) : (A.goto p pc).pc q = A.pc q :=
  Function.update_of_ne ne _ _

/-- Producer `p` takes `add_lock` to push `tb`. -/
def call (A : Adders ι α) (p : ι) (tb : α) : Option (Adders ι α) :=
  match A.lock, A.pc p with
  | none, .out => some { A.goto p (.locked tb) with lock := some p }
  | _, _ => none

/-- The next load or store of producer `p`, or its unlock. -/
def step (A : Adders ι α) (v : KuplVector α) (p : ι) : Option (Adders ι α × KuplVector α) :=
  match A.pc p with
  | .out => none
  | .locked tb => some (A.goto p (.tail tb v.tail), v)
  | .tail tb t => some (A.goto p (if v.fits t v.head then .fits tb t else .done false), v)
  | .fits tb t => some (A.goto p (.stored tb), v.store (v.pushIdx t) tb)
  | .stored tb => some ({ A.goto p (.done true) with log := A.log ++ [tb] }, v.addTail)
  | .done _ => some ({ A.goto p .out with lock := none }, v)

end Adders

/-- What a producer inside knows of the vector, `n` elements of which were popped. -/
def AddPc.Knows (v : KuplVector α) (log : List α) (n : Nat) : AddPc α → Prop
  | .out => False
  | .locked _ => True
  | .tail _ t => t = v.tail
  | .fits _ t => t = v.tail ∧ log.length - n + 1 < v.capacity.toNat
  | .stored tb => log.length - n + 1 < v.capacity.toNat ∧ v.data (log.length % v.capacity.toNat) = tb
  | .done _ => True

lemma AddPc.Knows.popFront {v : KuplVector α} {log : List α} {n : Nat} {pc : AddPc α}
    (k : pc.Knows v log n) : pc.Knows v.popFront log (n + 1) := by
  cases pc with
  | out | tail _ _ => exact k
  | locked _ | done _ => trivial
  | fits tb t =>
    obtain ⟨e, room⟩ := k
    exact ⟨e, by rw [KuplVector.popFront_capacity]; omega⟩
  | stored tb =>
    obtain ⟨room, e⟩ := k
    exact ⟨by rw [KuplVector.popFront_capacity]; omega, e⟩

namespace Adders

/-- Only the holder of `add_lock` is inside, and what it knows is true. -/
structure Inv (A : Adders ι α) (v : KuplVector α) (n : Nat) : Prop where
  logs : Logs v A.log n
  outside : ∀ p, A.lock ≠ some p → A.pc p = .out
  inside : ∀ p, A.lock = some p → (A.pc p).Knows v A.log n

variable {A A' : Adders ι α} {v v' : KuplVector α} {n : Nat} {p : ι} {tb : α}

lemma Inv.popFront (I : A.Inv v n) (lt : n < A.log.length) : A.Inv v.popFront (n + 1) :=
  ⟨I.logs.popFront lt, I.outside, fun p e => (I.inside p e).popFront⟩

lemma Inv.here {pc : AddPc α} (I : A.Inv v n) (at_ : A.pc p = pc) (ne : pc ≠ .out) :
    A.lock = some p ∧ pc.Knows v A.log n := by
  subst at_
  have held : A.lock = some p := by
    by_contra no
    exact ne (I.outside p no)
  exact ⟨held, I.inside p held⟩

/-- What a step of a producer does to the vector: the head and the elements in it stay, and the pushed
list grows at most by one at its end. -/
structure Moves (A A' : Adders ι α) (v v' : KuplVector α) (n : Nat) : Prop where
  head : v'.head = v.head
  capacity : v'.capacity = v.capacity
  slots : ∀ i, n ≤ i → i < A.log.length → v'.data (i % v.capacity.toNat) = v.data (i % v.capacity.toNat)
  log : A'.log = A.log ∨ ∃ tb, A'.log = A.log ++ [tb]

lemma Moves.same (e : A'.log = A.log) : Moves A A' v v n := ⟨rfl, rfl, fun _ _ _ => rfl, .inl e⟩

variable [DecidableEq ι]

lemma Inv.goto (I : A.Inv v n) (held : A.lock = some p) {pc : AddPc α} (L : Logs v' A.log n)
    (k : pc.Knows v' A.log n) : (A.goto p pc).Inv v' n where
  logs := L
  outside q ne := by
    have ne' : q ≠ p := fun e => ne (e ▸ held)
    exact (A.goto_of_ne ne' _).trans (I.outside q ne)
  inside q e := by
    cases held.symm.trans e
    rw [goto_self]
    exact k

lemma Inv.call (I : A.Inv v n) (e : A.call p tb = some A') : A'.Inv v n ∧ A'.log = A.log ∧
    ∀ q, A.pc q ≠ .done false → A'.pc q ≠ .done false := by
  unfold Adders.call at e
  split at e
  · rename_i free out
    cases e
    refine ⟨⟨I.logs, fun q ne => ?_, fun q held => ?_⟩, rfl, fun q ne e => ?_⟩
    · have ne' : q ≠ p := fun eq => ne (eq ▸ rfl)
      exact (A.goto_of_ne ne' _).trans (I.outside q (by rw [free]; nofun))
    · cases held
      show ((A.goto p (.locked tb)).pc p).Knows v A.log n
      rw [goto_self]
      trivial
    · by_cases eq : q = p
      · subst eq
        cases (A.goto_self q _).symm.trans e
      · exact ne ((A.goto_of_ne eq _).symm.trans e)
  · cases e

lemma Inv.step (I : A.Inv v n) (e : A.step v p = some (A', v')) : A'.Inv v' n ∧ Moves A A' v v' n ∧
    (∀ q, A.pc q ≠ .done false → A'.pc q = .done false → A.lock = some q ∧ v.isFull = true) := by
  have still : ∀ {B : Adders ι α}, (∀ q, q ≠ p → B.pc q = A.pc q) → B.pc p ≠ .done false →
      ∀ q, A.pc q ≠ .done false → B.pc q = .done false → A.lock = some q ∧ v.isFull = true := by
    intro B others mine q ne fails
    by_cases eq : q = p
    · exact absurd (eq ▸ fails) mine
    · exact absurd ((others q eq).symm.trans fails) ne
  have others : ∀ (pc : AddPc α) q, q ≠ p → (A.goto p pc).pc q = A.pc q := fun pc q ne =>
    A.goto_of_ne ne pc
  have mine : ∀ pc : AddPc α, (A.goto p pc).pc p = pc := A.goto_self p
  unfold Adders.step at e
  cases pc : A.pc p with
  | out =>
    simp only [pc] at e
    cases e
  | locked tb =>
    obtain ⟨held, -⟩ := I.here pc nofun
    simp only [pc] at e
    cases e
    exact ⟨I.goto held I.logs rfl, .same rfl, still (others _) (by rw [mine]; nofun)⟩
  | tail tb t =>
    obtain ⟨held, k⟩ := I.here pc nofun
    obtain rfl : t = v.tail := k
    simp only [pc] at e
    have room := I.logs.room
    have fits := I.logs.fits_iff (Nat.le_refl n) room
    rw [← I.logs.head] at fits
    by_cases ok : v.fits v.tail v.head = true
    · rw [if_pos ok] at e
      cases e
      exact ⟨I.goto held I.logs ⟨rfl, fits.1 ok⟩, .same rfl, still (others _) (by rw [mine]; nofun)⟩
    · rw [if_neg ok] at e
      cases e
      refine ⟨I.goto held I.logs trivial, .same rfl, fun q ne fails => ?_⟩
      by_cases eq : q = p
      · have no_room : ¬A.log.length - n + 1 < v.capacity.toNat := fun lt => ok (fits.2 lt)
        exact ⟨eq ▸ held, I.logs.isFull_iff.2 (by omega)⟩
      · exact absurd ((others _ q eq).symm.trans fails) ne
  | fits tb t =>
    obtain ⟨held, rfl, room⟩ := I.here pc nofun
    simp only [pc] at e
    cases e
    have L := I.logs.store room tb
    have idx : v.pushIdx v.tail = A.log.length % v.capacity.toNat := by
      rw [I.logs.tail, I.logs.index_eq]
    refine ⟨I.goto held L ⟨room, ?_⟩, ⟨rfl, rfl, fun i le lt => ?_, .inl rfl⟩,
      still (others _) (by rw [mine]; nofun)⟩
    · rw [idx]
      exact Function.update_self ..
    · exact (L.slot i le lt).trans (I.logs.slot i le lt).symm
  | stored tb =>
    obtain ⟨held, room, stored⟩ := I.here pc nofun
    simp only [pc] at e
    cases e
    have L := I.logs.addTail room stored
    refine ⟨⟨L, fun q ne => ?_, fun q e => ?_⟩, ⟨rfl, rfl, fun _ _ _ => rfl, .inr ⟨tb, rfl⟩⟩,
      still (others _) (by rw [mine]; nofun)⟩
    · exact (others _ q fun eq => ne (eq ▸ held)).trans (I.outside q ne)
    · cases held.symm.trans e
      show ((A.goto p (.done true)).pc p).Knows _ _ n
      rw [mine]
      trivial
  | done ok =>
    obtain ⟨held, -⟩ := I.here pc nofun
    simp only [pc] at e
    cases e
    refine ⟨⟨I.logs, fun q _ => ?_, fun q e => nomatch e⟩, .same rfl, still (others _) (by rw [mine]; nofun)⟩
    by_cases eq : q = p
    · subst eq
      exact mine _
    · exact (others _ q eq).trans (I.outside q fun e => eq (Option.some.inj (e.symm.trans held)))

end Adders
end Kupl.Ring
