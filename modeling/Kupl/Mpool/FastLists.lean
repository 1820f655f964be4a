import Kupl.Mpool.Fast

/-!
# The lists of the fast bins in every reachable state

In every run each buffer is with a caller, in one list of its bin, or in a batch on its way to its owner. The
lists are read off the words in memory: following a list from its head one meets its buffers and then zero, and
following a batch from its head one meets its buffers and then the head of the list that it is put in front of.
-/

namespace Kupl.Mpool.Fast
open Chain List
open Function (update update_eq_self update_idem update_of_ne update_self)

/-- Where a buffer is. -/
inductive Spot where
  | user
  | self (k : Eid × Nat)
  | sync (k : Eid × Nat)
  | other (k : Eid × Nat)
  | moving (e : Eid)
  deriving DecidableEq

/-- The first buffer of the batch that an executor is handing over. -/
def Pc.head : Pc → Nat
  | .splice _ _ head _ _ => head
  | _ => 0

/-- What the last buffer of the batch leads to. -/
def Pc.old : Pc → Nat
  | .splice _ _ _ _ old => old
  | _ => 0

/-- Where a list begins. -/
def State.head (s : State) : Spot → Nat
  | .user => 0
  | .self k => (s.bins k).self
  | .sync k => (s.bins k).sync
  | .other k => (s.bins k).other
  | .moving e => (s.pc e).head

/-- What a list leads to. -/
def State.stop (s : State) : Spot → Nat
  | .moving e => (s.pc e).old
  | _ => 0

/-- The buffer belongs to where it is. -/
def State.Fits (s : State) : Spot → Nat → Prop
  | .user, _ => True
  | .self k, x => (s.desc x).eid = k.1 ∧ (s.desc x).fastBinIndex = k.2
  | .sync k, x => (s.desc x).eid = k.1 ∧ (s.desc x).fastBinIndex = k.2
  | .other k, x => (s.desc x).eid = (s.desc (s.bins k).other).eid ∧ (s.desc x).eid ≠ k.1 ∧
      (s.desc x).fastBinIndex = k.2
  | .moving e, x => ∃ eid index head tail old, s.pc e = .splice eid index head tail old ∧
    (s.desc x).eid = eid ∧ (s.desc x).fastBinIndex = index

/-- What an executor knows of the lists. -/
def State.PcOk (s : State) (l : Spot → List Nat) (e : Eid) : Pc → Prop
  | .take index ptr => ptr ≠ 0 ∧ (s.bins (e, index)).sync ≠ 0 ∧ (s.bins (e, index)).self = 0
  | .splice _ _ _ tail _ => (l (.moving e)).getLast? = some tail
  | _ => True

/-- The lists hold the buffers. -/
structure Inv (s : State) (l : Spot → List Nat) : Prop where
  user : l .user = s.live
  seg : ∀ π, π ≠ .user → Seg s.word (s.head π) (l π) (s.stop π)
  apart : Apart l
  all : ∀ x, x ∈ s.made ↔ ∃ π, x ∈ l π
  fits : ∀ π, ∀ x ∈ l π, s.Fits π x
  tail : ∀ k t, (l (.other k)).getLast? = some t → (s.bins k).otherTail = t
  pc : ∀ e, s.PcOk l e (s.pc e)
  made : ∀ x ∈ s.made, x ≠ 0 ∧ ∃ b ∈ s.regions, b ≤ x ∧ x < b + fastGrowSize

/-- A step of an executor that writes to one bin. -/
structure Turn (s s' : State) (e : Eid) (k : Eid × Nat) (b : FastCache) (pc : Pc) : Prop where
  bins : s'.bins = update s.bins k b
  pcs : s'.pc = update s.pc e pc
  desc : s'.desc = s.desc
  made : s'.made = s.made
  regions : s'.regions = s.regions

/-- The step leaves the ends of a list alone. -/
def Keeps (s : State) (e : Eid) (k : Eid × Nat) (b : FastCache) (pc : Pc) (π : Spot) : Prop :=
  (π = .self k → b.self = (s.bins k).self) ∧ (π = .sync k → b.sync = (s.bins k).sync) ∧
    (π = .other k → b.other = (s.bins k).other ∧ b.otherTail = (s.bins k).otherTail) ∧
    (π = .moving e → pc = s.pc e)

/-- A list is in memory. -/
def Held (s : State) (l : Spot → List Nat) (π : Spot) : Prop :=
  Seg s.word (s.head π) (l π) (s.stop π) ∧ (∀ x ∈ l π, s.Fits π x) ∧
    ∀ k t, π = .other k → (l π).getLast? = some t → (s.bins k).otherTail = t

variable {s s' : State} {l l' : Spot → List Nat} {e : Eid} {k k' : Eid × Nat} {b : FastCache} {π : Spot}
  {pc : Pc} {x ptr : Nat}

namespace State

lemma bins_setBin {α : Type} (f : FastCache → α) (same : f b = f (s.bins k)) :
    f (update s.bins k b k') = f (s.bins k') := by
  by_cases h : k' = k
  · rw [h, update_self, same]
  · rw [update_of_ne h]

lemma pc_self : (s.goto e pc).pc e = pc := update_self ..

lemma Fits.next (F : s.Fits π x) (desc : s'.desc x = s.desc x)
    (other : ∀ k, π = .other k → (s'.desc (s'.bins k).other).eid = (s.desc (s.bins k).other).eid)
    (pc : ∀ e, π = .moving e → s'.pc e = s.pc e) : s'.Fits π x := by
  cases π with
  | user => trivial
  | self k | sync k =>
    show (s'.desc x).eid = _ ∧ _
    rw [desc]
    exact F
  | other k =>
    show (s'.desc x).eid = _ ∧ _ ∧ (s'.desc x).fastBinIndex = _
    rw [desc, other k rfl]
    exact F
  | moving e =>
    obtain ⟨o, i, h, t, old, at', fits⟩ := F
    refine ⟨o, i, h, t, old, (pc e rfl).trans at', ?_⟩
    rw [desc]
    exact fits

lemma PcOk.next (ok : s.PcOk l e pc) (moving : l' (.moving e) = l (.moving e))
    (take : ∀ i p, pc = .take i p → ((s'.bins (e, i)).sync = 0 → (s.bins (e, i)).sync = 0) ∧
      (s'.bins (e, i)).self = (s.bins (e, i)).self) : s'.PcOk l' e pc := by
  cases pc with
  | idle | grow i => trivial
  | take i p =>
    obtain ⟨sync, self⟩ := take i p rfl
    exact ⟨ok.1, fun zero => ok.2.1 (sync zero), self.trans ok.2.2⟩
  | splice o i h t old =>
    show (l' (.moving e)).getLast? = some t
    rw [moving]
    exact ok

end State

namespace Turn

section
variable (T : Turn s s' e k b pc)
include T

lemma bin_self : s'.bins k = b := by rw [T.bins, update_self]

lemma bin (ne : k' ≠ k) : s'.bins k' = s.bins k' := by rw [T.bins, update_of_ne ne]

lemma at_self : s'.pc e = pc := by rw [T.pcs, update_self]

lemma at_ (keeps : ∀ e', π = .moving e' → Keeps s e k b pc π) (e' : Eid)
    (isM : π = .moving e') : s'.pc e' = s.pc e' := by
  by_cases same : e' = e
  · rw [same, T.at_self]
    exact (keeps e' isM).2.2.2 (same ▸ isM)
  · rw [T.pcs, update_of_ne same]

lemma field {α : Type} (f : FastCache → α) (same : k' = k → f b = f (s.bins k)) :
    f (s'.bins k') = f (s.bins k') := by
  by_cases h : k' = k
  · rw [h, T.bin_self, same h]
  · rw [T.bin h]

lemma ends (keeps : Keeps s e k b pc π) : s'.head π = s.head π ∧ s'.stop π = s.stop π := by
  cases π with
  | user => exact ⟨rfl, rfl⟩
  | self k' => exact ⟨T.field FastCache.self fun same => keeps.1 (congrArg _ same), rfl⟩
  | sync k' => exact ⟨T.field FastCache.sync fun same => keeps.2.1 (congrArg _ same), rfl⟩
  | other k' => exact ⟨T.field FastCache.other fun same => (keeps.2.2.1 (congrArg _ same)).1, rfl⟩
  | moving e' =>
    have same := T.at_ (fun _ _ => keeps) e' rfl
    exact ⟨congrArg Pc.head same, congrArg Pc.old same⟩

end

end Turn

namespace Inv

section
variable (I : Inv s l)
include I

lemma first (ne : π ≠ .user) (stop : s.stop π = 0) (some : s.head π ≠ 0) :
    ∃ xs, l π = s.head π :: xs ∧ Seg s.word (s.word (s.head π)) xs 0 := by
  have S := I.seg π ne
  rw [stop] at S
  exact S.exists_cons some

/-- A step keeps the lists when those that it writes to are in memory again. -/
lemma turn (T : Turn s s' e k b pc) (user : l' .user = s'.live) (apart : Apart l')
    (all : ∀ x, (∃ π, x ∈ l' π) ↔ ∃ π, x ∈ l π)
    (lists : ∀ π, π ≠ .user → (l' π = l π ∧ Keeps s e k b pc π ∧
      ∀ x ∈ l π, s'.word x = s.word x) ∨ Held s' l' π)
    (moving : ∀ e', e' ≠ e → l' (.moving e') = l (.moving e')) (ok : s'.PcOk l' e pc)
    (take : k.1 = e ∨ (b.sync = 0 → (s.bins k).sync = 0) ∧ b.self = (s.bins k).self) : Inv s' l' := by
  refine ⟨user, fun π ne => ?_, apart, fun x => ?_, fun π x hx => ?_, fun k' t last => ?_, fun e' => ?_, ?_⟩
  · obtain ⟨list, keeps, word⟩ | held := lists π ne
    · rw [list, (T.ends keeps).1, (T.ends keeps).2]
      exact (I.seg π ne).congr word
    · exact held.1
  · rw [T.made]
    exact (I.all x).trans (all x).symm
  · by_cases isU : π = .user
    · rw [isU]
      trivial
    · obtain ⟨list, keeps, -⟩ | held := lists π isU
      · rw [list] at hx
        refine (I.fits π x hx).next (congrFun T.desc x) (fun k' isO => ?_) (T.at_ fun _ _ => keeps)
        rw [T.desc, T.field FastCache.other fun same => (keeps.2.2.1 (same ▸ isO)).1]
      · exact held.2.1 x hx
  · obtain ⟨list, keeps, -⟩ | held := lists (.other k') nofun
    · rw [list] at last
      rw [← I.tail k' t last]
      exact T.field FastCache.otherTail fun same => (keeps.2.2.1 (congrArg _ same)).2
    · exact held.2.2 k' t rfl last
  · by_cases same : e' = e
    · rw [same, T.at_self]
      exact ok
    · rw [T.pcs, update_of_ne same]
      refine (I.pc e').next (moving e' same) fun i p _ => ?_
      by_cases isK : (e', i) = k
      · rw [isK, T.bin_self]
        exact take.resolve_left fun mine => same ((congrArg Prod.fst isK).trans mine)
      · rw [T.bin isK]
        exact ⟨id, rfl⟩
  · rw [T.made, T.regions]
    exact I.made

lemma pop (idle : s.pc e = .idle) (isE : k.1 = e) (ne : (s.bins k).self ≠ 0) :
    Inv ((s.setBin k { s.bins k with self := s.word (s.bins k).self }).hand (s.bins k).self)
      (pull l (.self k) .user (s.bins k).self) := by
  obtain ⟨xs, list, rest⟩ : ∃ xs, l (.self k) = (s.bins k).self :: xs ∧
    Seg s.word (s.word (s.bins k).self) xs 0 :=
    I.first nofun rfl ne
  have mem : (s.bins k).self ∈ l (.self k) := by
    rw [list]
    exact mem_cons_self
  have other : Spot.self k ≠ .user := nofun
  refine I.turn ⟨rfl, (update_eq_self ..).symm, rfl, rfl, rfl⟩ ?_ (I.apart.pulled other mem)
    (fun _ => I.apart.exists_pull other mem) (fun π isL => ?_) (fun _ _ => pull_of_ne nofun nofun) ?_ (.inl isE)
  · rw [pull_to, I.user]
    rfl
  · by_cases same : π = .self k
    · rw [same]
      refine .inr ⟨?_, fun y hy => ?_, nofun⟩
      · rw [pull_from other, list, erase_cons_head]
        show Seg s.word (update s.bins k _ k).self _ 0
        rw [update_self]
        exact rest
      · rw [pull_from other] at hy
        exact I.fits (.self k) y (mem_of_mem_erase hy)
    · exact .inl ⟨pull_of_ne same isL,
        ⟨fun h => absurd h same, fun _ => rfl, fun _ => ⟨rfl, rfl⟩, fun _ => rfl⟩, fun _ _ => rfl⟩
  · show State.PcOk _ _ e (s.pc e)
    rw [idle]
    trivial

lemma moving_nil (head : (s.pc e).head = 0) : l (.moving e) = [] := by
  have S : Seg s.word (s.pc e).head (l (.moving e)) (s.pc e).old := I.seg (.moving e) nofun
  rw [head] at S
  exact S.eq_nil

lemma goto (before : (s.pc e).head = 0 ∧ (s.pc e).old = 0) (after : pc.head = 0 ∧ pc.old = 0)
    (ok : s.PcOk l e pc) : Inv (s.goto e pc) l := by
  have none := I.moving_nil before.1
  refine I.turn (k := (e, 0)) ⟨(update_eq_self ..).symm, rfl, rfl, rfl, rfl⟩ I.user I.apart (fun _ => Iff.rfl)
    (fun π isL => ?_) (fun _ _ => rfl) (ok.next rfl fun _ _ _ => ⟨id, rfl⟩) (.inl rfl)
  by_cases isM : π = .moving e
  · rw [isM]
    refine .inr ⟨?_, fun y hy => ?_, nofun⟩
    · show Seg _ ((s.goto e pc).pc e).head _ ((s.goto e pc).pc e).old
      rw [State.pc_self, none, after.1, after.2]
      rfl
    · rw [none] at hy
      cases hy
  · exact .inl ⟨rfl, ⟨fun _ => rfl, fun _ => rfl, fun _ => ⟨rfl, rfl⟩, fun h => absurd h isM⟩,
      fun _ _ => rfl⟩

lemma takeAll (idle : s.pc e = .idle) (isE : k.1 = e) (self : (s.bins k).self = 0) (ne : (s.bins k).sync ≠ 0) :
    Inv ((s.setBin k { s.bins k with sync := 0, self := s.word (s.bins k).sync }).hand (s.bins k).sync)
      (join (pull l (.sync k) .user (s.bins k).sync) (.sync k) (.self k)) := by
  obtain ⟨xs, list, rest⟩ : ∃ xs, l (.sync k) = (s.bins k).sync :: xs ∧
    Seg s.word (s.word (s.bins k).sync) xs 0 :=
    I.first nofun rfl ne
  have empty : l (.self k) = [] := by
    have S : Seg s.word (s.bins k).self (l (.self k)) 0 := I.seg (.self k) nofun
    rw [self] at S
    exact S.eq_nil
  have mem : (s.bins k).sync ∈ l (.sync k) := by
    rw [list]
    exact mem_cons_self
  have other : Spot.sync k ≠ .user := nofun
  have other' : Spot.sync k ≠ .self k := nofun
  have elsewhere {π : Spot} (isS : π ≠ .sync k) (isM : π ≠ .self k) (isU : π ≠ .user) :
      join (pull l (.sync k) .user (s.bins k).sync) (.sync k) (.self k) π = l π := by
    rw [join_of_ne isS isM, pull_of_ne isS isU]
  have taken : join (pull l (.sync k) .user (s.bins k).sync) (.sync k) (.self k) (.self k) = xs := by
    have to' : pull l (.sync k) .user (s.bins k).sync (.self k) = [] := by
      rw [pull_of_ne other'.symm (show Spot.self k ≠ .user from nofun), empty]
    rw [join_to, pull_from other, list, erase_cons_head, to', append_nil]
  refine I.turn ⟨rfl, (update_eq_self ..).symm, rfl, rfl, rfl⟩ ?_ ((I.apart.pulled other mem).joined other')
    (fun _ => (exists_join other').trans (I.apart.exists_pull other mem)) (fun π isL => ?_)
    (fun _ _ => elsewhere nofun nofun nofun) ?_ (.inl isE)
  · rw [join_of_ne (by nofun) (by nofun), pull_to, I.user]
    rfl
  · by_cases isM : π = .self k
    · rw [isM]
      refine .inr ⟨?_, fun y hy => ?_, nofun⟩
      · rw [taken]
        show Seg s.word (update s.bins k _ k).self _ 0
        rw [update_self]
        exact rest
      · rw [taken] at hy
        refine I.fits (.sync k) y ?_
        rw [list]
        exact mem_cons_of_mem _ hy
    · by_cases isS : π = .sync k
      · rw [isS]
        refine .inr ⟨?_, fun y hy => ?_, nofun⟩
        · rw [join_from other']
          show (update s.bins k _ k).sync = 0
          rw [update_self]
        · rw [join_from other'] at hy
          cases hy
      · exact .inl ⟨elsewhere isS isM isL,
          ⟨fun h => absurd h isM, fun h => absurd h isS, fun _ => ⟨rfl, rfl⟩, fun _ => rfl⟩, fun _ _ => rfl⟩
  · show State.PcOk _ _ e (s.pc e)
    rw [idle]
    trivial

lemma out (mem : x ∈ s.live) (ne : π ≠ .user) : x ∉ l π := by
  intro h
  rw [← I.user] at mem
  exact ne (I.apart.place _ _ x h mem)

lemma ne_zero (mem : x ∈ l π) : x ≠ 0 := (I.made x ((I.all x).2 ⟨π, mem⟩)).1

lemma put (T : Turn s s' e k b (s.pc e)) (mem : x ∈ s.live) (ne : π ≠ .user) (still : ∀ e, .moving e ≠ π)
    (word : s'.word = update s.word x (s.head π)) (head : s'.head π = x) (live : s'.live = s.live.erase x)
    (keeps : ∀ ρ, ρ ≠ π → Keeps s e k b (s.pc e) ρ) (fits : ∀ y ∈ x :: l π, s'.Fits π y)
    (tail : ∀ k t, π = .other k → (x :: l π).getLast? = some t → (s'.bins k).otherTail = t)
    (ok : s'.PcOk l e (s.pc e))
    (take : k.1 = e ∨ (b.sync = 0 → (s.bins k).sync = 0) ∧ b.self = (s.bins k).self) :
      Inv s' (pull l .user π x) := by
  have user : x ∈ l .user := by rwa [I.user]
  have list {e' : Eid} : pull l .user π x (.moving e') = l (.moving e') := pull_of_ne nofun (still e')
  have stop : s'.stop π = s.stop π := by
    cases π with
    | moving e => exact absurd rfl (still e)
    | user | self k | sync k | other k => rfl
  refine I.turn T ?_ (I.apart.pulled ne.symm user) (fun _ => I.apart.exists_pull ne.symm user) (fun ρ isL => ?_)
    (fun _ _ => list) (State.PcOk.next ok list fun _ _ _ => ⟨id, rfl⟩) take
  · rw [pull_from ne.symm, live, I.user]
  · by_cases same : ρ = π
    · rw [same, Held, pull_to, word, head, stop]
      exact .inr ⟨(I.seg π ne).put (I.ne_zero user) (I.out mem ne), fits, tail⟩
    · refine .inl ⟨pull_of_ne isL same, keeps ρ same, fun y hy => ?_⟩
      rw [word]
      apply update_of_ne
      rintro rfl
      exact I.out mem isL hy

lemma freeSelf (noTake : ∀ i p, s.pc e ≠ .take i p) (isE : k.1 = e) (mem : x ∈ s.live)
    (own : (s.desc x).eid = k.1 ∧ (s.desc x).fastBinIndex = k.2) :
    Inv ({ s with live := s.live.erase x }.putSelf k x) (pull l .user (.self k) x) := by
  refine I.put (e := e) ⟨rfl, (update_eq_self ..).symm, rfl, rfl, rfl⟩ mem nofun nofun rfl ?_ rfl
    (fun ρ ne => ⟨fun h => absurd h ne, fun _ => rfl, fun _ => ⟨rfl, rfl⟩, fun _ => rfl⟩)
    (fun y hy => ?_) nofun
    ((I.pc e).next rfl fun i p at' => absurd at' (noTake i p)) (.inl isE)
  · show (update s.bins k _ k).self = x
    rw [update_self]
  · obtain rfl | old := mem_cons.1 hy
    · exact own
    · exact I.fits (.self k) y old

lemma freeOther (mem : x ∈ s.live) {w : Nat → Nat} (tail count : Nat) (isS : s' = { s with
      live := s.live.erase x
      word := w
      bins := update s.bins k { s.bins k with other := x, otherTail := tail, otherCount := count } })
    (word : w = update s.word x (s.bins k).other)
    (stranger : (s.desc x).eid ≠ k.1 ∧ (s.desc x).fastBinIndex = k.2)
    (owner : l (.other k) ≠ [] → (s.desc x).eid = (s.desc (s.bins k).other).eid)
    (last : l (.other k) = [] ∧ tail = x ∨ l (.other k) ≠ [] ∧ tail = (s.bins k).otherTail) :
    Inv s' (pull l .user (.other k) x) := by
  subst isS
  refine I.put (e := k.1) ⟨rfl, (update_eq_self ..).symm, rfl, rfl, rfl⟩ mem nofun nofun word ?_ rfl
    (fun ρ ne => ⟨fun _ => rfl, fun _ => rfl, fun h => absurd h ne, fun _ => rfl⟩) (fun y hy => ?_)
    (fun k' t same here => ?_)
    ((I.pc k.1).next rfl fun i p _ => ⟨fun zero => ?_, ?_⟩) (.inl rfl)
  · show (update s.bins k _ k).other = x
    rw [update_self]
  · show (s.desc y).eid = (s.desc (update s.bins k _ k).other).eid ∧ _
    rw [update_self]
    obtain rfl | old := mem_cons.1 hy
    · exact ⟨rfl, stranger⟩
    · have F : (s.desc y).eid = (s.desc (s.bins k).other).eid ∧ _ := I.fits (.other k) y old
      exact ⟨F.1.trans (owner (ne_nil_of_mem old)).symm, F.2⟩
  · cases same
    show (update s.bins k _ k).otherTail = t
    rw [update_self]
    obtain ⟨none, isX⟩ | ⟨some, isT⟩ := last
    · rw [none] at here
      exact isX.trans (Option.some.inj here)
    · rw [List.getLast?_cons_of_ne_nil some] at here
      exact isT.trans (I.tail k t here)
  · rw [← zero]
    exact (State.bins_setBin FastCache.sync (by rfl)).symm
  · exact State.bins_setBin FastCache.self rfl

lemma setAside (idle : s.pc e = .idle) (full : (s.bins k).other ≠ 0) (isE : k.1 = e) (old : Nat) : Inv { s with
      word := update s.word (s.bins k).otherTail old
      bins := update s.bins k { s.bins k with other := 0 }
      pc := update s.pc e
        (.splice (s.desc (s.bins k).other).eid k.2 (s.bins k).other (s.bins k).otherTail old) }
      (join l (.other k) (.moving e)) := by
  have before : l (.moving e) = [] := I.moving_nil (by rw [idle]; rfl)
  have ne : Spot.other k ≠ .moving e := nofun
  obtain ⟨xs, list, -⟩ : ∃ xs, l (.other k) = (s.bins k).other :: xs ∧ _ := I.first nofun rfl full
  have moved : join l (.other k) (.moving e) (.moving e) = l (.other k) := by
    rw [join_to, before, append_nil]
  have last : (l (.other k)).getLast? = some (s.bins k).otherTail := by
    cases h : (l (.other k)).getLast? with
    | none =>
      rw [List.getLast?_eq_none_iff, list] at h
      cases h
    | some t => rw [I.tail k t h]
  have tail : (s.bins k).otherTail ∈ l (.other k) := mem_of_getLast? last
  refine I.turn ⟨rfl, rfl, rfl, rfl, rfl⟩ ?_ (I.apart.joined ne) (fun _ => exists_join ne) (fun π isL => ?_)
    (fun e' other => join_of_ne nofun fun h => other (Spot.moving.inj h)) ?_ (.inl isE)
  · exact (join_of_ne (by nofun) (by nofun)).trans I.user
  · by_cases isM : π = .moving e
    · rw [isM]
      refine .inr ⟨?_, fun y hy => ?_, nofun⟩
      · rw [moved]
        show Seg _ (update s.pc e _ e).head _ (update s.pc e _ e).old
        rw [update_self]
        exact (I.seg (.other k) nofun).relink last (I.apart.once _)
      · rw [moved] at hy
        obtain ⟨owner, -, index⟩ := I.fits _ y hy
        exact ⟨_, _, _, _, _, update_self .., owner, index⟩
    · by_cases isO : π = .other k
      · rw [isO]
        refine .inr ⟨?_, fun y hy => ?_, fun k' t same here => ?_⟩
        · rw [join_from ne]
          show (update s.bins k _ k).other = 0
          rw [update_self]
        · rw [join_from ne] at hy
          cases hy
        · rw [join_from ne] at here
          cases here
      · refine .inl ⟨join_of_ne isO isM,
          ⟨fun _ => rfl, fun _ => rfl, fun h => absurd h isO, fun h => absurd h isM⟩, fun y hy => ?_⟩
        apply update_of_ne
        rintro rfl
        exact isO (I.apart.place _ _ _ hy tail)
  · show (join l (.other k) (.moving e) (.moving e)).getLast? = some (s.bins k).otherTail
    rw [moved]
    exact last

lemma spliced {index head tail : Nat} {eid : Eid}
    (at' : s.pc e = .splice eid index head tail (s.bins (eid, index)).sync) :
    Inv ((s.setBin (eid, index) { s.bins (eid, index) with sync := head }).goto e .idle)
      (join l (.moving e) (.sync (eid, index))) := by
  have ne : Spot.moving e ≠ .sync (eid, index) := nofun
  have batch : Seg s.word head (l (.moving e)) (s.bins (eid, index)).sync := by
    have S : Seg s.word (s.pc e).head (l (.moving e)) (s.pc e).old := I.seg (.moving e) nofun
    rw [at'] at S
    exact S
  have some : head ≠ 0 := by
    rintro rfl
    have ok := I.pc e
    rw [at'] at ok
    have ok : (l (.moving e)).getLast? = some tail := ok
    rw [batch.eq_nil] at ok
    cases ok
  refine I.turn ⟨rfl, rfl, rfl, rfl, rfl⟩ ?_ (I.apart.joined ne) (fun _ => exists_join ne) (fun π isL => ?_)
    (fun e' other => join_of_ne (fun h => other (Spot.moving.inj h)) nofun) trivial
    (.inr ⟨fun zero => absurd zero some, rfl⟩)
  · exact (join_of_ne (by nofun) (by nofun)).trans I.user
  · by_cases isS : π = .sync (eid, index)
    · rw [isS]
      refine .inr ⟨?_, fun y hy => ?_, nofun⟩
      · rw [join_to]
        show Seg s.word (update s.bins (eid, index) _ (eid, index)).sync _ 0
        rw [update_self]
        exact batch.append (I.seg (.sync (eid, index)) nofun)
      · rw [join_to] at hy
        obtain was | was := mem_append.1 hy
        · obtain ⟨o, i, h, t, old, at'', owner⟩ := I.fits _ y was
          rw [at'] at at''
          obtain ⟨isO, isI, -⟩ := Pc.splice.inj at''
          rw [isO, isI]
          exact owner
        · exact I.fits (.sync (eid, index)) y was
    · by_cases isM : π = .moving e
      · rw [isM]
        refine .inr ⟨?_, fun y hy => ?_, nofun⟩
        · rw [join_from ne]
          show (update s.pc e .idle e).head = (update s.pc e .idle e).old
          rw [update_self]
          rfl
        · rw [join_from ne] at hy
          cases hy
      · exact .inl ⟨join_of_ne isM isS,
          ⟨fun _ => rfl, fun h => absurd h isS, fun _ => ⟨rfl, rfl⟩, fun h => absurd h isM⟩, fun _ _ => rfl⟩

lemma retried {index head tail old new : Nat} {eid : Eid} (at' : s.pc e = .splice eid index head tail old) :
    Inv ((s.setWord tail new).goto e (.splice eid index head tail new)) l := by
  have last : (l (.moving e)).getLast? = some tail := by
    have ok := I.pc e
    rw [at'] at ok
    exact ok
  refine I.turn (k := (e, 0)) ⟨(update_eq_self ..).symm, rfl, rfl, rfl, rfl⟩ I.user I.apart (fun _ => Iff.rfl)
    (fun π isL => ?_) (fun _ _ => rfl) last (.inl rfl)
  by_cases isM : π = .moving e
  · rw [isM]
    refine .inr ⟨?_, fun y hy => ?_, nofun⟩
    · have S : Seg s.word (s.pc e).head (l (.moving e)) (s.pc e).old := I.seg (.moving e) nofun
      rw [at'] at S
      show Seg _ (update s.pc e _ e).head _ (update s.pc e _ e).old
      rw [update_self]
      exact S.relink last (I.apart.once _)
    · obtain ⟨o, i, h, t, was, at'', owner⟩ := I.fits _ y hy
      rw [at'] at at''
      obtain ⟨isO, isI, -⟩ := Pc.splice.inj at''
      rw [← isO, ← isI] at owner
      exact ⟨_, _, _, _, _, update_self .., owner⟩
  · refine .inl ⟨rfl, ⟨fun _ => rfl, fun _ => rfl, fun _ => ⟨rfl, rfl⟩, fun h => absurd h isM⟩,
      fun y hy => ?_⟩
    apply update_of_ne
    rintro rfl
    exact isM (I.apart.place _ _ _ hy (mem_of_getLast? last))

lemma written {value : Nat} (mem : x ∈ s.live) : Inv (s.setWord x value) l := by
  refine I.turn (e := 0) (k := (0, 0)) ⟨(update_eq_self ..).symm, (update_eq_self ..).symm, rfl, rfl, rfl⟩
    I.user I.apart
    (fun _ => Iff.rfl) (fun π isL => ?_) (fun _ _ => rfl) ((I.pc 0).next rfl fun _ _ _ => ⟨id, rfl⟩) (.inl rfl)
  refine .inl ⟨rfl, ⟨fun _ => rfl, fun _ => rfl, fun _ => ⟨rfl, rfl⟩, fun _ => rfl⟩, fun y hy => ?_⟩
  apply update_of_ne
  rintro rfl
  exact I.out mem isL hy

lemma handed {base buf : Nat} (new : buf ∉ s.made) (ne : buf ≠ 0)
    (region : ∃ b ∈ s.regions, b ≤ buf ∧ buf < b + fastGrowSize) :
    Inv (s.make k base buf true) (update l .user (buf :: l .user)) := by
  obtain ⟨s', isS⟩ : ∃ s', s' = s.make k base buf true := ⟨_, rfl⟩
  rw [← isS]
  have out (π) : buf ∉ l π := fun h => new ((I.all buf).2 ⟨π, h⟩)
  have desc {y : Nat} {π : Spot} (hy : y ∈ l π) : s'.desc y = s.desc y := by
    rw [isS]
    apply update_of_ne
    rintro rfl
    exact out π hy
  have bins : s'.bins = s.bins := by
    rw [isS]
    rfl
  have pcs : s'.pc = s.pc := by
    rw [isS]
    rfl
  have made : s'.made = buf :: s.made := by
    rw [isS]
    rfl
  have old {π : Spot} (ne : π ≠ .user) : update l .user (buf :: l .user) π = l π := update_of_ne ne _ _
  refine ⟨?_, fun π isL => ?_, I.apart.add out, fun y => ?_, fun π y hy => ?_, fun k' t here => ?_, fun e => ?_,
    fun y hy => ?_⟩
  · rw [update_self, I.user, isS]
    rfl
  · have same : s'.word = s.word ∧ s'.head π = s.head π ∧ s'.stop π = s.stop π := by
      rw [isS]
      cases π <;> exact ⟨rfl, rfl, rfl⟩
    rw [old isL, same.1, same.2.1, same.2.2]
    exact I.seg π isL
  · rw [made, mem_cons, I.all]
    constructor
    · rintro (rfl | ⟨π, h⟩)
      · exact ⟨.user, by rw [update_self]; exact mem_cons_self⟩
      · by_cases isL : π = .user
        · exact ⟨.user, by rw [update_self, ← isL]; exact mem_cons_of_mem _ h⟩
        · exact ⟨π, by rw [old isL]; exact h⟩
    · rintro ⟨π, h⟩
      by_cases isL : π = .user
      · rw [isL, update_self] at h
        exact (mem_cons.1 h).imp_right fun h => ⟨_, h⟩
      · rw [old isL] at h
        exact .inr ⟨π, h⟩
  · by_cases isL : π = .user
    · rw [isL]
      trivial
    · rw [old isL] at hy
      refine (I.fits π y hy).next (desc hy) (fun k' isO => ?_) fun _ _ => by rw [pcs]
      have head : (s.bins k').other ∈ l π := by
        have S : Seg s.word (s.bins k').other (l (.other k')) 0 := I.seg (.other k') nofun
        rw [isO] at hy ⊢
        cases h : l (.other k') with
        | nil =>
          rw [h] at hy
          cases hy
        | cons z zs =>
          rw [h] at S
          rw [← S.1]
          exact mem_cons_self
      rw [bins, desc head]
  · have same : update l .user (buf :: l .user) (.other k') = l (.other k') := old nofun
    rw [same] at here
    rw [bins]
    exact I.tail k' t here
  · rw [pcs]
    exact (I.pc e).next (old nofun) fun i p _ => by rw [bins]; exact ⟨id, rfl⟩
  · rw [made] at hy
    have regions : s'.regions = s.regions := by
      rw [isS]
      rfl
    rw [regions]
    obtain rfl | hy := mem_cons.1 hy
    · exact ⟨ne, region⟩
    · exact I.made y hy

lemma kept {base buf : Nat} (new : buf ∉ s.made) (ne : buf ≠ 0)
    (region : ∃ b ∈ s.regions, b ≤ buf ∧ buf < b + fastGrowSize) (noTake : ∀ i p, s.pc k.1 ≠ .take i p) :
    ∃ l', Inv (s.make k base buf false) l' := by
  have J : Inv (s.make k base buf true) _ := I.handed new ne region
  have mem : buf ∈ (s.make k base buf true).live := mem_cons_self
  have own : ((s.make k base buf true).desc buf).eid = k.1 ∧ ((s.make k base buf true).desc buf).fastBinIndex =
    k.2 := by
    have self : (s.make k base buf true).desc buf = ⟨k.1, k.2, base⟩ := update_self ..
    rw [self]
    exact ⟨rfl, rfl⟩
  have K := J.freeSelf noTake rfl mem own
  have live : (s.make k base buf true).live.erase buf = s.live := erase_cons_head ..
  rw [live] at K
  exact ⟨_, K⟩

lemma growLoop (base : Nat) {ptr stride : Nat} (noTake : ∀ i p, s.pc k.1 ≠ .take i p) (pos : 0 < stride)
    (nonzero : 0 < ptr) (count : Nat) (fresh : ∀ i < count, ptr + stride * i ∉ s.made)
    (region : ∀ i < count, ∃ b ∈ s.regions, b ≤ ptr + stride * i ∧ ptr + stride * i < b + fastGrowSize) :
    ∃ l', Inv (s.growLoop k base ptr stride count) l' ∧ (s.growLoop k base ptr stride count).pc = s.pc ∧
      (s.growLoop k base ptr stride count).regions = s.regions ∧
      ∀ x ∈ (s.growLoop k base ptr stride count).made, x ∈ s.made ∨ ∃ i < count, x = ptr + stride * i := by
  induction count with
  | zero => exact ⟨l, I, rfl, rfl, fun x hx => .inl hx⟩
  | succ n ih =>
    obtain ⟨l', J, pcs, regions, made⟩ := ih (fun i lt => fresh i (Nat.lt_succ_of_lt lt))
      fun i lt => region i (Nat.lt_succ_of_lt lt)
    obtain ⟨m, isM⟩ : ∃ m, m = s.growLoop k base ptr stride n := ⟨_, rfl⟩
    have step : s.growLoop k base ptr stride (n + 1) = m.make k base (ptr + stride * n) (n = 0) := by
      rw [isM]
      rfl
    rw [← isM] at J pcs regions made
    have new : ptr + stride * n ∉ m.made := by
      intro h
      obtain old | ⟨i, lt, same⟩ := made _ h
      · exact fresh n (Nat.lt_succ_self n) old
      · have := Nat.mul_lt_mul_of_pos_left lt pos
        omega
    have inside : ∃ b ∈ m.regions, b ≤ ptr + stride * n ∧ ptr + stride * n < b + fastGrowSize := by
      rw [regions]
      exact region n (Nat.lt_succ_self n)
    have next : ∃ l', Inv (m.make k base (ptr + stride * n) (n = 0)) l' := by
      by_cases first : n = 0
      · rw [decide_eq_true first]
        exact ⟨_, J.handed new (by omega) inside⟩
      · rw [decide_eq_false first]
        exact J.kept new (by omega) inside (by rw [pcs]; exact noTake)
    have frame : (m.make k base (ptr + stride * n) (n = 0)).pc = m.pc ∧
        (m.make k base (ptr + stride * n) (n = 0)).regions = m.regions ∧
        (m.make k base (ptr + stride * n) (n = 0)).made = (ptr + stride * n) :: m.made := by
      unfold State.make
      split <;> exact ⟨rfl, rfl, rfl⟩
    obtain ⟨l'', K⟩ := next
    rw [step, frame.1, frame.2.1, frame.2.2]
    refine ⟨l'', K, pcs, regions, fun x hx => ?_⟩
    obtain isX | hx := mem_cons.1 hx
    · exact .inr ⟨n, Nat.lt_succ_self n, isX⟩
    · exact (made x hx).imp_right fun ⟨i, lt, same⟩ => ⟨i, Nat.lt_succ_of_lt lt, same⟩

lemma growFrom {base : Nat} (noTake : ∀ i p, s.pc k.1 ≠ .take i p) (nonzero : 0 < base)
    (fresh : ∀ b ∈ s.regions, b + fastGrowSize ≤ base ∨ base + fastGrowSize ≤ b) :
    ∃ l', Inv (s.growFrom k base) l' ∧ (s.growFrom k base).pc = s.pc := by
  have J : Inv { s with regions := base :: s.regions } l :=
    ⟨I.user, fun π ne => by
        have same : ({ s with regions := base :: s.regions } : State).head π = s.head π ∧
            ({ s with regions := base :: s.regions } : State).stop π = s.stop π := by
          cases π <;> exact ⟨rfl, rfl⟩
        rw [same.1, same.2]
        exact I.seg π ne,
      I.apart, I.all, fun π y hy => (I.fits π y hy).next rfl (fun _ _ => rfl) fun _ _ => rfl, I.tail,
      fun e => (I.pc e).next rfl fun _ _ _ => ⟨id, rfl⟩, fun x hx => by
        obtain ⟨ne, b, hb, inside⟩ := I.made x hx
        exact ⟨ne, b, mem_cons_of_mem _ hb, inside⟩⟩
  obtain ⟨stride, isStride⟩ : ∃ stride, stride = fastBinSize.getD k.2 0 +
    (fastDescSize + cacheLine - 1) / cacheLine * cacheLine := ⟨_, rfl⟩
  obtain ⟨ptr, isPtr⟩ : ∃ ptr, ptr = (base + cacheLine - 1) / cacheLine * cacheLine := ⟨_, rfl⟩
  obtain ⟨count, isCount⟩ : ∃ count, count = fastGrowSize / stride % 2 ^ 16 := ⟨_, rfl⟩
  have line : cacheLine = 64 := rfl
  have desc : fastDescSize = 16 := rfl
  have size : fastGrowSize = 65536 := rfl
  rw [line] at isPtr
  rw [line, desc] at isStride
  have inside (i) (lt : i < count) : base ≤ ptr + stride * i ∧ ptr + stride * i < base + fastGrowSize := by
    have le : stride * (i + 1) ≤ fastGrowSize :=
      calc stride * (i + 1) ≤ stride * (fastGrowSize / stride) :=
            Nat.mul_le_mul_left _ (Nat.le_trans lt (by rw [isCount]; exact Nat.mod_le _ _))
        _ ≤ fastGrowSize := Nat.mul_div_le _ _
    rw [Nat.mul_succ] at le
    omega
  have fresh' (i) (lt : i < count) : ptr + stride * i ∉ s.made := by
    intro h
    obtain ⟨-, b, hb, low, high⟩ := I.made _ h
    have := fresh b hb
    have := inside i lt
    omega
  obtain ⟨l', K, pcs, -⟩ := J.growLoop base noTake (by omega) (by omega) count fresh'
    fun i lt => ⟨base, mem_cons_self, inside i lt⟩
  have result : s.growFrom k base = { s with regions := base :: s.regions }.growLoop k base ptr stride count := by
    rw [isCount, isPtr, isStride]
    rfl
  rw [result]
  exact ⟨l', K, pcs⟩

lemma alloc {size : Nat} (h : s.alloc e size = some s') : ∃ l', Inv s' l' := by
  rw [State.alloc] at h
  split at h
  · rename_i can
    have before : (s.pc e).head = 0 ∧ (s.pc e).old = 0 := by
      rw [can.1]
      exact ⟨rfl, rfl⟩
    dsimp only at h
    split at h
    · rename_i self
      cases h
      exact ⟨_, I.pop (k := (e, _)) can.1 rfl self⟩
    · rename_i self
      split at h
      · rename_i sync
        cases h
        exact ⟨_, I.goto before ⟨rfl, rfl⟩ ⟨sync, sync, not_not.1 self⟩⟩
      · cases h
        exact ⟨_, I.goto before ⟨rfl, rfl⟩ trivial⟩
  · cases h

lemma take {ok : Bool} (h : s.take e ok = some s') : ∃ l', Inv s' l' := by
  rw [State.take] at h
  split at h
  · rename_i index ptr at'
    have before : (s.pc e).head = 0 ∧ (s.pc e).old = 0 := by
      rw [at']
      exact ⟨rfl, rfl⟩
    have known : ptr ≠ 0 ∧ (s.bins (e, index)).sync ≠ 0 ∧ (s.bins (e, index)).self = 0 := by
      have known := I.pc e
      rw [at'] at known
      exact known
    dsimp only at h
    split at h
    · rename_i swap
      cases h
      have J : Inv (s.goto e .idle) l := I.goto before ⟨rfl, rfl⟩ trivial
      have K := J.takeAll (k := (e, index)) State.pc_self rfl known.2.2 known.2.1
      rw [← swap.1]
      exact ⟨_, K⟩
    · cases h
      exact ⟨_, I.goto before ⟨rfl, rfl⟩ ⟨known.2.1, known.2.1, known.2.2⟩⟩
  · cases h

lemma grow {mapped : Option Nat} (h : s.grow e mapped = some s') : ∃ l', Inv s' l' := by
  rw [State.grow] at h
  split at h
  · rename_i index at'
    have before : (s.pc e).head = 0 ∧ (s.pc e).old = 0 := by
      rw [at']
      exact ⟨rfl, rfl⟩
    have noTake (i p) : s.pc e ≠ .take i p := by
      rw [at']
      nofun
    cases mapped with
    | none =>
      cases h
      exact ⟨_, I.goto before ⟨rfl, rfl⟩ trivial⟩
    | some base =>
      dsimp only at h
      split at h
      · rename_i fresh
        cases h
        obtain ⟨l', J, pcs⟩ := I.growFrom (k := (e, index)) noTake fresh.1 fresh.2
        exact ⟨l', J.goto (by rw [pcs]; exact before) ⟨rfl, rfl⟩ trivial⟩
      · cases h
  · cases h

lemma splice {ok : Bool} (h : s.splice e ok = some s') : ∃ l', Inv s' l' := by
  rw [State.splice] at h
  split at h
  · rename_i eid index head tail old at'
    dsimp only at h
    split at h
    · rename_i swap
      cases h
      rw [← swap.1] at at'
      exact ⟨_, I.spliced at'⟩
    · cases h
      exact ⟨_, I.retried at'⟩
  · cases h

lemma free (h : s.free e ptr = some s') : ∃ l', Inv s' l' := by
  rw [State.free] at h
  split at h
  · rename_i can
    obtain ⟨idle, mem, isBin⟩ := can
    obtain ⟨index, isI⟩ : ∃ index, index = (s.desc ptr).fastBinIndex.toNat := ⟨_, rfl⟩
    have bin : (s.desc ptr).fastBinIndex = index := by omega
    dsimp only at h
    rw [← isI] at h
    split at h
    · rename_i own
      cases h
      have noTake (i p) : s.pc e ≠ .take i p := by
        rw [idle]
        nofun
      exact ⟨_, I.freeSelf (k := (e, index)) noTake rfl mem ⟨own, bin⟩⟩
    · rename_i stranger
      obtain ⟨k, isK⟩ : ∃ k, k = (e, index) := ⟨_, rfl⟩
      have isE : k.1 = e := congrArg Prod.fst isK
      have foreign : (s.desc ptr).eid ≠ k.1 ∧ (s.desc ptr).fastBinIndex = k.2 := by
        rw [isK]
        exact ⟨stranger, bin⟩
      rw [← isK] at h
      have S : Seg s.word (s.bins k).other (l (.other k)) 0 := I.seg (.other k) nofun
      split at h
      · rename_i none
        cases h
        rw [none] at S
        have empty := S.eq_nil
        refine ⟨_, I.freeOther mem ptr (s.bins k).otherCount ?_ rfl foreign (fun some => absurd empty some)
          (.inl ⟨empty, rfl⟩)⟩
        simp only [State.putOther, State.setBin, State.setWord, update_self, update_idem]
      · rename_i some
        have full : l (.other k) ≠ [] := by
          obtain ⟨xs, list, -⟩ := S.exists_cons some
          rw [list]
          exact cons_ne_nil _ _
        split at h
        · rename_i same
          cases h
          refine ⟨_, I.freeOther mem (s.bins k).otherTail ((s.bins k).otherCount + 1) ?_ rfl foreign (fun _ => same.1)
            (.inr ⟨full, rfl⟩)⟩
          simp only [State.putOther, State.setBin, State.setWord, update_self, update_idem]
        · cases h
          obtain ⟨old, isOld⟩ : ∃ old, old = (s.bins ((s.desc (s.bins k).other).eid, index)).sync := ⟨_, rfl⟩
          have tail : (s.bins k).otherTail ∈ l (.other k) := by
            cases last : (l (.other k)).getLast? with
            | none => exact absurd (List.getLast?_eq_none_iff.1 last) full
            | some t =>
              rw [I.tail k t last]
              exact mem_of_getLast? last
          have other : ptr ≠ (s.bins k).otherTail := by
            intro same
            rw [← same] at tail
            have ne : Spot.other k ≠ .user := nofun
            exact I.out mem ne tail
          have isIndex : index = k.2 := (congrArg Prod.snd isK).symm
          -- the owner's sync list is read after the new batch is begun, which leaves it as it was
          have sync : ((({ s with live := s.live.erase ptr } : State).setWord ptr 0).setBin k
              { s.bins k with other := ptr, otherTail := ptr, otherCount := 1 }).head
              (.sync ((s.desc (s.bins k).other).eid, index)) = old := by
            rw [isOld]
            exact State.bins_setBin FastCache.sync rfl
          have word : update (update s.word ptr 0) (s.bins k).otherTail old =
              update (update s.word (s.bins k).otherTail old) ptr 0 := Function.update_comm other ..
          have empty : join l (.other k) (.moving e) (.other k) = [] :=
            join_from (show Spot.other k ≠ .moving e from nofun)
          have J := I.setAside idle some isE old
          have K := J.freeOther (k := k) mem (w := update (update s.word ptr 0) (s.bins k).otherTail old)
            ptr 1 rfl (word.trans (by dsimp only; rw [update_self])) foreign (fun full => absurd empty full)
              (.inl ⟨empty, rfl⟩)
          dsimp only at K
          rw [update_self, update_idem, ← isIndex] at K
          rw [State.head] at sync
          rw [sync]
          exact ⟨_, K⟩
  · cases h

lemma step {a : Label} (h : s.step a = some s') : ∃ l', Inv s' l' := by
  cases a with
  | alloc e size => exact I.alloc h
  | take e ok => exact I.take h
  | grow e mapped => exact I.grow h
  | free e ptr => exact I.free h
  | splice e ok => exact I.splice h
  | write ptr value =>
    rw [State.step, State.write] at h
    split at h
    · rename_i mem
      cases h
      exact ⟨l, I.written mem⟩
    · cases h

end

lemma init (h : s.Init) : Inv s fun _ => [] := by
  have ends (π : Spot) : s.head π = 0 ∧ s.stop π = 0 := by
    cases π with
    | user => exact ⟨rfl, rfl⟩
    | self k | sync k | other k => exact ⟨by rw [State.head, h.bins], rfl⟩
    | moving e => exact ⟨by rw [State.head, h.pc]; rfl, by rw [State.stop, h.pc]; rfl⟩
  refine ⟨h.live.symm, fun π _ => ?_, ⟨fun _ => nodup_nil, fun _ _ _ => nofun⟩, fun x => ?_, fun _ _ => nofun,
    fun _ _ => nofun, fun e => ?_, fun x hx => ?_⟩
  · rw [(ends π).1, (ends π).2]
    rfl
  · rw [h.made]
    exact ⟨nofun, fun ⟨_, h⟩ => nomatch h⟩
  · rw [h.pc]
    trivial
  · rw [h.made] at hx
    cases hx

end Inv

/-- Each buffer is with one caller, in one list of its bin or in one batch on its way to its owner, and the lists
that the memory holds are these. -/
structure Listed (s : State) (l : Spot → List Nat) : Prop where
  user : l .user = s.live
  all : ∀ x, x ∈ s.made ↔ ∃ π, x ∈ l π
  apart : Apart l
  seg : ∀ π, π ≠ .user → Seg s.word (s.head π) (l π) (s.stop π)
  fits : ∀ π, ∀ x ∈ l π, s.Fits π x

/-- In every reachable state of every run the buffers are in their lists. -/
theorem buffers_listed (h : machine.Reachable s) : ∃ l, Listed s l := by
  have inv : ∃ l, Inv s l := by
    apply Machine.Reach.inv (I := fun s => ∃ l, Inv s l) h
    · exact fun _ h => ⟨_, .init h⟩
    · exact fun _ _ _ ⟨_, I⟩ _ h => I.step h
  obtain ⟨l, I⟩ := inv
  exact ⟨l, I.user, I.all, I.apart, I.seg, I.fits⟩

/-- Bins without buffers. -/
def State.start : State :=
  ⟨fun _ => 0, fun _ => ⟨0, -1, 0⟩, fun _ => ⟨0, 0, 0, 0, 0⟩, fun _ => .idle, [], [], []⟩

lemma State.start_init : State.start.Init := ⟨fun _ => rfl, fun _ => rfl, rfl, rfl, rfl⟩

/-- Executor 1 frees a buffer of executor 0 and one of executor 2: the first is back with its owner, the second is
the head of a new batch. -/
theorem buffers_listed_two : ∃ s : State, (∃ l, Listed s l) ∧ s.live = [] ∧
    (s.bins (0, 18)).sync = 8192 ∧ (s.bins (1, 18)).other = 131072 := by
  obtain ⟨s, h, is⟩ := Machine.exists_reach (M := machine) (g := fun _ _ => True)
    (P := fun s => s.live = [] ∧ (s.bins (0, 18)).sync = 8192 ∧ (s.bins (1, 18)).other = 131072)
    [.alloc 0 1152, .grow 0 (some 8192), .free 1 8192, .alloc 2 1152, .grow 2 (some 131072), .free 1 131072,
      .splice 1 true] State.start_init (by decide +kernel)
  exact ⟨s, buffers_listed h, is⟩

end Kupl.Mpool.Fast
