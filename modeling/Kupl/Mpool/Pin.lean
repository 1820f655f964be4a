import Kupl.Machine.Run
import Kupl.Map.Ordered

/-!
# Pinned buffers (`kupl_mpool.cpp`)

| source | here |
|---|---|
| `kupl_memory_info_t` | `MemoryInfo` |
| `kupl_sdma_pin_umem`, `kupl_sdma_unpin_umem` | `State.pinUmem`, `State.unpinUmem` |
| `kupl_memory_is_pinned` | `State.isPinned` |
| `kupl_mlock`, `kupl_munlock` | `State.mlock`, `State.munlock` |

The driver may refuse every call. A region that it has is known by the file and the cookie it gave, and it gives no
cookie twice at a time. Addresses are numbers, compared as 64 bit words.
-/

namespace Kupl.Mpool.Pin

/-- What is kept about a pinned buffer (C++ `kupl_memory_info_t`). -/
structure MemoryInfo where
  size : Nat
  sdmaFd : Nat
  cookie : Nat
  deriving DecidableEq

/-- Memory that the driver has. -/
structure Region where
  fd : Nat
  cookie : Nat
  start : Nat
  length : Nat
  deriving DecidableEq

/-- The pinned buffers, and the regions of the driver. -/
structure State where
  sdmaMpoolFuncInit : Bool
  pinMap : OrderedMap Nat MemoryInfo
  regions : List Region

namespace State
variable (s : State)

/-- The driver has the memory from now on (C++ `kupl_sdma_pin_umem`, whose length has 32 bits). -/
def pinUmem (fd buffer count cookie : Nat) : State :=
  { s with regions := ⟨fd, cookie, buffer, count % 2 ^ 32⟩ :: s.regions }

/-- The driver does not have the memory any longer (C++ `kupl_sdma_unpin_umem`). -/
def unpinUmem (fd cookie : Nat) : State :=
  { s with regions := s.regions.filter fun r => ¬ (r.fd = fd ∧ r.cookie = cookie) }

/-- A cookie that the driver can give. -/
def Fresh (fd cookie : Nat) : Prop := ∀ r ∈ s.regions, ¬ (r.fd = fd ∧ r.cookie = cookie)

instance (fd cookie : Nat) : Decidable (s.Fresh fd cookie) := inferInstanceAs (Decidable (∀ _ ∈ _, _))

/-- Keeps a buffer in the map. -/
def put (buffer : Nat) (info : MemoryInfo) : State := { s with pinMap := s.pinMap.insert buffer info }

/-- Takes a buffer out of the map. -/
def drop (buffer : Nat) : State := { s with pinMap := s.pinMap.erase buffer }

/-- Pins a buffer (C++ `kupl_mlock`): whether there is memory for the entry, whether the driver lets go of the old
region, and the cookie that it gives. -/
def mlock (buffer count fd : Nat) (room unpinned : Bool) (pinned : Option Nat) : Option (State × Bool) :=
  if ¬ s.sdmaMpoolFuncInit ∨ count = 0 ∨ buffer = 0 then some (s, false)
  else if fd = 0 then some (s, false)
  else
    match s.pinMap.lookup buffer with
    | none =>
      if room then
        match pinned with
        | none => some (s, false)
        | some cookie =>
          if s.Fresh fd cookie then
            some ((s.pinUmem fd buffer count cookie).put buffer ⟨count, fd, cookie⟩, true)
          else none
      else some (s, false)
    | some info =>
      if info.size < count then
        if unpinned then
          match pinned with
          | none => some ((s.unpinUmem info.sdmaFd info.cookie).drop buffer, false)
          | some cookie =>
            if (s.unpinUmem info.sdmaFd info.cookie).Fresh fd cookie then
              some (((s.unpinUmem info.sdmaFd info.cookie).pinUmem fd buffer count cookie).put buffer
                ⟨count, fd, cookie⟩, true)
            else none
        else some (s, false)
      else some (s, true)

/-- Unpins a buffer (C++ `kupl_munlock`). -/
def munlock (buffer count : Nat) (unpinned : Bool) : State × Bool :=
  if ¬ s.sdmaMpoolFuncInit ∨ count = 0 ∨ buffer = 0 then (s, false)
  else
    match s.pinMap.lookup buffer with
    | none => (s, false)
    | some info =>
      if info.size = count ∧ unpinned then ((s.unpinUmem info.sdmaFd info.cookie).drop buffer, true)
      else (s, false)

/-- Whether a range is pinned (C++ `kupl_memory_is_pinned`). -/
def isPinned (addr count : Nat) : Bool :=
  if s.sdmaMpoolFuncInit then
    match s.pinMap.lastLe addr with
    | none => false
    | some (first, info) => (addr + count) % 2 ^ 64 ≤ (first + info.size) % 2 ^ 64
  else true

end State

/-- A call of the program. -/
inductive Label where
  | mlock (buffer count fd : Nat) (room unpinned : Bool) (pinned : Option Nat)
  | munlock (buffer count : Nat) (unpinned : Bool)

def step (s : State) : Label → Option State
  | .mlock buffer count fd room unpinned pinned => (s.mlock buffer count fd room unpinned pinned).map (·.1)
  | .munlock buffer count unpinned => some (s.munlock buffer count unpinned).1

/-- Runs of calls that begin with nothing pinned. -/
def machine : Machine State Label where
  init s := s.pinMap = ∅ ∧ s.regions = []
  step := step

def MemoryInfo.region (info : MemoryInfo) (start : Nat) : Region :=
  ⟨info.sdmaFd, info.cookie, start, info.size % 2 ^ 32⟩

/-- The driver has a region for each entry of the map, and no other. -/
structure Inv (s : State) : Prop where
  off : s.sdmaMpoolFuncInit = false → s.pinMap = ∅
  regions : ∀ r, r ∈ s.regions ↔ ∃ start info, s.pinMap.lookup start = some info ∧ r = info.region start
  cookie : ∀ {a b i j}, s.pinMap.lookup a = some i → s.pinMap.lookup b = some j → i.sdmaFd = j.sdmaFd →
    i.cookie = j.cookie → a = b
  range : ∀ {a i}, s.pinMap.lookup a = some i → 0 < i.size ∧ a + i.size < 2 ^ 64

variable {s s' : State} {buffer count fd cookie : Nat} {info : MemoryInfo}

namespace Inv

lemma added (I : Inv s) (on : s.sdmaMpoolFuncInit = true) (none : s.pinMap.lookup buffer = none)
    (fresh : s.Fresh fd cookie) (pos : 0 < count) (range : buffer + count < 2 ^ 64) :
    Inv ((s.pinUmem fd buffer count cookie).put buffer ⟨count, fd, cookie⟩) := by
  have self : (s.pinMap.insert buffer ⟨count, fd, cookie⟩).lookup buffer = some ⟨count, fd, cookie⟩ :=
    Finmap.lookup_insert _
  have old {a} (ne : a ≠ buffer) : (s.pinMap.insert buffer ⟨count, fd, cookie⟩).lookup a = s.pinMap.lookup a :=
    Finmap.lookup_insert_of_ne _ ne
  have other {a i} (here : s.pinMap.lookup a = some i) : a ≠ buffer := by
    rintro rfl
    rw [none] at here
    cases here
  have stranger {a i} (here : s.pinMap.lookup a = some i) : ¬ (i.sdmaFd = fd ∧ i.cookie = cookie) :=
    fresh _ ((I.regions _).2 ⟨a, i, here, rfl⟩)
  refine ⟨fun off => ?_, fun r => ?_, fun {a b i j} ha hb => ?_, fun {a i} ha => ?_⟩
  · have off : s.sdmaMpoolFuncInit = false := off
    rw [on] at off
    cases off
  · show r ∈ _ :: s.regions ↔ _
    rw [List.mem_cons, I.regions]
    constructor
    · rintro (rfl | ⟨a, i, here, rfl⟩)
      · exact ⟨buffer, _, self, rfl⟩
      · exact ⟨a, i, (old (other here)).trans here, rfl⟩
    · rintro ⟨a, i, here, rfl⟩
      by_cases same : a = buffer
      · subst same
        cases self.symm.trans here
        exact .inl rfl
      · exact .inr ⟨a, i, (old same).symm.trans here, rfl⟩
  · by_cases isA : a = buffer
    · by_cases isB : b = buffer
      · exact fun _ _ => isA.trans isB.symm
      · subst isA
        cases self.symm.trans ha
        exact fun f c => absurd ⟨f.symm, c.symm⟩ (stranger ((old isB).symm.trans hb))
    · by_cases isB : b = buffer
      · subst isB
        cases self.symm.trans hb
        exact fun f c => absurd ⟨f, c⟩ (stranger ((old isA).symm.trans ha))
      · exact I.cookie ((old isA).symm.trans ha) ((old isB).symm.trans hb)
  · by_cases isA : a = buffer
    · subst isA
      cases self.symm.trans ha
      exact ⟨pos, range⟩
    · exact I.range ((old isA).symm.trans ha)

lemma removed (I : Inv s) (here : s.pinMap.lookup buffer = some info) :
    Inv ((s.unpinUmem info.sdmaFd info.cookie).drop buffer) := by
  have self : (s.pinMap.erase buffer).lookup buffer = none := Finmap.lookup_erase _ _
  have old {a} (ne : a ≠ buffer) : (s.pinMap.erase buffer).lookup a = s.pinMap.lookup a := Finmap.lookup_erase_ne ne
  have kept {a i} (ha : (s.pinMap.erase buffer).lookup a = some i) : a ≠ buffer ∧ s.pinMap.lookup a = some i := by
    have ne : a ≠ buffer := by
      rintro rfl
      rw [self] at ha
      cases ha
    exact ⟨ne, (old ne).symm.trans ha⟩
  refine ⟨fun off => ?_, fun r => ?_, fun {a b i j} ha hb => ?_, fun ha => I.range (kept ha).2⟩
  · have empty : s.pinMap = ∅ := I.off off
    rw [empty, Finmap.lookup_empty] at here
    cases here
  · show r ∈ s.regions.filter _ ↔ ∃ start i, (s.pinMap.erase buffer).lookup start = some i ∧ r = i.region start
    rw [List.mem_filter, decide_eq_true_eq, I.regions]
    constructor
    · rintro ⟨⟨a, i, ha, rfl⟩, ne⟩
      have isA : a ≠ buffer := by
        rintro rfl
        cases here.symm.trans ha
        exact ne ⟨rfl, rfl⟩
      exact ⟨a, i, (old isA).trans ha, rfl⟩
    · rintro ⟨a, i, ha, rfl⟩
      obtain ⟨ne, ha⟩ := kept ha
      exact ⟨⟨a, i, ha, rfl⟩, fun same => ne (I.cookie ha here same.1 same.2)⟩
  · exact I.cookie (kept ha).2 (kept hb).2

lemma mlock (I : Inv s) {room unpinned ok : Bool} {pinned : Option Nat} (range : buffer + count < 2 ^ 64)
    (h : s.mlock buffer count fd room unpinned pinned = some (s', ok)) : Inv s' := by
  unfold State.mlock at h
  by_cases off : ¬ s.sdmaMpoolFuncInit ∨ count = 0 ∨ buffer = 0
  · rw [if_pos off] at h
    cases h
    exact I
  rw [if_neg off] at h
  have on : s.sdmaMpoolFuncInit = true := by
    by_contra on
    exact off (.inl on)
  have pos : 0 < count := Nat.pos_of_ne_zero fun zero => off (.inr (.inl zero))
  by_cases noFd : fd = 0
  · rw [if_pos noFd] at h
    cases h
    exact I
  rw [if_neg noFd] at h
  cases here : s.pinMap.lookup buffer with
  | none =>
    rw [here] at h
    dsimp only at h
    split at h
    · cases pinned with
      | none =>
        cases h
        exact I
      | some cookie =>
        dsimp only at h
        split at h
        · rename_i fresh
          cases h
          exact I.added on here fresh pos range
        · cases h
    · cases h
      exact I
  | some info =>
    rw [here] at h
    dsimp only at h
    split at h
    · split at h
      · have J := I.removed here
        cases pinned with
        | none =>
          cases h
          exact J
        | some cookie =>
          dsimp only at h
          split at h
          · rename_i fresh
            cases h
            -- the entry is written where it is, which is the same as taken out and put in
            have same : s.pinMap.insert buffer ⟨count, fd, cookie⟩ =
                (s.pinMap.erase buffer).insert buffer ⟨count, fd, cookie⟩ := by
              apply Finmap.ext_lookup
              intro a
              by_cases isA : a = buffer
              · subst isA
                rw [Finmap.lookup_insert, Finmap.lookup_insert]
              · rw [Finmap.lookup_insert_of_ne _ isA, Finmap.lookup_insert_of_ne _ isA, Finmap.lookup_erase_ne isA]
            have K := J.added on (Finmap.lookup_erase ..) fresh pos range
            rw [State.put] at K ⊢
            dsimp only [State.pinUmem, State.unpinUmem, State.drop] at K ⊢
            rw [same]
            exact K
          · cases h
      · cases h
        exact I
    · cases h
      exact I

lemma munlock (I : Inv s) {unpinned : Bool} : Inv (s.munlock buffer count unpinned).1 := by
  rw [State.munlock]
  split
  · exact I
  · split
    · exact I
    · rename_i here
      split
      · exact I.removed here
      · exact I

end Inv

/-- A call that names memory there is. -/
def Ranged (_ : State) : Label → Prop
  | .mlock buffer count .. => buffer + count < 2 ^ 64
  | .munlock .. => True

instance : ∀ s a, Decidable (Ranged s a)
  | _, .mlock buffer count .. => inferInstanceAs (Decidable (buffer + count < 2 ^ 64))
  | _, .munlock .. => inferInstanceAs (Decidable True)

lemma inv_of_reach (h : machine.Reach Ranged s) : Inv s := by
  apply h.inv
  · rintro s ⟨empty, none⟩
    refine ⟨fun _ => empty, fun r => ?_, fun {a b i j} ha => ?_, fun {a i} ha => ?_⟩
    · rw [none, empty]
      exact ⟨nofun, fun ⟨_, _, here, _⟩ => nomatch here⟩
    · rw [empty] at ha
      cases ha
    · rw [empty] at ha
      cases ha
  · intro s a s' I ranged h
    cases a with
    | mlock buffer count fd room unpinned pinned =>
      obtain ⟨⟨s'', ok⟩, call, rfl⟩ := Option.map_eq_some_iff.1 h
      exact I.mlock ranged call
    | munlock buffer count unpinned =>
      cases h
      exact I.munlock

namespace State

/-- One region of the driver has every byte of a range. -/
def Covered (s : State) (addr count : Nat) : Prop :=
  ∃ r ∈ s.regions, ∀ x, addr ≤ x → x < addr + count → r.start ≤ x ∧ x < r.start + r.length

/-- The lengths fit in 32 bits, and no buffer lies strictly inside another. -/
def Flat (s : State) : Prop :=
  ∀ start info, s.pinMap.lookup start = some info → info.size < 2 ^ 32 ∧
    ∀ start' info', s.pinMap.lookup start' = some info' → start < start' →
      start + info.size ≤ start' + info'.size

variable {addr : Nat}

lemma isPinned_iff (on : s.sdmaMpoolFuncInit = true) : s.isPinned addr count = true ↔
    ∃ first info, s.pinMap.lastLe addr = some (first, info) ∧
      (addr + count) % 2 ^ 64 ≤ (first + info.size) % 2 ^ 64 := by
  rw [isPinned, if_pos on]
  cases last : s.pinMap.lastLe addr with
  | none => exact ⟨nofun, fun ⟨_, _, h, _⟩ => nomatch h⟩
  | some p =>
    obtain ⟨first, info⟩ := p
    rw [decide_eq_true_eq]
    constructor
    · exact fun le => ⟨first, info, rfl, le⟩
    · rintro ⟨_, _, same, le⟩
      cases same
      exact le

lemma Covered.entry (I : Inv s) (c : s.Covered addr count) (pos : 0 < count) : ∃ start info,
    s.pinMap.lookup start = some info ∧ start ≤ addr ∧ addr + count ≤ start + info.size % 2 ^ 32 := by
  obtain ⟨r, mem, all⟩ := c
  obtain ⟨start, info, here, rfl⟩ := (I.regions r).1 mem
  have first := all addr le_rfl (by omega)
  have last := all (addr + count - 1) (by omega) (by omega)
  dsimp only [MemoryInfo.region] at first last
  exact ⟨start, info, here, first.1, by omega⟩

lemma covered_of_entry (I : Inv s) {start : Nat} (here : s.pinMap.lookup start = some info) (le : start ≤ addr)
    (inside : addr + count ≤ start + info.size % 2 ^ 32) : s.Covered addr count := by
  refine ⟨info.region start, (I.regions _).2 ⟨start, info, here, rfl⟩, fun x low high => ?_⟩
  dsimp only [MemoryInfo.region]
  omega

lemma isPinned_start (I : Inv s) (on : s.sdmaMpoolFuncInit = true) {start : Nat}
    (here : s.pinMap.lookup start = some info) (fits : start + count < 2 ^ 64) :
    s.isPinned start count = true ↔ count ≤ info.size := by
  have range := I.range here
  rw [isPinned_iff on, OrderedMap.lastLe_self here]
  constructor
  · rintro ⟨_, _, same, le⟩
    cases same
    rw [Nat.mod_eq_of_lt fits, Nat.mod_eq_of_lt range.2] at le
    omega
  · intro le
    refine ⟨start, info, rfl, ?_⟩
    rw [Nat.mod_eq_of_lt fits, Nat.mod_eq_of_lt range.2]
    omega

end State

/-- After every sequence of calls: every answer about a range is right exactly when there is a driver, every length
fits in 32 bits, and no pinned buffer lies strictly inside another. -/
theorem pinned_right_iff (h : machine.Reach Ranged s) :
    (∀ addr count, 0 < count → addr + count < 2 ^ 64 →
      (s.isPinned addr count = true ↔ s.Covered addr count)) ↔
      s.sdmaMpoolFuncInit = true ∧ s.Flat := by
  have I := inv_of_reach h
  constructor
  · intro right
    have on : s.sdmaMpoolFuncInit = true := by
      apply Bool.of_not_eq_false
      intro off
      have pinned : s.isPinned 1 1 = true := by
        rw [State.isPinned, off]
        rfl
      obtain ⟨start, info, here, -⟩ := ((right 1 1 one_pos (by omega)).1 pinned).entry I one_pos
      rw [I.off off] at here
      cases here
    have short {start : Nat} {info} (here : s.pinMap.lookup start = some info) : info.size < 2 ^ 32 := by
      have range := I.range here
      have pinned := (State.isPinned_start I on here range.2).2 le_rfl
      obtain ⟨_, info', -, low, le⟩ := ((right start info.size range.1 range.2).1 pinned).entry I range.1
      have := Nat.mod_lt info'.size (show 0 < 2 ^ 32 by omega)
      omega
    refine ⟨on, fun start info here => ⟨short here, fun start' info' here' lt => ?_⟩⟩
    by_contra inside
    have range := I.range here
    have size := Nat.mod_eq_of_lt (short here)
    -- the rest of the outer buffer from where the inner one begins
    have covered : s.Covered start' (start + info.size - start') :=
      State.covered_of_entry I here lt.le (by omega)
    have pinned := (right _ _ (by have := I.range here'; omega) (by omega)).2 covered
    have le := (State.isPinned_start I on here' (by omega)).1 pinned
    omega
  · rintro ⟨on, flat⟩ addr count pos fits
    rw [State.isPinned_iff on]
    constructor
    · rintro ⟨first, info, last, le⟩
      obtain ⟨here, low, -⟩ := OrderedMap.lastLe_eq_some.1 last
      rw [Nat.mod_eq_of_lt fits, Nat.mod_eq_of_lt (I.range here).2] at le
      apply State.covered_of_entry I here low
      rw [Nat.mod_eq_of_lt (flat first info here).1]
      exact le
    · intro covered
      obtain ⟨start, info, here, low, inside⟩ := covered.entry I pos
      obtain ⟨first, info', last, here', low', le⟩ := OrderedMap.exists_lastLe here low
      refine ⟨first, info', last, ?_⟩
      rw [Nat.mod_eq_of_lt fits, Nat.mod_eq_of_lt (I.range here').2]
      rw [Nat.mod_eq_of_lt (flat start info here).1] at inside
      obtain same | lt := le.eq_or_lt
      · subst same
        cases here.symm.trans here'
        exact inside
      · have := (flat start info here).2 first info' here' lt
        omega

def State.start : State := ⟨true, ∅, []⟩

/-- Two buffers that lie apart. -/
theorem pinned_right_iff_two : ∃ s : State, s.pinMap.lookup 4096 = some ⟨4096, 3, 7⟩ ∧
    s.pinMap.lookup 12288 = some ⟨100, 3, 8⟩ ∧
    ((∀ addr count, 0 < count → addr + count < 2 ^ 64 →
      (s.isPinned addr count = true ↔ s.Covered addr count)) ↔
      s.sdmaMpoolFuncInit = true ∧ s.Flat) := by
  obtain ⟨s, h, first, second⟩ := Machine.exists_reach (M := machine) (g := Ranged)
    (P := fun s => s.pinMap.lookup 4096 = some ⟨4096, 3, 7⟩ ∧ s.pinMap.lookup 12288 = some ⟨100, 3, 8⟩)
    [.mlock 4096 4096 3 true true (some 7), .mlock 12288 50 3 true true (some 8),
      .mlock 12288 100 3 true true (some 8)] (show machine.init State.start from ⟨rfl, rfl⟩) (by decide +kernel)
  exact ⟨s, first, second, pinned_right_iff h⟩

/-- A range inside a buffer that is pinned, behind another pinned buffer in it, is said not to be. -/
theorem pinned_right_iff_not : ¬ ∀ s, machine.Reachable s → s.sdmaMpoolFuncInit = true →
    ∀ addr count, 0 < count → addr + count < 2 ^ 64 →
      (s.isPinned addr count = true ↔ s.Covered addr count) := by
  intro right
  obtain ⟨s, h, on, mem, unpinned⟩ := Machine.exists_reach (M := machine) (g := fun _ _ => True)
    (P := fun s => s.sdmaMpoolFuncInit = true ∧ ⟨3, 7, 4096, 4096⟩ ∈ s.regions ∧ s.isPinned 4206 100 = false)
    [.mlock 4096 4096 3 true true (some 7), .mlock 4196 10 3 true true (some 8)]
    (show machine.init State.start from ⟨rfl, rfl⟩) (by decide +kernel)
  have covered : s.Covered 4206 100 := ⟨_, mem, fun x low high => by dsimp only; omega⟩
  have pinned := (right s h on 4206 100 (by omega) (by omega)).2 covered
  rw [unpinned] at pinned
  cases pinned

end Kupl.Mpool.Pin
