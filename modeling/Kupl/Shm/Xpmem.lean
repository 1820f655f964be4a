import Kupl.Machine.Run
import Kupl.Shm.Posix

/-!
# The attached memory of other processes (`kupl_shm_xpmem.cpp`)

| source | here |
|---|---|
| `g_xsegid`, `g_remote_keys`, `g_remote_caches` | `State.xsegid`, `State.keys`, `State.caches` |
| `kupl_shm_xpmem_init`, `kupl_shm_xpmem_get_global_xsegid` | `State.start` |
| `kupl_shm_xpmem_finalize` | `State.finalize` |
| `kupl_shm_xpmem_get_apid` | `State.getApid` |
| `kupl_shm_xpmem_create_remote_region` | `State.createRegion` |
| `kupl_shm_xpmem_get_trans_mem`, `kupl_shm_xpmem_get_remote_region` | `State.getTransMem` |
| `kupl_shm_xpmem_allgather_addr` | `Label.winAlloc`, and one `Label.transMem` for each other rank |

The kernel gives out access ids for segments, none that is open. It attaches memory of the segment that an open id is
for, and says `-1` if it does not, and for an id that has been released. What it gives, whether it fails, and what the
other ranks say is left open. When `kupl_shm_finalize` closes the library, it may or may not be unloaded, and
begins anew if it is.

The regions of all access ids are in one list here, each behind those of its id that were attached before it.
-/

namespace Kupl.Shm.Xpmem
open List
open Posix (Page)

/-- Pages of another process, and where they are attached (C++ `kupl_shm_xpmem_remote_region_t`). -/
structure Region where
  start : BitVec 64
  stop : BitVec 64
  addr : BitVec 64

/-- What a rank says of its memory (C++ `kupl_shm_xpmem_packed_params_t`). -/
structure Params where
  xsegid : Int
  remoteAddr : BitVec 64
  length : BitVec 64

/-- An address that was returned, with what was attached by then. -/
structure Returned where
  params : Params
  addr : BitVec 64
  attached : List (Int × Region)

/-- The library, the open access ids with their segments and the attached regions with theirs, and what is left of an
allocation. -/
structure State where
  xsegid : Int
  keys : List (Int × Int)
  caches : List (Int × Region)
  permits : Int → Option Int
  attached : List (Int × Region)
  inited : Bool
  pending : List Params
  log : List Returned

/-- (C++ `kupl_shm_align_down_pow2`). -/
def alignDown (n align : BitVec 64) : BitVec 64 := n &&& ~~~(align - 1)

/-- What `xpmem_attach` returns when it fails (C++ `(void *)-1`). -/
def attachFailed : BitVec 64 := BitVec.allOnes 64

namespace State

/-- (C++ `kupl_shm_xpmem_init`); a segment is made only if there is none. -/
def start (s : State) (version : Bool) (made : Int) : State :=
  if !version then s
  else if s.xsegid < 0 then { s with xsegid := made, inited := decide (0 ≤ made) }
  else { s with inited := true }

/-- Every cached region is detached and every cached id released (C++ `kupl_shm_xpmem_finalize`). The segment is
removed, but none of the three variables is written. -/
def finalize (s : State) (unloaded : Bool) : State :=
  let s := { s with
    attached := s.attached.filter fun m => m.2.addr ∉ s.caches.map fun e => e.2.addr
    permits := fun apid => if apid ∈ s.keys.map Prod.snd then none else s.permits apid
    inited := false }
  if unloaded then { s with xsegid := -1, keys := [], caches := [] } else s

/-- The access id for a segment (C++ `kupl_shm_xpmem_get_apid`). -/
def getApid (s : State) (xsegid : Int) (given : Option Int) : Option (State × Int) :=
  match s.keys.lookup xsegid with
  | some apid => some (s, apid)
  | none => given.map fun apid =>
    ({ s with keys := s.keys ++ [(xsegid, apid)], permits := Function.update s.permits apid (some xsegid) }, apid)

/-- Pages are attached (C++ `kupl_shm_xpmem_create_remote_region`). -/
def createRegion (s : State) (apid : Int) (start stop : BitVec 64) (given : Option (BitVec 64)) : State × Region :=
  match s.permits apid, given with
  | some xsegid, some addr => ({ s with attached := (xsegid, ⟨start, stop, addr⟩) :: s.attached },
      ⟨start, stop, addr⟩)
  | _, _ => (s, ⟨start, stop, attachFailed⟩)

/-- The region for a request (C++ `kupl_shm_xpmem_get_trans_mem`). -/
def getTransMem (page : Page) (s : State) (p : Params) (apid : Option Int) (addr : Option (BitVec 64)) :
    State × Option Region :=
  match s.getApid p.xsegid apid with
  | none => (s, none)
  | some (s, apid) =>
    let start := alignDown p.remoteAddr page.size
    let stop := Word.alignUp (p.remoteAddr + p.length) page.size
    match s.caches.find? fun e => e.1 = apid ∧ e.2.start ≤ start ∧ stop ≤ e.2.stop with
    | some e => (s, some e.2)
    | none =>
      let r := s.createRegion apid start stop addr
      if r.2.addr = 0 then (r.1, none) else ({ r.1 with caches := r.1.caches ++ [(apid, r.2)] }, some r.2)

end State

/-- What may happen next, with what the kernel does. -/
inductive Label where
  | init (version : Bool) (made : Int)
  | winAlloc (myid : Nat) (params : List Params)
  | transMem (apid : Option Int) (addr : Option (BitVec 64))
  | finalize (unloaded : Bool)

/-- The memory of a rank does not wrap around, nor do its pages. -/
def Params.Fits (page : Page) (p : Params) : Prop := p.remoteAddr.toNat + p.length.toNat + page.size.toNat ≤ 2 ^ 64

instance (page : Page) (p : Params) : Decidable (p.Fits page) := inferInstanceAs (Decidable (_ ≤ _))

def step (page : Page) (s : State) : Label → Option State
  | .init version made => if s.inited then none else some (s.start version made)
  | .winAlloc myid params =>
    if s.inited ∧ s.pending = [] ∧ ∀ p ∈ params, p.Fits page
      then some { s with pending := params.eraseIdx myid }
    else none
  | .transMem apid addr =>
    match s.pending with
    | [] => none
    | p :: ps =>
      -- an id that is open is not given again
      if apid.any fun apid => (s.permits apid).isSome then none
      else
        let r := s.getTransMem page p apid addr
        some (r.2.elim { r.1 with pending := [] } fun region =>
          { r.1 with
            pending := ps
            log := s.log ++ [⟨p, region.addr + (p.remoteAddr - region.start), r.1.attached⟩] })
  | .finalize unloaded => if s.inited ∧ s.pending = [] then some (s.finalize unloaded) else none

def State.loaded : State := ⟨-1, [], [], fun _ => none, [], false, [], []⟩

def machine (page : Page) : Machine State Label := ⟨(· = State.loaded), step page⟩

/-- The address lies in an attached region of the segment that covers what was asked for. -/
def Returned.Right (x : Returned) : Prop :=
  ∃ m ∈ x.attached, m.1 = x.params.xsegid ∧ m.2.start.toNat ≤ x.params.remoteAddr.toNat ∧
    x.params.remoteAddr.toNat + x.params.length.toNat ≤ m.2.stop.toNat ∧
    x.addr = m.2.addr + (x.params.remoteAddr - m.2.start)

instance (x : Returned) : Decidable x.Right := inferInstanceAs (Decidable (∃ m ∈ _, _))

/-- The access id that is cached for a segment is open for it, and no region is cached for one that is given anew. -/
def State.Current (s : State) (xsegid : Int) (given : Option Int) : Prop :=
  (∀ apid ∈ s.keys.lookup xsegid, s.permits apid = some xsegid) ∧
  (s.keys.lookup xsegid = none → ∀ apid ∈ given, ∀ e ∈ s.caches, e.1 ≠ apid)

/-- What is cached of a segment is current, and no attach fails. -/
def Allowed (s : State) : Label → Prop
  | .transMem apid addr => addr ≠ none ∧ ∀ p ∈ s.pending.head?, s.Current p.xsegid apid
  | _ => True

section Run
variable {page : Page} {s s' : State} {p : Params} {given : Option Int} {addr : BitVec 64}

/-- Open ids are those of the keys, and what is cached for one is attached, for its segment. -/
structure Inv (page : Page) (s : State) : Prop where
  keys : ∀ apid xsegid, s.permits apid = some xsegid → apid ∈ s.keys.map Prod.snd
  caches : ∀ e ∈ s.caches, ∀ xsegid, s.permits e.1 = some xsegid → (xsegid, e.2) ∈ s.attached
  fits : ∀ p ∈ s.pending, p.Fits page
  log : ∀ x ∈ s.log, x.Right

lemma alignDown_le {n align : BitVec 64} : (alignDown n align).toNat ≤ n.toNat := by
  rw [alignDown, BitVec.toNat_and]
  exact Nat.and_le_left

lemma Params.Fits.covers (fits : p.Fits page) : p.remoteAddr.toNat + p.length.toNat ≤
    (Word.alignUp (p.remoteAddr + p.length) page.size).toNat := by
  have sum : (p.remoteAddr + p.length).toNat = p.remoteAddr.toNat + p.length.toNat := by
    rw [BitVec.toNat_add]
    have := page.pos
    unfold Params.Fits at fits
    omega
  have up := Word.le_alignUp (n := p.remoteAddr + p.length) page.pos (by rw [sum]; exact fits)
  rwa [sum] at up

/-- Nothing is open once the library has been finalised. -/
lemma Inv.finalize (I : Inv page s) {unloaded : Bool} : Inv page (s.finalize unloaded) := by
  have closed (apid) : (if apid ∈ s.keys.map Prod.snd then none else s.permits apid) = none := by
    split
    · rfl
    · rename_i out
      cases open_ : s.permits apid with
      | none => rfl
      | some xsegid => exact absurd (I.keys apid xsegid open_) out
  unfold State.finalize
  cases unloaded with
  | false =>
    refine ⟨fun apid xsegid h => ?_, fun e _ xsegid h => ?_, I.fits, I.log⟩
    · cases (closed apid).symm.trans h
    · cases (closed e.1).symm.trans h
  | true =>
    refine ⟨fun apid xsegid h => ?_, fun e mem => ?_, I.fits, I.log⟩
    · cases (closed apid).symm.trans h
    · cases mem

/-- A request for a segment whose id is current goes on with an id that is open for it. -/
lemma Inv.getApid (I : Inv page s) {xsegid apid : Int} (current : s.Current xsegid given)
    (h : s.getApid xsegid given = some (s', apid)) : Inv page s' ∧ s'.permits apid = some xsegid ∧
      s'.log = s.log := by
  unfold State.getApid at h
  cases key : s.keys.lookup xsegid with
  | some a =>
    rw [key] at h
    cases h
    exact ⟨I, current.1 _ key, rfl⟩
  | none =>
    rw [key] at h
    obtain ⟨_, some_, new⟩ := Option.map_eq_some_iff.1 h
    cases new
    refine ⟨⟨fun b x at_ => ?_, fun e mem x at_ => ?_, I.fits, I.log⟩, Function.update_self .., rfl⟩
    · dsimp only at at_ ⊢
      rw [map_append]
      by_cases same : b = apid
      · exact mem_append_right _ (mem_singleton.2 same)
      · rw [Function.update_of_ne same] at at_
        exact mem_append_left _ (I.keys b x at_)
    · dsimp only at at_
      rw [Function.update_of_ne (current.2 key _ some_ e mem)] at at_
      exact I.caches e mem x at_

/-- What is given for a request is attached, for its segment, and covers its pages. -/
lemma Inv.getTransMem (I : Inv page s) (current : s.Current p.xsegid given) :
    Inv page (s.getTransMem page p given (some addr)).1 ∧
    (s.getTransMem page p given (some addr)).1.log = s.log ∧ ∀ r ∈ (s.getTransMem page p given (some addr)).2,
      (p.xsegid, r) ∈ (s.getTransMem page p given (some addr)).1.attached ∧
      r.start ≤ alignDown p.remoteAddr page.size ∧ Word.alignUp (p.remoteAddr + p.length) page.size ≤ r.stop := by
  unfold State.getTransMem
  cases got : s.getApid p.xsegid given with
  | none => exact ⟨I, rfl, fun r none => by cases none⟩
  | some t =>
    obtain ⟨s', apid⟩ := t
    obtain ⟨I', open_, log⟩ := I.getApid current got
    dsimp only
    split
    · rename_i e found
      have fits := List.find?_some found
      have mem := mem_of_find?_eq_some found
      obtain ⟨same, start, stop⟩ := of_decide_eq_true fits
      refine ⟨I', log, fun r is => ?_⟩
      cases is
      exact ⟨I'.caches e mem _ (same ▸ open_), start, stop⟩
    · simp only [State.createRegion, open_]
      split
      · refine ⟨⟨I'.keys, fun e mem x at_ => ?_, I'.fits, I'.log⟩, log, fun r none => by cases none⟩
        exact mem_cons_of_mem _ (I'.caches e mem x at_)
      · refine ⟨⟨I'.keys, fun e mem x at_ => ?_, I'.fits, I'.log⟩, log, fun r is => ?_⟩
        · rcases mem_append.1 mem with old | new
          · exact mem_cons_of_mem _ (I'.caches e old x at_)
          · cases mem_singleton.1 new
            cases open_.symm.trans at_
            exact mem_cons_self
        · cases is
          exact ⟨mem_cons_self, BitVec.le_refl _, BitVec.le_refl _⟩

lemma Inv.step (I : Inv page s) {a : Label} (allowed : Allowed s a) (h : step page s a = some s') : Inv page s' := by
  cases a with
  | init version made =>
    obtain ⟨-, h⟩ := Option.ite_none_left_eq_some.1 h
    cases h
    unfold State.start
    split
    · exact I
    · split <;> exact ⟨I.keys, I.caches, I.fits, I.log⟩
  | winAlloc myid params =>
    obtain ⟨⟨-, -, fits⟩, h⟩ := Option.ite_none_right_eq_some.1 h
    cases h
    exact ⟨I.keys, I.caches, fun p mem => fits p (mem_of_mem_eraseIdx mem), I.log⟩
  | finalize unloaded =>
    obtain ⟨-, h⟩ := Option.ite_none_right_eq_some.1 h
    cases h
    exact I.finalize
  | transMem given addr =>
    obtain ⟨some_, current⟩ := allowed
    obtain ⟨addr, rfl⟩ := Option.ne_none_iff_exists'.1 some_
    unfold Xpmem.step at h
    cases pending : s.pending with
    | nil =>
      rw [pending] at h
      cases h
    | cons p ps =>
      rw [pending] at h current
      obtain ⟨-, h⟩ := Option.ite_none_left_eq_some.1 h
      cases h
      obtain ⟨I', log, right⟩ := @Inv.getTransMem page s p given addr I (current p rfl)
      have fits := I.fits p (pending ▸ mem_cons_self)
      have rest (q) (mem : q ∈ ps) : q.Fits page := I.fits q (pending ▸ mem_cons_of_mem p mem)
      generalize s.getTransMem page p given (some addr) = r at I' log right
      obtain ⟨t, region⟩ := r
      cases region with
      | none => exact ⟨I'.keys, I'.caches, fun q mem => (not_mem_nil mem).elim, log ▸ I.log⟩
      | some region =>
        refine ⟨I'.keys, I'.caches, rest, fun x mem => ?_⟩
        rcases mem_append.1 mem with old | new
        · exact I.log x old
        · cases mem_singleton.1 new
          obtain ⟨attached, start, stop⟩ := right region rfl
          exact ⟨_, attached, rfl, (BitVec.le_def.1 start).trans alignDown_le,
            fits.covers.trans (BitVec.le_def.1 stop),
            rfl⟩

/-- As long as the ids that are cached are current and no attach fails, every address that is returned lies in attached
memory of its segment. -/
theorem transMem_right (h : (machine page).Reach Allowed s) : ∀ x ∈ s.log, x.Right := by
  have I : Inv page s := by
    refine h.inv (fun s init => ?_) fun s a s' I allowed st => I.step allowed st
    cases init
    refine ⟨fun apid xsegid h => ?_, fun e mem => ?_, fun p mem => ?_, fun x mem => ?_⟩
    · cases h
    · cases mem
    · cases mem
    · cases mem
  exact I.log

lemma smallPage_pos : 0 < (4096 : BitVec 64).toNat := by
  decide

def smallPage : Page := ⟨4096, smallPage_pos⟩

/-- Two ranks allocate a window, of which the other one has 16 bytes. -/
def twoRanks : Label := .winAlloc 0 [⟨7, 0, 16⟩, ⟨8, 8208, 16⟩]

instance (s : State) (a : Label) : Decidable (Allowed s a) :=
  match a with
  | .init _ _ | .winAlloc _ _ | .finalize _ => isTrue trivial
  | .transMem _ _ => inferInstanceAs (Decidable (_ ∧ ∀ p ∈ _, (∀ apid ∈ _, _) ∧
      (_ → ∀ apid ∈ _, ∀ e ∈ _, _)))

/-- The second allocation finds what the first one attached. -/
theorem transMem_right_twice : ∃ s : State, s.log.map Returned.addr = [65552, 65552] ∧
    ∀ x ∈ s.log, x.Right := by
  obtain ⟨s, h, is⟩ := Machine.reach_of_run (M := machine smallPage) (g := Allowed) (s := State.loaded)
    (P := fun s => s.log.map Returned.addr = [65552, 65552])
    (w := [.init true 7, twoRanks, .transMem (some 1) (some 65536), twoRanks, .transMem none (some 0)]) rfl
    (by decide +kernel)
  exact ⟨s, of_decide_eq_true is, transMem_right h⟩

/-- Whether an attach is made good, if one is made. -/
def attaches : Label → Bool
  | .transMem _ addr => addr.isSome
  | _ => true

/-- An attach that fails is taken for one that has not, and when all regions have been detached they are still given to
those that ask for them. -/
theorem transMem_wrong : (∃ s, (machine smallPage).Reachable s ∧ ¬∀ x ∈ s.log, x.Right) ∧
    ∃ s, (machine smallPage).Reach (fun _ a => attaches a = true) s ∧ ¬∀ x ∈ s.log, x.Right := by
  constructor
  · obtain ⟨s, h, is⟩ := Machine.reach_of_run (M := machine smallPage) (g := fun _ _ => True) (s := State.loaded)
      (P := fun s => ¬∀ x ∈ s.log, x.Right) (w := [.init true 7, twoRanks, .transMem (some 1) none]) rfl
      (by decide +kernel)
    exact ⟨s, h, of_decide_eq_true is⟩
  · obtain ⟨s, h, is⟩ := Machine.reach_of_run (M := machine smallPage) (g := fun _ a => attaches a = true)
      (s := State.loaded) (P := fun s => ¬∀ x ∈ s.log, x.Right)
      (w := [.init true 7, twoRanks, .transMem (some 1) (some 65536), .finalize false, .init true 9, twoRanks,
        .transMem none (some 0)]) rfl (by decide +kernel)
    exact ⟨s, h, of_decide_eq_true is⟩

end Run
end Kupl.Shm.Xpmem
