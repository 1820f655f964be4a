import Kupl.Bcast.Words
import Kupl.Shmc.Requests

/-!
# Requests that share a window (`kupl_shmc.cpp`, `kupl_bcast.cpp`)

A broadcast finds its buffer at the other ranks at the offset that the last lookup has left in the window. The other
collectives have offsets of their own, or work them out from their buffers when they start. A rank makes requests and
windows in any order. A start changes nothing of this, so that any request may be started in every state.

| source | here |
|---|---|
| `win->offset` | `offsetOf` |
| `kupl_shm_find_win` in the function that initialises a request | `lookups` |
| `kupl_do_bcast`, `kupl_memcpy` in it | `script`, `copies` |
-/

namespace Kupl.Shmc.Requests.Offsets
open List
open Mem (int32 int32_eq)
open Bcast (Byte)

/-- (C++ `win->offset`). -/
def offsetOf (wins : List Win) (win : Nat) : Nat := ((wins.find? fun w => w.id = win).map Win.offset).getD 0

def algoOf : BcastAlgo → Bcast.Algo
  | .auto => .auto
  | .linear => .linear
  | .linearOpt => .linearOpt
  | .topoAwareLinear => .topoAwareLinear
  | .topoAwareLinearOpt => .topoAwareLinearOpt
  | .ringPipeline => .ringPipeline
  | .linearScatterLinearAllgather => .linearScatterLinearAllgather

section Copies
variable (split : Nat) (comm : Comm) (r : BcastArgs) (buffer : Ptr) (offset : Nat)

/-- (C++ `kupl_do_bcast`). -/
def script : Bcast.Code :=
  let dataSize := int32 (r.count * r.typeSize)
  if dataSize ≤ 0 then []
  else Bcast.doBcast (algoOf r.algo) split comm.size.toNat dataSize.toNat r.root.toNat comm.rank.toNat

/-- A byte of the buffer: at its offset in the window of its rank, or in the own buffer. -/
def byteAt (throughWin : Bool) (b : Byte) : Loc :=
  if throughWin then ⟨b.1, r.win, offset + b.2⟩ else buffer.at comm.rank.toNat b.2

/-- A byte of another rank is read through the window. -/
def readsWin (src : Byte) : Bool := src.1 ≠ comm.rank.toNat

/-- And written; a ring always writes through the window, if only to the same rank. -/
def writesWin (dst : Byte) : Bool := dst.1 ≠ comm.rank.toNat || r.algo = .auto || r.algo = .ringPipeline

/-- What a start writes and reads in windows. -/
def copies : List (Loc × Loc) :=
  (script split comm r).filterMap fun
    | .copy dst src => some (byteAt comm r buffer offset (writesWin comm r dst) dst,
        byteAt comm r buffer offset (readsWin comm src) src)
    | _ => none

/-- The same in the buffers of the ranks. -/
def ownCopies : List (Loc × Loc) :=
  (script split comm r).filterMap fun
    | .copy dst src => some (buffer.at dst.1 dst.2, buffer.at src.1 src.2)
    | _ => none

/-- A start goes through the window. -/
def UsesOffset : Prop := ∃ dst src, .copy dst src ∈ script split comm r ∧
    (writesWin comm r dst || readsWin comm src) = true

end Copies

/-- At every rank a buffer is found at an offset in the window that it was found in. -/
def Finds (win : Option Nat) (buf : Ptr) (offset : Int) : Prop :=
  ∀ w ∈ win, ∀ q, (⟨q, some w, offset⟩ : Loc) = buf.at q 0

/-- A start works on the buffers that a request was made with. -/
def Own (split : Nat) (comm : Comm) : Args → Prop
  | .bcast r => ∃ buffer ∈ r.buffer, ∃ win ∈ r.win,
      copies split comm r buffer (offsetOf comm.winList win) = ownCopies split comm r buffer
  | .allreduce r => ∃ send ∈ r.sendbuf, ∃ recv ∈ r.recvbuf,
      Finds r.sendWin send (getOffset send) ∧ Finds r.recvWin recv (getOffset recv)
  | .alltoall r => Finds r.sendWin r.sendbuf (int32 r.sendbuf.off) ∧ Finds r.recvWin r.recvbuf (int32 r.recvbuf.off)

/-! ## Making requests -/

/-- A communicator of a rank, and the requests that have been made on it. -/
structure Requester where
  comm : Comm
  requests : List Args

/-- The buffers that a call looks up, in this order. -/
def lookups (comm : Comm) : Call → List Ptr
  | .allreduce (some send) (some recv) count _ op _ => if count ≤ 0 ∨ op ≠ .sum then [] else [recv, send]
  | .bcast (some buffer) count _ root _ _ _ _ => if count ≤ 0 ∨ root < 0 ∨
      root ≥ comm.size then [] else [buffer]
  | .alltoall (some send) sendcount _ (some recv) recvcount _ _ =>
    if sendcount ≤ 0 ∨ recvcount ≤ 0 then [] else [recv, send]
  | _ => []

def ids (wins : List Win) : List Nat := wins.map Win.id

/-- A rank makes requests; no two windows have one address. -/
def requester : Machine Requester Call where
  init s := (ids s.comm.winList).Nodup ∧ s.requests = []
  step s call :=
    if (ids (call.args s.comm).2).Nodup then
      some ⟨{ s.comm with winList := (call.args s.comm).2 }, (call.args s.comm).1.toList ++ s.requests⟩
    else none

/-- The offset of the last of some buffers that is in a window. -/
def lastOffset (wins : List Win) (win offset : Nat) (bufs : List Ptr) : Nat :=
  bufs.foldl (fun offset buf => if (findWin buf wins).1 = some win then buf.off else offset) offset

/-- Of the buffers of a new request that are in the window of a broadcast, the last has the offset of its buffer, or the
broadcast does not go through the window. -/
def Allowed (split : Nat) (s : Requester) (call : Call) : Prop :=
  ∀ r, .bcast r ∈ s.requests → UsesOffset split s.comm r → ∀ buffer ∈ r.buffer, ∀ win ∈ r.win,
    lastOffset s.comm.winList win buffer.off (lookups s.comm call) = buffer.off

variable {split w offset : Nat} {wins : List Win} {buf buf' buffer : Ptr} {bufs : List Ptr} {comm : Comm} {call : Call}
  {args : Args} {r : BcastArgs} {s s' : Requester}

/-! ## Lookups -/

def lookUp (bufs : List Ptr) (wins : List Win) : List Win := bufs.foldl (fun wins buf => (findWin buf wins).2) wins

lemma findWin_fst {win : Win} :
    (findWin buf (win :: wins)).1 = if isBufValid buf win then some win.id else (findWin buf wins).1 := by
  rw [findWin, findWinByBufferAddress]
  cases isBufValid buf win <;> rfl

lemma findWin_snd {win : Win} : (findWin buf (win :: wins)).2 =
    if isBufValid buf win then { win with offset := buf.off } :: wins else win :: (findWin buf wins).2 := by
  rw [findWin, findWinByBufferAddress]
  cases isBufValid buf win <;> rfl

lemma findWin_ids : ids (findWin buf wins).2 = ids wins := by
  induction wins with
  | nil => rfl
  | cons win next ih =>
    rw [findWin_snd]
    split
    · rfl
    · exact congrArg (win.id :: ·) ih

lemma findWin_mem (found : (findWin buf wins).1 = some w) : w ∈ ids wins := by
  induction wins with
  | nil => cases found
  | cons win next ih =>
    rw [findWin_fst] at found
    split at found
    · cases found
      exact mem_cons_self
    · exact mem_cons_of_mem _ (ih found)

/-- A lookup does not depend on those before it. -/
lemma findWin_again : (findWin buf (findWin buf' wins).2).1 = (findWin buf wins).1 := by
  induction wins with
  | nil => rfl
  | cons win next ih =>
    rw [findWin_snd, findWin_fst]
    split
    · rw [findWin_fst]
      rfl
    · rw [findWin_fst, ih]

lemma offsetOf_cons {win : Win} : offsetOf (win :: wins) w = if win.id = w then win.offset else offsetOf wins w := by
  rw [offsetOf, List.find?_cons]
  by_cases same : win.id = w
  · simp [same]
  · simp [same, offsetOf]

lemma findWin_offset (nodup : (ids wins).Nodup) :
    offsetOf (findWin buf wins).2 w = if (findWin buf wins).1 = some w then buf.off else offsetOf wins w := by
  induction wins with
  | nil => rfl
  | cons win next ih =>
    obtain ⟨notMem, nodup⟩ := nodup_cons.1 nodup
    rw [findWin_fst, findWin_snd]
    split
    · simp only [offsetOf_cons, Option.some_inj]
      split <;> rfl
    · rw [offsetOf_cons, offsetOf_cons, ih nodup]
      by_cases same : win.id = w
      · have other : (findWin buf next).1 ≠ some w := fun found => notMem (same ▸ findWin_mem found)
        rw [if_pos same, if_neg other, if_pos same]
      · rw [if_neg same, if_neg same]

lemma lookUp_ids : ids (lookUp bufs wins) = ids wins := by
  induction bufs generalizing wins with
  | nil => rfl
  | cons buf bufs ih => exact ih.trans findWin_ids

lemma lookUp_offset (nodup : (ids wins).Nodup) :
    offsetOf (lookUp bufs wins) w = lastOffset wins w (offsetOf wins w) bufs := by
  induction bufs generalizing wins with
  | nil => rfl
  | cons buf bufs ih =>
    have same : ids (findWin buf wins).2 = ids wins := findWin_ids
    refine (ih (same ▸ nodup)).trans ?_
    rw [findWin_offset nodup, lastOffset, lastOffset, foldl_cons]
    simp only [findWin_again]

/-! ## Requests -/

lemma copies_own (win : r.win = buffer.win) (same : UsesOffset split comm r → offset = buffer.off) :
    copies split comm r buffer offset = ownCopies split comm r buffer := by
  refine filterMap_congr fun x mem => ?_
  cases x with
  | copy dst src =>
    have at_ {through : Bool} {b : Byte} (uses : through = true → UsesOffset split comm r)
        (inside : through = false → b.1 = comm.rank.toNat) :
        byteAt comm r buffer offset through b = buffer.at b.1 b.2 := by
      cases through with
      | false => exact congrArg (buffer.at · b.2) (inside rfl).symm
      | true =>
        rw [byteAt, if_pos rfl, win, same (uses rfl)]
        rfl
    refine congrArg some (congrArg₂ Prod.mk (at_ (fun is => ⟨dst, src, mem, ?_⟩) fun is => ?_)
      (at_ (fun is => ⟨dst, src, mem, ?_⟩) fun is => ?_))
    · rw [is, Bool.true_or]
    · simp only [writesWin, Bool.or_eq_false_iff, decide_eq_false_iff_not, not_not] at is
      exact is.1.1
    · rw [is, Bool.or_true]
    · simpa [readsWin] using is
  | _ => rfl

lemma finds {win : Option Nat} (found : ∀ w, win = some w → buf.win = some w ∧ (buf.off : Int) < intMax) :
    Finds win buf (getOffset buf) ∧ Finds win buf (int32 buf.off) := by
  have same {w q : Nat} (isWin : win = some w) : (⟨q, some w, getOffset buf⟩ : Loc) = buf.at q 0 := by
    rw [Ptr.at, (found w isWin).1, Int.add_zero]
    rfl
  refine ⟨fun w isWin q => same isWin, fun w isWin q => ?_⟩
  have small := (found w isWin).2
  rw [intMax] at small
  rw [int32_eq (by omega) (by omega)]
  exact same isWin

/-- A request that has just been made. -/
def Made (comm : Comm) (bufs : List Ptr) : Args → Prop
  | .bcast r => ∃ buffer ∈ r.buffer, ∃ win ∈ r.win, (findWin buffer comm.winList).1 = some win ∧
      bufs = [buffer]
  | args => Own 0 comm args

lemma nothing {P : Args → Prop} : (∃ more, wins = more ++ wins) ∧ ∀ args, none = some args → P args :=
  ⟨⟨[], rfl⟩, fun _ made => nomatch made⟩

lemma winFree_self {win : Win} : winFree win.id (win :: wins) = wins :=
  eraseP_cons_of_pos (decide_eq_true rfl)

lemma argsSet_spec {count root : Int} {type : Option Datatype} {algo : BcastAlgo} {a b c : Option Win} :
    (∃ more, (bcastRequestArgsSet buffer count type root algo w a b c wins).2 = more ++ wins) ∧
    ∀ args, (bcastRequestArgsSet buffer count type root algo w a b c wins).1 = some args →
      ∃ r, args = .bcast r ∧ r.buffer = some buffer ∧ r.win = some w := by
  unfold bcastRequestArgsSet
  split
  iterate 3
    simp only [winFree_self]
    exact nothing
  · simp only [winFree_self]
    split
    · exact nothing
    · refine ⟨⟨[_, _, _], rfl⟩, fun args made => ?_⟩
      cases made
      exact ⟨_, rfl, rfl, rfl⟩

/-- What a call leaves of the windows, and what it makes. -/
lemma args_spec (comm : Comm) (call : Call) : (∃ more, (call.args comm).2 =
    more ++ lookUp (lookups comm call) comm.winList) ∧
    ∀ args, (call.args comm).1 = some args → Made comm (lookups comm call) args := by
  cases call with
  | allreduce send recv count type op algo =>
    rcases send with _ | send <;> rcases recv with _ | recv <;> simp only [Call.args, allreduceArgs, lookups]
    iterate 3 exact nothing
    split
    · exact nothing
    · split
      · exact nothing
      · split
        · exact nothing
        · refine ⟨⟨[], rfl⟩, fun args made => ?_⟩
          cases made
          exact ⟨send, rfl, recv, rfl, (finds fun _ => findWin_some).1, (finds fun _ => findWin_some).1⟩
  | alltoall send sendcount type recv recvcount recvtype algo =>
    rcases send with _ | send <;> rcases recv with _ | recv <;> simp only [Call.args, alltoallArgs, lookups]
    iterate 3 exact nothing
    rcases type with _ | type <;> dsimp only
    · split <;> exact nothing
    · refine ⟨⟨[], ?_⟩, fun args made => ?_⟩
      · rw [Alltoall.alltoallInit]
        split
        · rfl
        · dsimp only
          split <;> rfl
      · obtain ⟨r, isR, rfl⟩ := Option.map_eq_some_iff.1 made
        obtain ⟨-, -, -, send, recv⟩ := Alltoall.of_init isR
        exact ⟨(finds send).2, (finds recv).2⟩
  | bcast buffer count type root algo notifyRoot notifyOthers p2p =>
    rcases buffer with _ | buffer <;> simp only [Call.args, bcastArgs, lookups]
    · exact nothing
    · split
      · exact nothing
      · split
        · rename_i found
          exact ⟨⟨[], (congrArg Prod.snd found).symm⟩, fun _ made => nomatch made⟩
        · rename_i win wins found
          refine ⟨?_, fun args made => ?_⟩
          · have looked : lookUp [buffer] comm.winList = wins := congrArg Prod.snd found
            rw [looked]
            exact argsSet_spec.1
          · obtain ⟨r, rfl, isBuffer, isWin⟩ := argsSet_spec.2 args made
            exact ⟨buffer, isBuffer, win, isWin, congrArg Prod.fst found, rfl⟩

lemma args_ids (mem : w ∈ ids comm.winList) : w ∈ ids (call.args comm).2 := by
  obtain ⟨more, is⟩ := (args_spec comm call).1
  have same : ids (lookUp (lookups comm call) comm.winList) = ids comm.winList := lookUp_ids
  rw [is, ids, map_append]
  exact mem_append_right _ (Eq.mpr (congrArg (w ∈ ·) same) mem)

lemma args_offset (nodup : (ids (call.args comm).2).Nodup) (mem : w ∈ ids comm.winList) :
    offsetOf (call.args comm).2 w = lastOffset comm.winList w (offsetOf comm.winList w) (lookups comm call) := by
  obtain ⟨more, is⟩ := (args_spec comm call).1
  rw [is, ids, map_append] at nodup
  obtain ⟨-, old, apart⟩ := nodup_append.1 nodup
  have same : ids (lookUp (lookups comm call) comm.winList) = ids comm.winList := lookUp_ids
  have other : more.find? (fun win => win.id = w) = none := by
    rw [List.find?_eq_none]
    intro win new here
    rw [← same] at mem
    exact apart _ (mem_map_of_mem new) w mem (of_decide_eq_true here)
  rw [is, offsetOf, List.find?_append, other, Option.none_or, ← lookUp_offset (same ▸ old)]
  rfl

/-- A broadcast that goes through the window finds its own offset there. -/
def Good (split : Nat) (comm : Comm) : Args → Prop
  | .bcast r => ∃ buffer ∈ r.buffer, ∃ win ∈ r.win, buffer.win = some win ∧ win ∈ ids comm.winList ∧
      (UsesOffset split comm r → offsetOf comm.winList win = buffer.off)
  | args => Own split comm args

lemma Good.own (G : Good split comm args) : Own split comm args := by
  cases args with
  | bcast r =>
    obtain ⟨buffer, isBuffer, win, isWin, inside, -, offset⟩ := G
    exact ⟨buffer, isBuffer, win, isWin, copies_own (Eq.trans isWin inside.symm) offset⟩
  | allreduce r | alltoall r => exact G

lemma Made.good (M : Made comm (lookups comm call) args) (nodup : (ids (call.args comm).2).Nodup) :
    Good split { comm with winList := (call.args comm).2 } args := by
  cases args with
  | bcast r =>
    obtain ⟨buffer, isBuffer, win, isWin, found, bufs⟩ := M
    refine ⟨buffer, isBuffer, win, isWin, (findWin_some found).1, args_ids (findWin_mem found), fun _ => ?_⟩
    rw [args_offset nodup (findWin_mem found), bufs]
    exact if_pos found
  | allreduce r | alltoall r => exact M

/-- In every run in which no new request moves the offset of a window that a broadcast goes through, every request that
is started works on the buffers that it was made with. -/
theorem offsets_kept (h : requester.Reach (Allowed split) s) : ∀ args ∈ s.requests, Own split s.comm args := by
  have I : (ids s.comm.winList).Nodup ∧ ∀ args ∈ s.requests, Good split s.comm args := by
    refine h.inv (I := fun s => (ids s.comm.winList).Nodup ∧ ∀ args ∈ s.requests, Good split s.comm args)
      (fun s init => ⟨init.1, init.2 ▸ forall_mem_nil _⟩) fun s call s' I allowed step => ?_
    obtain ⟨nodup, isS⟩ := Option.ite_none_right_eq_some.1 step
    cases isS
    refine ⟨nodup, fun args mem => ?_⟩
    obtain new | old := mem_append.1 mem
    · exact ((args_spec _ _).2 args (Option.mem_toList.1 new)).good nodup
    · cases args with
      | bcast r =>
        obtain ⟨buffer, isBuffer, win, isWin, inside, mem, offset⟩ := I.2 _ old
        refine ⟨buffer, isBuffer, win, isWin, inside, args_ids mem, fun uses => ?_⟩
        rw [args_offset nodup mem, offset uses]
        exact allowed r old uses buffer isBuffer win isWin
      | allreduce r | alltoall r => exact I.2 _ old
  exact fun args mem => (I.2 args mem).own

lemma win_small : ((16 : Nat) : Int) ≤ intMax := by decide

/-- A window of 16 bytes. -/
def win (id : Nat) : Win := ⟨id, 16, 0, win_small⟩

/-- The second of two ranks and its window. -/
def before : Requester := ⟨⟨2, 1, [win 0]⟩, []⟩

lemma before_init : requester.init before := ⟨nodup_singleton _, rfl⟩

/-- A broadcast of a byte of the window. -/
def bcastAt (off id : Nat) : Call := .bcast (some ⟨some 0, off⟩) 1 (some .char) 0 .linear (some (win id))
  (some (win (id + 1))) (some (win (id + 2)))

lemma step_new (new : (ids (call.args s.comm).2).Nodup) : requester.step s call =
    some ⟨{ s.comm with winList := (call.args s.comm).2 }, (call.args s.comm).1.toList ++ s.requests⟩ :=
  if_pos new

/-- Two broadcasts of the same byte. -/
theorem offsets_kept_two : ∃ s, requester.Reach (Allowed 1) s ∧ s.requests.length = 2 ∧
    ∀ args ∈ s.requests, Own 1 s.comm args := by
  have first := Machine.Reach.step (M := requester) (g := Allowed 1) (a := bcastAt 8 1) (.init before_init)
    (fun _ mem => by cases mem) (step_new (by decide))
  have second := first.step (a := bcastAt 8 4) (fun r mem _ buffer isBuffer win isWin => by
    cases mem_singleton.1 mem
    cases isBuffer
    cases isWin
    decide) (step_new (by decide))
  exact ⟨_, second, rfl, offsets_kept second⟩

/-- A broadcast of another byte is made, and the first one reads that byte. -/
theorem offsets_not_kept : ∃ s, requester.Reachable s ∧ ∃ args ∈ s.requests, ¬ Own 1 s.comm args := by
  have first := Machine.Reach.step (M := requester) (g := fun _ _ => True) (a := bcastAt 0 1)
    (.init before_init) trivial
    (step_new (by decide))
  have second := first.step (a := bcastAt 8 4) trivial (step_new (by decide))
  refine ⟨_, second, _, mem_append_right _ (mem_append_left _ (Option.mem_toList.2 rfl)), fun own => ?_⟩
  obtain ⟨buffer, isBuffer, win, isWin, same⟩ := own
  cases isBuffer
  cases isWin
  exact absurd same (by decide)

end Kupl.Shmc.Requests.Offsets
