import Mathlib.Data.List.Perm.Basic

/-!
# A window and its fences (`kupl_shm.cpp`)

| source | here |
|---|---|
| `kupl_fence_create`, `kupl_fence_destroy` (`kupl_fence.cpp`) | `fenceCreate`, `fenceDestroy` |
| `kupl_shm_fence_create`, `kupl_shm_fence_destroy` | `shmFenceCreate`, `shmFenceDestroy` |
| `kupl_shm_win_alloc`, `kupl_shm_win_free` | `winAlloc`, `winFree` |

The record of a window comes from `kupl_malloc_inner`, and no back end sets the two fences and the handle of the fence
window in it: they hold what was in the memory before. The back end gives a window or nothing, and adds it to the list
of the communicator. What it does inside is left out; the posix one reads the unset `attach_address` of its own entry
for a window without bytes.
-/

namespace Kupl.Shmc.Fresh

/-- Which allocations succeed; `peerIdx` is the array of a peer fence. -/
structure Allocs where
  win : Bool
  handle : Bool
  fenceWin : Bool
  peer : Bool
  peerIdx : Bool
  comm : Bool

/-- What is allocated. -/
inductive Block where
  | win
  | handle
  | fenceWin
  | peer
  | peerIdx
  | comm
  deriving DecidableEq

/-- A pointer in a record: what the allocator left there, or what was stored. -/
inductive Field where
  | junk (bits : Nat)
  | ptr (block : Option Block)
  deriving DecidableEq

/-- The record of the window, and what the call has done. -/
structure Heap where
  commFence : Field
  peerFence : Field
  fenceWinPtr : Field
  listed : Bool
  allocated : List Block
  freed : List Block
  uninit : Bool

namespace Heap

def alloc (h : Heap) (blocks : List Block) : Heap := { h with allocated := blocks ++ h.allocated }

def free (h : Heap) (blocks : List Block) : Heap := { h with freed := blocks ++ h.freed }

/-- A pointer is compared with `nullptr`. -/
def isNull (h : Heap) : Field → Bool × Heap
  | .junk bits => (bits = 0, { h with uninit := true })
  | .ptr block => (block = none, h)

/-- `none` where memory is taken for a fence that was never created (C++ `kupl_fence_destroy`). -/
def fenceDestroy (h : Heap) (fence : Field) : Option Heap :=
  match fence with
  | .junk _ => if (h.isNull fence).1 then some (h.isNull fence).2 else none
  | .ptr none => some h
  | .ptr (some .peer) => some (h.free [.peerIdx, .peer])
  | .ptr (some block) => some (h.free [block])

/-- (C++ `kupl_shm_fence_destroy`). -/
def shmFenceDestroy (h : Heap) : Option Heap := do
  let h ← h.fenceDestroy h.commFence
  let h ← h.fenceDestroy h.peerFence
  let h := { h with commFence := .ptr none, peerFence := .ptr none }
  match h.fenceWinPtr with
  | .junk _ => if (h.isNull h.fenceWinPtr).1 then some (h.isNull h.fenceWinPtr).2 else none
  | .ptr none => some h
  | .ptr (some block) => some { h.free [.fenceWin, block] with fenceWinPtr := .ptr none }

/-- A fence, with what `ops->create` allocates for it (C++ `kupl_fence_create`). -/
def fenceCreate (h : Heap) (block : Block) (malloc create : Bool) (more : List Block) : Field × Heap :=
  if malloc = false then (.ptr none, h)
  else if create = false then (.ptr none, (h.alloc [block]).free [block])
  else (.ptr (some block), h.alloc (block :: more))

/-- (C++ `kupl_shm_fence_create`). -/
def shmFenceCreate (h : Heap) (ok : Allocs) : Option (Bool × Heap) :=
  if ok.handle = false then some (false, { h with fenceWinPtr := .ptr none })
  else if ok.fenceWin = false then
    some (false, { (h.alloc [.handle]).free [.handle] with fenceWinPtr := .ptr none })
  else
    let h := { h.alloc [.fenceWin, .handle] with fenceWinPtr := .ptr (some .handle) }
    let peer := h.fenceCreate .peer ok.peer ok.peerIdx [.peerIdx]
    let comm := peer.2.fenceCreate .comm ok.comm true []
    let h := { comm.2 with peerFence := peer.1, commFence := comm.1 }
    if (h.isNull h.peerFence).1 || (h.isNull h.commFence).1 then h.shmFenceDestroy.map (Prod.mk false)
    else some (true, h)

/-- (C++ `kupl_shm_win_free`). -/
def winFree (h : Heap) : Option Heap :=
  h.shmFenceDestroy.map fun h => { h.free [.win] with listed := false }

end Heap
open Heap

/-- The code that is returned is `KUPL_OK` or not; `none` where memory is taken for what was never created (C++
`kupl_shm_win_alloc`). -/
def winAlloc (ok : Allocs) (comm peer handle : Nat) : Option (Bool × Heap) :=
  if ok.win = false then some (false, ⟨.junk comm, .junk peer, .junk handle, false, [], [], false⟩)
  else
    (shmFenceCreate ⟨.junk comm, .junk peer, .junk handle, true, [.win], [], false⟩ ok).bind fun status =>
      let h := (status.2.isNull status.2.commFence).2
      if (h.isNull h.commFence).1 then h.winFree.map (Prod.mk false)
      else
        let h := (h.isNull h.peerFence).2
        if (h.isNull h.peerFence).1 then h.winFree.map (Prod.mk false)
        else some (true, h)

/-- The window has its fences, or nothing is left of it; and no field is used that was not set. -/
def Right : Option (Bool × Heap) → Prop
  | none => False
  | some (true, h) =>
    h.uninit = false ∧ h.listed = true ∧ h.freed = [] ∧ h.commFence = .ptr (some .comm) ∧
      h.peerFence = .ptr (some .peer) ∧ h.fenceWinPtr = .ptr (some .handle) ∧
      h.allocated.Perm [.win, .handle, .fenceWin, .peer, .peerIdx, .comm]
  | some (false, h) => h.uninit = false ∧ h.listed = false ∧ h.freed.Perm h.allocated ∧ h.freed.Nodup

instance : DecidablePred Right
  | none => inferInstanceAs (Decidable False)
  | some (true, _) => inferInstanceAs (Decidable (_ ∧ _ ∧ _ ∧ _ ∧ _ ∧ _ ∧ _))
  | some (false, _) => inferInstanceAs (Decidable (_ ∧ _ ∧ _ ∧ _))

variable {ok : Allocs} {comm peer handle : Nat}

lemma winAlloc_fences {peerOk peerIdx commOk : Bool} :
    Right (winAlloc ⟨true, true, true, peerOk, peerIdx, commOk⟩ comm peer handle) := by
  have same : winAlloc ⟨true, true, true, peerOk, peerIdx, commOk⟩ comm peer handle =
      winAlloc ⟨true, true, true, peerOk, peerIdx, commOk⟩ 0 0 0 := by
    cases peerOk <;> cases peerIdx <;> cases commOk <;> rfl
  rw [same]
  cases peerOk <;> cases peerIdx <;> cases commOk <;> decide

/-- A call is right if and only if the fence window and its handle are there, or not even the window. -/
theorem winAlloc_right_iff : Right (winAlloc ok comm peer handle) ↔
    (ok.win = true → ok.handle = true ∧ ok.fenceWin = true) := by
  obtain ⟨win, handles, fences, peerOk, peerIdx, commOk⟩ := ok
  constructor
  · intro right there
    cases there
    cases handles with
    | false => cases comm <;> cases peer <;> first | exact right.elim | cases (show true = false from right.1)
    | true =>
      cases fences with
      | false => cases comm <;> cases peer <;> first | exact right.elim | cases (show true = false from right.1)
      | true => exact ⟨rfl, rfl⟩
  · intro there
    cases win with
    | false => exact ⟨rfl, rfl, List.Perm.nil, List.nodup_nil⟩
    | true =>
      obtain ⟨there, both⟩ := there rfl
      cases there
      cases both
      exact winAlloc_fences

/-- The communicator fence can not be created. -/
theorem winAlloc_right_comm : Right (winAlloc ⟨true, true, true, true, true, false⟩ 0 1 2) :=
  winAlloc_right_iff.2 fun _ => ⟨rfl, rfl⟩

/-- There is no memory for the handle of the fence window: the window is returned with what was in the memory for
fences, or one of these is destroyed; and where all were zeros, they were asked for. -/
theorem winAlloc_not_right :
    (winAlloc ⟨true, false, true, true, true, true⟩ 7 7 7).map (fun r => (r.1, r.2.commFence)) =
      some (true, .junk 7) ∧
    winAlloc ⟨true, false, true, true, true, true⟩ 7 0 0 = none ∧
    ¬Right (winAlloc ⟨true, false, true, true, true, true⟩ 7 7 7) ∧
    ¬Right (winAlloc ⟨true, false, true, true, true, true⟩ 7 0 0) := by
  refine ⟨rfl, by decide, fun right => ?_, fun right => right⟩
  cases (show true = false from right.1)

end Kupl.Shmc.Fresh
