import Kupl.Mem.Mapping

/-!
# Windows and buffers of collectives (`kupl_shmc.cpp`)

A window is memory of the same kind at every rank of a communicator. A pointer of a rank points into one of its windows,
at some offset from its base, or into memory that is in none. The windows of a communicator are in a list, in which a
buffer is looked up; the lookup leaves its offset in the window.

| source | here |
|---|---|
| `base_ptr`, `alloc_size`, `offset` | the pointer `⟨id, 0⟩`, `allocSize`, `offset` |
| `is_buf_valid`, `get_offset` | `isBufValid`, `getOffset` |
| `kupl_find_win_by_buffer_address`, `kupl_shm_find_win` | `findWinByBufferAddress`, `findWin` |
| `kupl_shm_type_size`, `kupl_check_type_size` | `typeSize`, `checkTypeSize` |
-/

namespace Kupl.Shmc

/-- (C++ `INT_MAX`). -/
def intMax : Int := 2 ^ 31 - 1

/-- (C++ `UINT_MAX`). -/
def uintMax : Int := 2 ^ 32 - 1

/-- (C++ `kupl_shm_win_t`); no window is larger than an `int` (C++ `kupl_shm_win_alloc_inner`). -/
structure Win where
  id : Nat
  allocSize : Nat
  offset : Nat
  small : (allocSize : Int) ≤ intMax

/-- A pointer of a rank: into a window or not, and where; the null pointer is none. -/
structure Ptr where
  win : Option Nat
  off : Nat

/-- Where a pointer of some rank points to. -/
structure Loc where
  rank : Nat
  win : Option Nat
  off : Int
deriving DecidableEq

/-- A pointer of a rank that is moved. -/
def Ptr.at (p : Ptr) (rank : Nat) (diff : Int) : Loc := ⟨rank, p.win, p.off + diff⟩

/-- (C++ `is_buf_valid`). -/
def isBufValid (buf : Ptr) (win : Win) : Bool := buf.win = some win.id ∧ buf.off < win.allocSize

/-- (C++ `get_offset`). -/
def getOffset (buf : Ptr) : Nat := buf.off

/-- (C++ `kupl_find_win_by_buffer_address`). -/
def findWinByBufferAddress (buf : Ptr) (currWin : Win) : Bool × Win :=
  if isBufValid buf currWin then (true, { currWin with offset := getOffset buf }) else (false, currWin)

/-- (C++ `kupl_shm_find_win`), and the windows after it. -/
def findWin (buf : Ptr) : List Win → Option Nat × List Win
  | [] => (none, [])
  | currWin :: next =>
    let (isValid, currWin) := findWinByBufferAddress buf currWin
    if isValid then (some currWin.id, currWin :: next)
    else
      let (found, next) := findWin buf next
      (found, currWin :: next)

/-- (C++ `kupl_shm_datatype`). -/
inductive Datatype where
  | char
  | int
  | long
  | float
  | double

/-- (C++ `kupl_shm_type_size`). -/
def typeSize : Datatype → Int
  | .char => 1
  | .int => 4
  | .long => 8
  | .float => 4
  | .double => 8

/-- (C++ `kupl_check_type_size`). -/
def checkTypeSize (typeSize_ : Int) : Bool := [1, 4, 8, 4, 8].contains typeSize_

variable {buf : Ptr} {wins : List Win} {w : Nat} {type : Datatype}

lemma typeSize_pos : 0 < typeSize type := by
  cases type <;> decide

lemma findWin_some (found : (findWin buf wins).1 = some w) : buf.win = some w ∧ (buf.off : Int) < intMax := by
  induction wins with
  | nil => cases found
  | cons currWin next ih =>
    unfold findWin findWinByBufferAddress at found
    by_cases valid : isBufValid buf currWin = true
    · rw [if_pos valid] at found
      have isId : some currWin.id = some w := found
      obtain ⟨isWin, lt⟩ := of_decide_eq_true valid
      refine ⟨isWin.trans isId, ?_⟩
      have small := currWin.small
      omega
    · rw [if_neg valid] at found
      exact ih found

end Kupl.Shmc
