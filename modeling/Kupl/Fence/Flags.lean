import Mathlib.Tactic.Ring

/-!
# Flags of fences (`kupl_fence.h`, `kupl_shm.cpp`)

| source | here |
|---|---|
| `fence->win` | `Window` |
| `KUPL_SHM_FENCE_FLAG_WIN_SIZE` | `flagWinSize` |
| `kupl_fence_get_flag` | `getFlag` |
| `kupl_fence_set_flag` | `setFlag` |

The flags of both fences of a window lie in one shared window: each rank has `flagWinSize` flags for every other rank,
and behind them as many for the fence of all. A rank of the communicator can always be queried. `getFlag_setFlag` says
that the flags lie apart.
-/

namespace Kupl.Fence

/-- (C++ `KUPL_CACHE_LINE`). -/
def cacheLine : Nat := 64

/-- (C++ `KUPL_SHM_FENCE_FLAG_WIN_SIZE`). -/
def flagWinSize : Nat := 3

abbrev Window := Nat → Nat → Int

/-- The offset of a flag; the one of the fence of all is behind those of the pairs. -/
def flagOffset (isCommFence : Bool) (size rank flagIdx : Nat) : Nat :=
  (if isCommFence then cacheLine * flagWinSize * size else 0) +
    (flagIdx * cacheLine * (if isCommFence then 1 else size) + rank * cacheLine)

/-- (C++ `kupl_fence_get_flag`). -/
def getFlag (w : Window) (isCommFence : Bool) (size id rank flagIdx : Nat) : Int :=
  w id (flagOffset isCommFence size rank flagIdx)

/-- (C++ `kupl_fence_set_flag`). -/
def setFlag (w : Window) (isCommFence : Bool) (size id : Nat) (flagVal : Int) (rank flagIdx : Nat) : Window :=
  Function.update w id (Function.update (w id) (flagOffset isCommFence size rank flagIdx) flagVal)

/-- A flag of a fence: the fence of all uses rank 0 only. -/
structure IsFlag (isCommFence : Bool) (size rank flagIdx : Nat) : Prop where
  rank : if isCommFence then rank = 0 else rank < size
  flagIdx : flagIdx < flagWinSize

variable {c c' : Bool} {size rank rank' idx idx' : Nat}

lemma isComm (lt : idx < 3) : IsFlag true size 0 idx := ⟨rfl, lt⟩

lemma IsFlag.offset_lt (F : IsFlag false size rank idx) :
    flagOffset false size rank idx < cacheLine * flagWinSize * size := by
  have rank_lt : rank + 1 ≤ size := F.rank
  have idx_le : idx ≤ 2 := Nat.le_of_lt_succ F.flagIdx
  have mul : idx * size ≤ 2 * size := Nat.mul_le_mul_right size idx_le
  have line : idx * cacheLine * size = 64 * (idx * size) := by
    rw [cacheLine]
    ring
  have offset : flagOffset false size rank idx = 64 * (idx * size) + 64 * rank := by
    show 0 + (idx * cacheLine * size + rank * cacheLine) = _
    rw [line, cacheLine]
    ring
  rw [offset, cacheLine, flagWinSize]
  omega

lemma IsFlag.offset_inj (F : IsFlag c size rank idx) (F' : IsFlag c' size rank' idx')
    (same : flagOffset c size rank idx = flagOffset c' size rank' idx') : c = c' ∧ rank = rank' ∧ idx = idx' := by
  have comm (r i : Nat) : flagOffset true size r i = cacheLine * flagWinSize * size +
    (i * cacheLine + r * cacheLine) := by
    show cacheLine * flagWinSize * size + (i * cacheLine * 1 + r * cacheLine) = _
    rw [Nat.mul_one]
  have pair (r i : Nat) : flagOffset false size r i = 64 * (size * i + r) := by
    show 0 + (i * cacheLine * size + r * cacheLine) = _
    rw [cacheLine]
    ring
  cases c with
  | true =>
    cases c' with
    | true =>
      rw [comm, comm, cacheLine] at same
      have r : rank = 0 := F.rank
      have r' : rank' = 0 := F'.rank
      exact ⟨rfl, r.trans r'.symm, by omega⟩
    | false =>
      have := F'.offset_lt
      rw [← same, comm] at this
      omega
  | false =>
    cases c' with
    | true =>
      have := F.offset_lt
      rw [same, comm] at this
      omega
    | false =>
      rw [pair, pair] at same
      have r : rank < size := F.rank
      have r' : rank' < size := F'.rank
      have sum : size * idx + rank = size * idx' + rank' := by omega
      have pos : 0 < size := by omega
      have mod := congrArg (· % size) sum
      have div := congrArg (· / size) sum
      simp only [Nat.mul_add_mod, Nat.mod_eq_of_lt r, Nat.mod_eq_of_lt r'] at mod
      simp only [Nat.mul_add_div pos, Nat.div_eq_of_lt r, Nat.div_eq_of_lt r', Nat.add_zero] at div
      exact ⟨rfl, mod, div⟩

lemma getFlag_setFlag {w : Window} {id id' : Nat} {v : Int} (F : IsFlag c size rank idx)
    (F' : IsFlag c' size rank' idx') :
    getFlag (setFlag w c size id v rank idx) c' size id' rank' idx' =
      if id' = id ∧ c' = c ∧ rank' = rank ∧ idx' = idx then v else getFlag w c' size id' rank' idx' := by
  rw [getFlag, setFlag]
  by_cases sameId : id' = id
  · rw [sameId, Function.update_self]
    by_cases sameOffset : flagOffset c' size rank' idx' = flagOffset c size rank idx
    · rw [sameOffset, Function.update_self, if_pos ⟨rfl, F'.offset_inj F sameOffset⟩]
    · rw [Function.update_of_ne sameOffset, if_neg]
      · rfl
      · rintro ⟨-, rfl, rfl, rfl⟩
        exact sameOffset rfl
  · rw [Function.update_of_ne sameId, if_neg fun h => sameId h.1]
    rfl

end Kupl.Fence
