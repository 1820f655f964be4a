import Kupl.Memcpy.Rows

/-!
# Copies of blocks (`kupl_memcpy.cpp`)

| source | here |
|---|---|
| `kupl_memcpy_task_package_t` | `Block` |
| `kupl_memcpy_check` | `Block.check` |
| `kupl_memcpy_pf_task` | `Block.pfTask` |

The cache lines of a block are shared out among the threads; the last line may be a part of one. A thread whose number
is not below the number of threads has nothing to copy.
-/

namespace Kupl.Memcpy
open Bytes Cut

/-- What a copy is given (C++ `kupl_memcpy_task_package_t`). -/
structure Block where
  dst : Nat
  src : Nat
  count : Nat

namespace Block
variable (b : Block)

/-- (C++ `kupl_memcpy_check`). -/
def check : Bool :=
  if b.dst = 0 ∨ b.src = 0 then false
  else if b.count > uint32Max then false
  else true

def cacheNums : Nat := sizeT (b.count + cacheLine - 1) / cacheLine

/-- Where the part of a thread begins. -/
def offset (tid tnum : Nat) : Nat :=
  sizeT ((tid * ↑(b.cacheNums / tnum) + min tid (b.cacheNums % tnum)) * cacheLine)

/-- How many bytes the part has. -/
def len (tid tnum : Nat) : Nat :=
  let len := sizeT ((↑(b.cacheNums / tnum) + if tid < b.cacheNums % tnum then 1 else 0) * cacheLine)
  if b.count > b.offset tid tnum then min len (b.count - b.offset tid tnum) else 0

/-- The copy of a thread (C++ `kupl_memcpy_pf_task`). -/
def pfTask (tid tnum : Nat) : List Copy :=
  [⟨sizeT (b.dst + b.offset tid tnum), sizeT (b.src + b.offset tid tnum), b.len tid tnum⟩]

/-- Two blocks of memory lie in the address space. -/
structure Buffers : Prop where
  src : b.src + b.count ≤ 2 ^ 64
  dst : b.dst + b.count ≤ 2 ^ 64

variable {b} {i tid tnum : Nat}

lemma count_lt (ok : b.check = true) : b.count < 2 ^ 32 := by
  have max : uint32Max = 2 ^ 32 - 1 := rfl
  rw [check] at ok
  split at ok
  · cases ok
  · split at ok
    · cases ok
    · omega

lemma cacheNums_eq (ok : b.check = true) : b.cacheNums = (b.count + 63) / 64 := by
  have lt := count_lt ok
  have line : cacheLine = 64 := rfl
  have sum : ((b.count : Int) + cacheLine - 1) = ((b.count + 63 : Nat) : Int) := by
    rw [line]
    omega
  rw [cacheNums, sum, sizeT_natCast (by omega), line]

lemma offset_eq (ok : b.check = true) (small : tid * (b.cacheNums / tnum) < 2 ^ 40) :
    b.offset tid tnum = share b.cacheNums tnum tid * 64 := by
  have count := count_lt ok
  have lines := cacheNums_eq ok
  have line : cacheLine = 64 := rfl
  have inside := Nat.mod_le b.cacheNums tnum
  have lines' : (tid * ((b.cacheNums / tnum : Nat) : Int) + (min tid (b.cacheNums % tnum) : Nat)) * cacheLine =
      ((share b.cacheNums tnum tid * 64 : Nat) : Int) := by
    rw [share, Nat.min_comm, line]
    rfl
  rw [offset, lines', sizeT_natCast]
  rw [share]
  omega

lemma len_eq (ok : b.check = true) (small : tid * (b.cacheNums / tnum) < 2 ^ 40) :
    b.len tid tnum = if b.count > share b.cacheNums tnum tid * 64 then
      min ((share b.cacheNums tnum (tid + 1) - share b.cacheNums tnum tid) * 64)
        (b.count - share b.cacheNums tnum tid * 64) else 0 := by
  have count := count_lt ok
  have lines := cacheNums_eq ok
  have line : cacheLine = 64 := rfl
  have parts := Nat.div_le_self b.cacheNums tnum
  have size : sizeT ((((b.cacheNums / tnum : Nat) : Int) + if tid < b.cacheNums % tnum then 1 else 0) * cacheLine) =
      (share b.cacheNums tnum (tid + 1) - share b.cacheNums tnum tid) * 64 := by
    have lines' : (((b.cacheNums / tnum : Nat) : Int) + if tid < b.cacheNums % tnum then 1 else 0) * cacheLine =
        (((share b.cacheNums tnum (tid + 1) - share b.cacheNums tnum tid) * 64 : Nat) : Int) := by
      rw [share_succ, Nat.add_sub_cancel_left, line]
      split <;> push_cast <;> rfl
    rw [lines', sizeT_natCast]
    rw [share_succ, Nat.add_sub_cancel_left]
    split <;> omega
  rw [len, size, offset_eq ok small]

def InPart (b : Block) (tid tnum i : Nat) : Prop := b.offset tid tnum ≤ i ∧ i < b.offset tid tnum + b.len tid tnum

lemma inPart_iff (ok : b.check = true) (small : tid * (b.cacheNums / tnum) < 2 ^ 40) : b.InPart tid tnum i ↔
    i < b.count ∧ share b.cacheNums tnum tid ≤ i / 64 ∧ i / 64 < share b.cacheNums tnum (tid + 1) := by
  have next : share b.cacheNums tnum tid ≤ share b.cacheNums tnum (tid + 1) := share_mono (Nat.le_succ tid)
  rw [InPart, offset_eq ok small, len_eq ok small]
  split
  · constructor
    · intro inside
      omega
    · intro inside
      omega
  · constructor
    · intro inside
      omega
    · intro inside
      omega

lemma takes_iff (ok : b.check = true) (B : b.Buffers) (lt : i < b.count) (small : tid * (b.cacheNums / tnum) < 2 ^ 40) :
    (∃ c ∈ b.pfTask tid tnum, c.Takes (b.src + i) (b.dst + i)) ↔
      share b.cacheNums tnum tid ≤ i / 64 ∧ i / 64 < share b.cacheNums tnum (tid + 1) := by
  have part : b.InPart tid tnum i ↔ share b.cacheNums tnum tid ≤ i / 64 ∧
    i / 64 < share b.cacheNums tnum (tid + 1) :=
    (inPart_iff ok small).trans (and_iff_right lt)
  have last := B.dst
  have last' := B.src
  have start (x : Nat) (fits : x + b.count ≤ 2 ^ 64) (before : b.offset tid tnum < b.count) :
      sizeT ((x : Int) + ((b.offset tid tnum : Nat) : Int)) = x + b.offset tid tnum := by
    rw [← Int.natCast_add]
    exact sizeT_natCast (by omega)
  have before : 0 < b.len tid tnum → b.offset tid tnum < b.count := by
    intro some
    have first : b.InPart tid tnum (b.offset tid tnum) := ⟨le_rfl, Nat.lt_add_of_pos_right some⟩
    exact ((inPart_iff ok small).1 first).1
  rw [← part, pfTask]
  constructor
  · rintro ⟨c, mem, ⟨low, high⟩, -⟩
    cases List.mem_singleton.1 mem
    dsimp only at low high
    have some : 0 < b.len tid tnum := by omega
    rw [start _ B.dst (before some)] at low high
    exact ⟨by omega, by omega⟩
  · rintro ⟨low, high⟩
    have some : 0 < b.len tid tnum := by omega
    have before := before some
    refine ⟨_, List.mem_singleton_self _, ?_⟩
    rw [start _ B.dst before, start _ B.src before]
    refine ⟨⟨?_, ?_⟩, ?_⟩
    · dsimp only
      omega
    · dsimp only
      omega
    · dsimp only
      omega

lemma small (ok : b.check = true) (below : tid < tnum) : tid * (b.cacheNums / tnum) < 2 ^ 40 := by
  have count := count_lt ok
  have lines := cacheNums_eq ok
  have most : tid * (b.cacheNums / tnum) ≤ b.cacheNums :=
    (Nat.mul_le_mul_right _ below.le).trans (Nat.mul_div_le b.cacheNums tnum)
  omega

lemma covered (ok : b.check = true) (B : b.Buffers) (pos : 0 < tnum) (lt : i < b.count) :
    ∃ tid < tnum, ∃ c ∈ b.pfTask tid tnum, c.Takes (b.src + i) (b.dst + i) := by
  have lines := cacheNums_eq ok
  obtain ⟨tid, below, here⟩ := exists_share (n := b.cacheNums) (x := i / 64) pos (by omega)
  exact ⟨tid, below, (takes_iff ok B lt (small ok below)).2 here⟩

end Block

/-- The parts of the threads are the block, each byte and each of its cache lines in one part only. -/
theorem parts_partition {b : Block} {tnum : Nat} (ok : b.check = true) (pos : 0 < tnum) :
    (∀ tid < tnum, ∀ i, b.InPart tid tnum i → i < b.count) ∧
    (∀ i < b.count, ∃! tid, tid < tnum ∧ b.InPart tid tnum i) ∧
    ∀ tid < tnum, ∀ tid' < tnum, ∀ i i', b.InPart tid tnum i → b.InPart tid' tnum i' →
      i / cacheLine = i' / cacheLine → tid = tid' := by
  have inPart {tid : Nat} (lt : tid < tnum) (i : Nat) := Block.inPart_iff (i := i) ok (Block.small ok lt)
  have unique (tid) (lt : tid < tnum) (tid') (lt' : tid' < tnum) (i i') (at_i : b.InPart tid tnum i)
      (at_i' : b.InPart tid' tnum i') (same : i / cacheLine = i' / cacheLine) : tid = tid' := by
    have here := ((inPart lt i).1 at_i).2
    have here' := ((inPart lt' i').1 at_i').2
    have same : i / 64 = i' / 64 := same
    rw [same] at here
    exact share_unique here here'
  refine ⟨fun tid lt i at_i => ((inPart lt i).1 at_i).1, fun i lt => ?_, unique⟩
  have lines := Block.cacheNums_eq ok
  obtain ⟨tid, below, here⟩ := exists_share (n := b.cacheNums) (x := i / 64) pos (by omega)
  have at_i := (inPart below i).2 ⟨lt, here⟩
  exact ⟨tid, ⟨below, at_i⟩, fun tid' other => unique tid' other.1 tid below i i other.2 at_i rfl⟩

/-- A hundred bytes are two lines, and of three threads the last has nothing to copy. -/
theorem parts_partition_three : let b : Block := ⟨4096, 8192, 100⟩
    (b.offset 2 3 = 128 ∧ b.len 2 3 = 0) ∧
    (∀ tid < 3, ∀ i, b.InPart tid 3 i → i < b.count) ∧
    (∀ i < b.count, ∃! tid, tid < 3 ∧ b.InPart tid 3 i) ∧
    ∀ tid < 3, ∀ tid' < 3, ∀ i i', b.InPart tid 3 i → b.InPart tid' 3 i' →
      i / cacheLine = i' / cacheLine → tid = tid' :=
  ⟨by decide, parts_partition (by decide) (by decide)⟩

end Kupl.Memcpy
