import Kupl.Bytes.Memory
import Kupl.Cut.Blocks

/-!
# Copies of rows (`kupl_memcpy.cpp`)

| source | here |
|---|---|
| `kupl_memcpy2d_task_package_t` | `Package` |
| `kupl_memcpy2d_check` | `Package.check` |
| `kupl_memcpy2d_pf_task` | `Package.pfTask` |
| `kupl_glibc_memcpy2d` | `Package.glibcMemcpy2d` |

A task is the list of the `memcpy` calls that it makes. What is computed in `size_t` is computed in the integers and
cut to 64 bits where it is kept, divided or compared.
-/

namespace Kupl.Memcpy
open Bytes Cut List

/-- (C++ `KUPL_CACHE_LINE`). -/
def cacheLine : Nat := 64

/-- (C++ `SIZE_MAX`). -/
def sizeMax : Nat := 2 ^ 64 - 1

/-- (C++ `UINT32_MAX`). -/
def uint32Max : Nat := 2 ^ 32 - 1

/-- A value kept in 64 bits (C++ `size_t`). -/
def sizeT (x : Int) : Nat := (x % 2 ^ 64).toNat

/-- What a copy of rows is given (C++ `kupl_memcpy2d_task_package_t`). -/
structure Package where
  dst : Nat
  dpitch : Nat
  src : Nat
  spitch : Nat
  width : Nat
  height : Nat

namespace Package
variable (p : Package)

/-- (C++ `kupl_memcpy2d_check`). -/
def check : Bool :=
  if p.dst = 0 ∨ p.src = 0 ∨ p.spitch < p.width ∨ p.dpitch < p.width ∨
      (p.height ≠ 0 ∧ (sizeMax / p.height < p.spitch ∨ sizeMax / p.height < p.dpitch)) then false
  else if p.spitch - p.width > uint32Max ∨ p.dpitch - p.width > uint32Max ∨ p.width > uint32Max ∨
      p.height > uint32Max then false
  else true

/-- The byte at which the cache line of a byte of the source begins, or the row. -/
def adjust (row col : Nat) : Nat :=
  let addr := sizeT (p.src + row * p.spitch + col) / cacheLine * cacheLine
  if addr < sizeT (p.src + row * p.spitch) then sizeT (row * p.width)
  else sizeT (addr - p.src - row * p.spitch + row * p.width)

/-- The bytes that a thread copies: where they begin. -/
def startByte (tid tnum : Nat) : Nat :=
  let totalBytes := sizeT (p.width * p.height)
  let startByte := sizeT (tid * ↑(totalBytes / tnum) + min tid (totalBytes % tnum))
  p.adjust (startByte / p.width) (startByte % p.width)

/-- The bytes that a thread copies: where they end, which is not moved in the last column. -/
def endByte (tid tnum : Nat) : Nat :=
  let totalBytes := sizeT (p.width * p.height)
  let startByte := sizeT (tid * ↑(totalBytes / tnum) + min tid (totalBytes % tnum))
  let endByte := sizeT (startByte + ↑(totalBytes / tnum) + if tid < totalBytes % tnum then 1 else 0)
  if endByte % p.width ≠ p.width - 1 then p.adjust (endByte / p.width) (endByte % p.width) else endByte

def rows (startByte endByte : Nat) : List Copy :=
  let startRow := startByte / p.width
  let endRow := endByte / p.width
  (List.range' startRow (endRow + 1 - startRow)).filterMap fun row =>
    let colStart := if row = startRow then startByte % p.width else 0
    let colEnd := if row = endRow then endByte % p.width else p.width
    if colEnd > colStart then
      some ⟨sizeT (p.dst + row * p.dpitch + colStart), sizeT (p.src + row * p.spitch + colStart), colEnd - colStart⟩
    else none

/-- The copies of a thread (C++ `kupl_memcpy2d_pf_task`). -/
def pfTask (tid tnum : Nat) : List Copy := p.rows (p.startByte tid tnum) (p.endByte tid tnum)

/-- The copies of one thread alone (C++ `kupl_glibc_memcpy2d`). -/
def glibcMemcpy2d : List Copy :=
  (List.range p.height).map fun i : Nat => ⟨sizeT (p.dst + i * p.dpitch), sizeT (p.src + i * p.spitch), p.width⟩

/-- Two areas of memory: they lie in the address space, and the bytes of one are not those of the other. -/
structure Buffers : Prop where
  src : ∀ row < p.height, p.src + row * p.spitch + p.width ≤ 2 ^ 64
  dst : ∀ row < p.height, p.dst + row * p.dpitch + p.width ≤ 2 ^ 64
  apart : ∀ row < p.height, ∀ col < p.width, ∀ row' < p.height, ∀ col' < p.width,
    p.src + row * p.spitch + col ≠ p.dst + row' * p.dpitch + col'

/-- Two areas that a call accepts and that hold bytes. -/
structure Areas : Prop extends p.Buffers where
  check : p.check = true
  width : 0 < p.width

variable {p} {row col x : Nat}

/-- A byte of a row of the destination. -/
def InDst (x : Nat) : Prop := ∃ row < p.height, ∃ col < p.width, x = p.dst + row * p.dpitch + col

/-- A byte of a row of the source. -/
def InSrc (x : Nat) : Prop := ∃ row < p.height, ∃ col < p.width, x = p.src + row * p.spitch + col

end Package

lemma sizeT_natCast {n : Nat} (lt : n < 2 ^ 64) : sizeT (n : Int) = n := by
  unfold sizeT
  omega

namespace Package.Areas
variable {p : Package} {row col a b x z tid tnum : Nat}

lemma sizes (A : p.Areas) : p.width ≤ p.spitch ∧ p.width ≤ p.dpitch ∧ p.height * p.width < 2 ^ 64 := by
  have ok := A.check
  have areas : ¬ (p.dst = 0 ∨ p.src = 0 ∨ p.spitch < p.width ∨ p.dpitch < p.width ∨
      (p.height ≠ 0 ∧ (sizeMax / p.height < p.spitch ∨ sizeMax / p.height < p.dpitch))) := by
    intro bad
    rw [Package.check, if_pos bad] at ok
    cases ok
  have sizes : ¬ (p.spitch - p.width > uint32Max ∨ p.dpitch - p.width > uint32Max ∨ p.width > uint32Max ∨
      p.height > uint32Max) := by
    intro bad
    rw [Package.check, if_neg areas, if_pos bad] at ok
    cases ok
  have max : uint32Max = 2 ^ 32 - 1 := rfl
  have width : p.width ≤ 2 ^ 32 - 1 := by omega
  have height : p.height ≤ 2 ^ 32 - 1 := by omega
  exact ⟨by omega, by omega, (Nat.mul_le_mul height width).trans_lt (by decide)⟩

lemma row_le (A : p.Areas) (le : row ≤ p.height) : row * p.width < 2 ^ 64 :=
  (Nat.mul_le_mul_right p.width le).trans_lt A.sizes.2.2

lemma byte_lt (lt : row < p.height) (inside : col < p.width) : row * p.width + col < p.height * p.width := by
  have := Nat.mul_le_mul_right p.width (Nat.succ_le_of_lt lt)
  rw [Nat.succ_mul] at this
  omega

lemma adjust_row (A : p.Areas) (lt : row < p.height) (inside : col < p.width) : p.adjust row col =
    row * p.width + ((p.src + row * p.spitch + col) / cacheLine * cacheLine - (p.src + row * p.spitch)) := by
  have fits := A.src row lt
  have total := A.row_le lt.le
  have last := (byte_lt lt inside).trans A.sizes.2.2
  obtain ⟨base, isBase⟩ : ∃ base, base = p.src + row * p.spitch := ⟨_, rfl⟩
  obtain ⟨r, isR⟩ : ∃ r, r = row * p.width := ⟨_, rfl⟩
  have castBase : (base : Int) = p.src + row * p.spitch := by
    rw [isBase]
    rfl
  have castR : (r : Int) = row * p.width := by
    rw [isR]
    rfl
  have addr : sizeT (base + col) = base + col := by
    rw [← Int.natCast_add, sizeT_natCast (by omega)]
  have line : cacheLine = 64 := rfl
  rw [Package.adjust, ← castBase, ← castR, addr, sizeT_natCast (by omega), sizeT_natCast (by omega),
    ← isBase, ← isR,
    line]
  split
  · omega
  · have cut : ((((base + col) / 64 * 64 : Nat) : Int) - p.src - row * p.spitch + r) =
        (((base + col) / 64 * 64 - base + r : Nat) : Int) := by
      omega
    rw [cut, sizeT_natCast (by omega)]
    omega

lemma adjust_end (A : p.Areas) : p.adjust p.height 0 = p.height * p.width := by
  have total := A.sizes.2.2
  obtain ⟨base, isBase⟩ : ∃ base, base = p.src + p.height * p.spitch := ⟨_, rfl⟩
  obtain ⟨r, isR⟩ : ∃ r, r = p.height * p.width := ⟨_, rfl⟩
  have castBase : (base : Int) = p.src + p.height * p.spitch := by
    rw [isBase]
    rfl
  have castR : (r : Int) = p.height * p.width := by
    rw [isR]
    rfl
  have addr : sizeT (base + (0 : Nat)) = base % 2 ^ 64 := by
    unfold sizeT
    omega
  have start : sizeT base = base % 2 ^ 64 := by
    unfold sizeT
    omega
  have line : cacheLine = 64 := rfl
  rw [Package.adjust, ← castBase, ← castR, addr, start, sizeT_natCast (by omega), ← isR, line]
  split
  · rfl
  · unfold sizeT
    omega

/-- The start of the line of a byte, or of its row, in a copy of all rows. -/
def back (p : Package) (x : Nat) : Nat := p.adjust (x / p.width) (x % p.width)

section
variable (A : p.Areas)
include A

lemma back_bounds (le : x ≤ p.height * p.width) : x / p.width * p.width ≤ back p x ∧ back p x ≤ x := by
  have parts := Nat.div_add_mod' x p.width
  have inside := Nat.mod_lt x A.width
  rw [back]
  obtain isEnd | lt := le.eq_or_lt
  · have row : x / p.width = p.height := by
      rw [isEnd, Nat.mul_div_cancel _ A.width]
    have col : x % p.width = 0 := by
      rw [isEnd, Nat.mul_mod_left]
    rw [row, col, A.adjust_end]
    omega
  · have row : x / p.width < p.height := (Nat.div_lt_iff_lt_mul A.width).2 lt
    have line : cacheLine = 64 := rfl
    rw [A.adjust_row row inside, line]
    omega

lemma back_mono (le : x ≤ z) (last : z ≤ p.height * p.width) : back p x ≤ back p z := by
  have boundsX := A.back_bounds (le.trans last)
  have boundsZ := A.back_bounds last
  have rows : x / p.width ≤ z / p.width := Nat.div_le_div_right le
  obtain same | lt := rows.eq_or_lt
  · obtain isEnd | inner := last.eq_or_lt
    · have row : z / p.width * p.width = z := by
        rw [isEnd, Nat.mul_div_cancel _ A.width]
      omega
    · have row : z / p.width < p.height := (Nat.div_lt_iff_lt_mul A.width).2 inner
      have partsX := Nat.div_add_mod' x p.width
      have partsZ := Nat.div_add_mod' z p.width
      have line : cacheLine = 64 := rfl
      rw [same] at partsX
      have cols : x % p.width ≤ z % p.width := by omega
      rw [back, back, same, A.adjust_row row (Nat.mod_lt x A.width), A.adjust_row row (Nat.mod_lt z A.width), line]
      omega
  · have next := Nat.mul_le_mul_right p.width (Nat.succ_le_of_lt lt)
    rw [Nat.succ_mul] at next
    have parts := Nat.div_add_mod' x p.width
    have inside := Nat.mod_lt x A.width
    omega

lemma totalBytes_eq : sizeT (p.width * p.height) = p.height * p.width := by
  rw [← Int.natCast_mul, Nat.mul_comm]
  exact sizeT_natCast A.sizes.2.2

omit A in
lemma share_eq (pos : 0 < tnum) (le : tid ≤ tnum) {n : Nat} (lt : n < 2 ^ 64) :
    sizeT (tid * ((n / tnum : Nat) : Int) + (min tid (n % tnum) : Nat)) = share n tnum tid := by
  have inside := share_le (n := n) le pos
  rw [← Int.natCast_mul, ← Int.natCast_add, Nat.min_comm]
  exact sizeT_natCast (inside.trans_lt lt)

lemma startByte_eq (pos : 0 < tnum) (le : tid ≤ tnum) :
    p.startByte tid tnum = back p (share (p.height * p.width) tnum tid) := by
  rw [Package.startByte, A.totalBytes_eq, share_eq pos le A.sizes.2.2]
  rfl

lemma endByte_bounds (lt : tid < tnum) : back p (share (p.height * p.width) tnum (tid + 1)) ≤ p.endByte tid tnum ∧
      p.endByte tid tnum ≤ share (p.height * p.width) tnum (tid + 1) := by
  have pos : 0 < tnum := by omega
  have inside := share_le (n := p.height * p.width) (Nat.succ_le_of_lt lt) pos
  have bounds := A.back_bounds inside
  have next : sizeT (share (p.height * p.width) tnum tid + ((p.height * p.width / tnum : Nat) : Int) +
      if tid < p.height * p.width % tnum then 1 else 0) = share (p.height * p.width) tnum (tid + 1) := by
    have cast := sizeT_natCast (inside.trans_lt A.sizes.2.2)
    rw [share_succ] at cast ⊢
    rw [← cast]
    congr 1
    split <;> push_cast <;> omega
  rw [Package.endByte, A.totalBytes_eq, share_eq pos lt.le A.sizes.2.2, next]
  split
  · exact ⟨le_rfl, bounds.2⟩
  · exact ⟨bounds.2, le_rfl⟩

lemma covered (pos : 0 < tnum) (lt : x < p.height * p.width) :
    ∃ tid < tnum, p.startByte tid tnum ≤ x ∧ x < p.endByte tid tnum := by
  have first := (A.back_bounds (x := 0) (Nat.zero_le _)).2
  have last := A.back_bounds (x := p.height * p.width) le_rfl
  rw [Nat.mul_div_cancel _ A.width] at last
  obtain ⟨tid, lt_tnum, low, high⟩ := exists_block (a := fun t => back p (share (p.height * p.width) tnum t))
    (n := tnum)
    (x := x) (by rw [share_zero]; omega) (by rw [share_last pos]; omega)
  have bounds := A.endByte_bounds lt_tnum
  refine ⟨tid, lt_tnum, ?_, by omega⟩
  rw [A.startByte_eq pos lt_tnum.le]
  exact low

lemma task_bounds (lt : tid < tnum) :
    p.startByte tid tnum ≤ p.endByte tid tnum ∧ p.endByte tid tnum ≤ p.height * p.width := by
  have pos : 0 < tnum := by omega
  have inside : share (p.height * p.width) tnum (tid + 1) ≤ p.height * p.width := share_le lt pos
  have bounds := A.endByte_bounds lt
  have mono : back p (share (p.height * p.width) tnum tid) ≤ back p (share (p.height * p.width) tnum (tid + 1)) :=
    A.back_mono (share_mono (Nat.le_succ tid)) inside
  rw [A.startByte_eq pos lt.le]
  omega

lemma src_eq (lt : row < p.height) (inside : col < p.width) :
    sizeT (p.src + row * p.spitch + col) = p.src + row * p.spitch + col := by
  have fits := A.src row lt
  rw [← Int.natCast_mul, ← Int.natCast_add, ← Int.natCast_add]
  exact sizeT_natCast (by omega)

lemma dst_eq (lt : row < p.height) (inside : col < p.width) :
    sizeT (p.dst + row * p.dpitch + col) = p.dst + row * p.dpitch + col := by
  have fits := A.dst row lt
  rw [← Int.natCast_mul, ← Int.natCast_add, ← Int.natCast_add]
  exact sizeT_natCast (by omega)

end

def part (p : Package) (row colStart colEnd : Nat) : Copy :=
  ⟨p.dst + row * p.dpitch + colStart, p.src + row * p.spitch + colStart, colEnd - colStart⟩

lemma of_mem_rows (A : p.Areas) (last : b ≤ p.height * p.width) {c : Copy} (mem : c ∈ p.rows a b) :
    ∃ row < p.height, ∃ colStart colEnd, colStart < colEnd ∧ colEnd ≤ p.width ∧
      c = part p row colStart colEnd := by
  rw [Package.rows, mem_filterMap] at mem
  obtain ⟨row, range, made⟩ := mem
  rw [mem_range'_1] at range
  obtain ⟨colStart, isStart⟩ : ∃ u, u = if row = a / p.width then a % p.width else 0 := ⟨_, rfl⟩
  obtain ⟨colEnd, isEnd⟩ : ∃ u, u = if row = b / p.width then b % p.width else p.width := ⟨_, rfl⟩
  rw [← isStart, ← isEnd] at made
  dsimp only at made
  have width := A.width
  have le : colEnd ≤ p.width := by
    rw [isEnd]
    split
    · exact (Nat.mod_lt b width).le
    · exact le_rfl
  split at made
  case isFalse => cases made
  case isTrue some =>
    -- a row that has bytes comes before the last one
    have row_lt : row < p.height := by
      have first : row ≤ b / p.width := by omega
      obtain here | before := first.eq_or_lt
      · rw [if_pos here] at isEnd
        have parts := Nat.div_add_mod' b p.width
        rw [← here] at parts
        have below : row * p.width < p.height * p.width := by omega
        exact Nat.lt_of_mul_lt_mul_right below
      · exact before.trans_le (Nat.div_le_of_le_mul (by rwa [Nat.mul_comm]))
    have inside : colStart < p.width := by omega
    rw [A.src_eq row_lt inside, A.dst_eq row_lt inside] at made
    exact ⟨row, row_lt, colStart, colEnd, some, le, (Option.some.inj made).symm⟩

lemma rows_write (A : p.Areas) (lt : row < p.height) (inside : col < p.width) (low : a ≤ row * p.width + col)
    (high : row * p.width + col < b) : ∃ c ∈ p.rows a b, c.Writes (p.dst + row * p.dpitch + col) := by
  have width := A.width
  have partsA := Nat.div_add_mod' a p.width
  have partsB := Nat.div_add_mod' b p.width
  have modA := Nat.mod_lt a width
  have modB := Nat.mod_lt b width
  have div : (row * p.width + col) / p.width = row := by
    rw [Nat.mul_comm, Nat.mul_add_div width, Nat.div_eq_of_lt inside, Nat.add_zero]
  have first : a / p.width ≤ row := by
    rw [← div]
    exact Nat.div_le_div_right low
  have last : row ≤ b / p.width := by
    rw [← div]
    exact Nat.div_le_div_right high.le
  obtain ⟨colStart, isStart⟩ : ∃ u, u = if row = a / p.width then a % p.width else 0 := ⟨_, rfl⟩
  obtain ⟨colEnd, isEnd⟩ : ∃ u, u = if row = b / p.width then b % p.width else p.width := ⟨_, rfl⟩
  have le : colStart ≤ col := by
    rw [isStart]
    split
    case isTrue here =>
      rw [here] at low
      omega
    case isFalse => exact Nat.zero_le _
  have col_lt : col < colEnd := by
    rw [isEnd]
    split
    case isTrue here =>
      rw [here] at high
      omega
    case isFalse => exact inside
  refine ⟨part p row colStart colEnd, ?_, ?_⟩
  · rw [Package.rows, mem_filterMap]
    refine ⟨row, mem_range'_1.2 (by omega), ?_⟩
    rw [← isStart, ← isEnd, if_pos (by omega), A.src_eq lt (by omega), A.dst_eq lt (by omega)]
    rfl
  · show p.dst + row * p.dpitch + colStart ≤ _ ∧ _ < p.dst + row * p.dpitch + colStart + (colEnd - colStart)
    omega

/-- Where a byte of the destination comes from. -/
def origin (p : Package) (x : Nat) : Nat := p.src + (x - p.dst) / p.dpitch * p.spitch + (x - p.dst) % p.dpitch

lemma origin_eq (A : p.Areas) (inside : col < p.width) :
    origin p (p.dst + row * p.dpitch + col) = p.src + row * p.spitch + col := by
  have pitch := A.sizes.2.1
  have diff : p.dst + row * p.dpitch + col - p.dst = p.dpitch * row + col := by
    rw [Nat.mul_comm]
    omega
  have lt : col < p.dpitch := by omega
  rw [origin, diff, Nat.mul_add_div (by omega), Nat.div_eq_of_lt lt, Nat.mul_add_mod, Nat.mod_eq_of_lt lt, Nat.add_zero]

lemma follow (A : p.Areas) {cs : List Copy} (parts : ∀ c ∈ cs, ∃ row < p.height, ∃ colStart colEnd,
    colStart < colEnd ∧ colEnd ≤ p.width ∧ c = part p row colStart colEnd) :
    Copy.Follow cs (origin p) ∧ ∀ c ∈ cs, ∀ x, (c.Writes x → p.InDst x) ∧ (c.Reads x → p.InSrc x) := by
  have stays : ∀ c ∈ cs, ∀ x, (c.Writes x → p.InDst x) ∧ (c.Reads x → p.InSrc x) := by
    intro c mem x
    obtain ⟨row, lt, colStart, colEnd, some, le, rfl⟩ := parts c mem
    refine ⟨fun ⟨low, high⟩ => ?_, fun ⟨low, high⟩ => ?_⟩
    · dsimp only [part] at low high
      exact ⟨row, lt, x - (p.dst + row * p.dpitch), by omega, by omega⟩
    · dsimp only [part] at low high
      exact ⟨row, lt, x - (p.src + row * p.spitch), by omega, by omega⟩
  refine ⟨⟨fun c mem x w => ?_, fun c mem c' mem' x r w => ?_⟩, stays⟩
  · obtain ⟨row, lt, colStart, colEnd, some, le, rfl⟩ := parts c mem
    obtain ⟨low, high⟩ := w
    dsimp only [part] at low high ⊢
    have place : origin p (p.dst + row * p.dpitch + (x - (p.dst + row * p.dpitch))) =
        p.src + row * p.spitch + (x - (p.dst + row * p.dpitch)) := A.origin_eq (by omega)
    have same : p.dst + row * p.dpitch + (x - (p.dst + row * p.dpitch)) = x := by omega
    rw [same] at place
    omega
  · obtain ⟨row, lt, col, inside, isX⟩ := (stays c mem x).2 r
    obtain ⟨row', lt', col', inside', isX'⟩ := (stays c' mem' x).1 w
    exact A.apart row lt col inside row' lt' col' inside' (isX.symm.trans isX')

lemma glibc_parts (A : p.Areas) {c : Copy} (mem : c ∈ p.glibcMemcpy2d) : ∃ row < p.height, ∃ colStart colEnd,
    colStart < colEnd ∧ colEnd ≤ p.width ∧ c = part p row colStart colEnd := by
  obtain ⟨row, range, rfl⟩ := mem_map.1 mem
  have lt := mem_range.1 range
  have src := A.src_eq lt A.width
  have dst := A.dst_eq lt A.width
  rw [Int.natCast_zero, Int.add_zero] at src dst
  refine ⟨row, lt, 0, p.width, A.width, le_rfl, ?_⟩
  rw [src, dst]
  rfl

lemma glibc_write (A : p.Areas) (lt : row < p.height) (inside : col < p.width) :
    ∃ c ∈ p.glibcMemcpy2d, c.Writes (p.dst + row * p.dpitch + col) := by
  have dst := A.dst_eq lt A.width
  rw [Int.natCast_zero, Int.add_zero] at dst
  refine ⟨_, mem_map_of_mem (mem_range.2 lt), ?_⟩
  rw [dst]
  exact ⟨Nat.le_add_right _ _, Nat.add_lt_add_left inside _⟩

end Package.Areas

namespace Package
variable (p : Package)

/-- The copies of all threads. -/
def pfTasks (tnum : Nat) : List Copy := (List.range tnum).flatMap fun tid => p.pfTask tid tnum

variable {p}

/-- Threads that copy their parts, in any order, leave the memory as one thread alone does: every byte of the
destination is that of the source, and nothing outside of the two areas is written or read. -/
theorem pfTasks_eq_glibc (A : p.Areas) {tnum : Nat} (pos : 0 < tnum) {cs : List Copy} (any : cs.Perm (p.pfTasks tnum))
    (m : Memory) : Copy.exec m cs = Copy.exec m p.glibcMemcpy2d ∧ (∀ row < p.height, ∀ col < p.width,
        Copy.exec m cs (p.dst + row * p.dpitch + col) = m (p.src + row * p.spitch + col)) ∧
      (∀ x, ¬ p.InDst x → Copy.exec m cs x = m x) ∧
      ∀ c ∈ cs, ∀ x, (c.Writes x → p.InDst x) ∧ (c.Reads x → p.InSrc x) := by
  have parts : ∀ c ∈ cs, ∃ row < p.height, ∃ colStart colEnd,
      colStart < colEnd ∧ colEnd ≤ p.width ∧ c = Areas.part p row colStart colEnd := by
    intro c mem
    obtain ⟨tid, range, task⟩ := mem_flatMap.1 (any.mem_iff.1 mem)
    exact A.of_mem_rows (A.task_bounds (mem_range.1 range)).2 task
  obtain ⟨F, stays⟩ := A.follow parts
  obtain ⟨F', stays'⟩ := A.follow fun c mem => A.glibc_parts mem
  have writes (row) (lt : row < p.height) (col) (inside : col < p.width) :
      ∃ c ∈ cs, c.Writes (p.dst + row * p.dpitch + col) := by
    obtain ⟨tid, below, low, high⟩ := A.covered pos (Areas.byte_lt lt inside)
    obtain ⟨c, mem, w⟩ := A.rows_write lt inside low high
    exact ⟨c, any.mem_iff.2 (mem_flatMap.2 ⟨tid, mem_range.2 below, mem⟩), w⟩
  refine ⟨Copy.exec_congr F F' fun x => ⟨fun ⟨c, mem, w⟩ => ?_, fun ⟨c, mem, w⟩ => ?_⟩,
    fun row lt col inside => ?_, fun x out => ?_, stays⟩
  · obtain ⟨row, lt, col, inside, rfl⟩ := (stays c mem x).1 w
    exact A.glibc_write lt inside
  · obtain ⟨row, lt, col, inside, rfl⟩ := (stays' c mem x).1 w
    exact writes row lt col inside
  · rw [(Copy.exec_apply F).1 (writes row lt col inside), A.origin_eq inside]
  · exact (Copy.exec_apply F).2 fun c mem w => out ((stays c mem x).1 w)

/-- Two rows of 100 bytes, the source in the middle of a line, for three threads. -/
theorem pfTasks_eq_glibc_rows : Copy.exec (BitVec.ofNat 8) (pfTasks ⟨4096, 128, 70, 110, 100, 2⟩ 3) =
      Copy.exec (BitVec.ofNat 8) (glibcMemcpy2d ⟨4096, 128, 70, 110, 100, 2⟩) := by
  have A : Areas ⟨4096, 128, 70, 110, 100, 2⟩ :=
    ⟨⟨fun row lt => by dsimp only at *; omega, fun row lt => by dsimp only at *; omega,
      fun row lt col inside row' lt' col' inside' => by dsimp only at *; omega⟩, by decide, by decide⟩
  exact (pfTasks_eq_glibc A (show 0 < 3 by decide) (List.Perm.refl _) (BitVec.ofNat 8)).1

end Package
end Kupl.Memcpy
