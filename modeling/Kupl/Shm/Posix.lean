import Kupl.Word.Checked
import Mathlib.Algebra.Order.BigOperators.Group.Finset

/-!
# Windows in shared files (`kupl_shm_posix.cpp`)

| source | here |
|---|---|
| `kupl_shm_win_alloc_inner` | `totalSize`, `offsetList` |
| `kupl_shm_get_aligned_size` | `alignedSize` |
| `kupl_shm_posix_alloc`, and the branch beside it | `posixAlloc`, `winAllocFile` |
| `kupl_shm_posix_oob_allgather` | `filenameArray` |
| `kupl_shm_posix_attach` | `attachOne`, `posixAttach` |
| `kupl_shm_posix_win_query` | `winQuery` |

A mapping is a piece of a file that begins with its first byte, and a pointer is a mapping with an offset, a
`size_t`. The base pointer of a rank is what it gets when it asks for its own rank. All ranks make their files, in some
order, before the first allgather of file names returns anywhere, and look the names up after that. `name` are the names
that `snprintf` gives, and `junk` is what `kupl_malloc_inner` leaves in `info`. Only calls in which no call to the
system fails are followed to their end.
-/

namespace Kupl.Shm.Posix
open List Option
open Function (update update_of_ne update_self)

variable {Name : Type} [DecidableEq Name]

/-- The files in `/dev/shm`, and how long they are. -/
abbrev Files (Name : Type) := Name → Option (BitVec 64)

/-- A new file (C++ `shm_open` with `O_CREAT | O_EXCL`, `ftruncate`). -/
def Files.create (files : Files Name) (name : Name) (size : BitVec 64) : Option (Files Name) :=
  if files name = none then some (update files name (some size)) else none

structure Mapping (Name : Type) where
  file : Name
  length : BitVec 64

/-- What a rank knows of the memory of a rank (C++ `kupl_shm_info_posix_args`). -/
structure Info (Name : Type) where
  attachAddress : Option (Mapping Name)
  mmapSize : BitVec 64
  offset : BitVec 64
  mmapFilename : Name

/-- Into a mapping. -/
structure Ptr (Name : Type) where
  mapping : Mapping Name
  offset : BitVec 64

/-- The size of a page (C++ `PAGE_SIZE`). -/
structure Page where
  size : BitVec 64
  pos : 0 < size.toNat

/-- (C++ `INT_MAX`). -/
def intMax : Nat := 2 ^ 31 - 1

/-- The sizes of the ranks, added up as `size_t`. -/
def sumTo (sizes : Nat → BitVec 64) : Nat → BitVec 64
  | 0 => 0
  | i + 1 => sumTo sizes i + sizes i

/-- The size of the memory (C++ `size` in `kupl_shm_win_alloc_inner`). -/
def totalSize (contig : Bool) (n : Nat) (sizes : Nat → BitVec 64) (myid : Nat) : BitVec 64 :=
  if contig then sumTo sizes n else sizes myid

/-- Where the memory of each rank begins (C++ `offset_list`). -/
def offsetList (contig : Bool) (sizes : Nat → BitVec 64) (i : Nat) : BitVec 64 :=
  if contig then sumTo sizes i else 0

/-- (C++ `kupl_shm_get_aligned_size`). -/
def alignedSize (page : Page) (size : BitVec 64) : BitVec 64 :=
  if size ≤ BitVec.allOnes 64 - page.size then Word.alignUp size page.size else size

/-- A rank makes its file and maps it (C++ `kupl_shm_posix_alloc`). -/
def posixAlloc (files : Files Name) (info : Nat → Info Name) (myid : Nat) (size : BitVec 64) (name : Name) :
    Option (Files Name × (Nat → Info Name)) :=
  (files.create name size).map fun files =>
    (files, update info myid ⟨some ⟨name, size⟩, size, 0, name⟩)

def Owns (contig : Bool) (myid : Nat) (size : BitVec 64) : Prop := (contig = false ∨ myid = 0) ∧ size ≠ 0

instance {contig : Bool} {myid : Nat} {size : BitVec 64} : Decidable (Owns contig myid size) :=
  inferInstanceAs (Decidable (_ ∧ _))

/-- The part of `kupl_shm_posix_win_alloc` before the allgather. -/
def winAllocFile (contig : Bool) (files : Files Name) (info : Nat → Info Name) (myid : Nat) (size : BitVec 64)
    (name : Name) : Option (Files Name × (Nat → Info Name)) :=
  if Owns contig myid size then posixAlloc files info myid size name
  else some (files, update info myid { info myid with mmapSize := size, offset := 0 })

/-- The names that every rank gets (C++ `mmap_filename_array`). -/
def filenameArray (contig : Bool) (infos : Nat → Nat → Info Name) (i : Nat) : Name :=
  if contig then (infos 0 0).mmapFilename else (infos i i).mmapFilename

/-- A rank does not map the memory of a rank. -/
def Skips (contig : Bool) (myid i : Nat) (segSize : BitVec 64) : Prop :=
  (contig = false ∧ i = myid) ∨ (contig = true ∧ myid = 0 ∧ i = myid) ∨ segSize = 0

instance {contig : Bool} {myid i : Nat} {segSize : BitVec 64} : Decidable (Skips contig myid i segSize) :=
  inferInstanceAs (Decidable (_ ∨ _ ∨ _))

section Attach
variable (contig : Bool) (files : Files Name) (names : Nat → Name) (segSize offsets : Nat → BitVec 64) (myid : Nat)

/-- A rank maps the memory of a rank. -/
def attachOne (info : Nat → Info Name) (i : Nat) : Option (Nat → Info Name) :=
  if Skips contig myid i (segSize i) then some (update info i { info i with mmapSize := segSize i })
  else
    (files (names i)).map fun _ =>
      update info i ⟨some ⟨names i, segSize i⟩, segSize i, offsets i, names i⟩

/-- (C++ `kupl_shm_posix_attach`). -/
def posixAttach (n : Nat) (info : Nat → Info Name) : Option (Nat → Info Name) :=
  (List.range n).foldlM (attachOne contig files names segSize offsets myid) info

end Attach

/-- What a rank has of a window (C++ `kupl_shm_posix_win_query`). -/
def winQuery (info : Nat → Info Name) (remoteRank : Nat) : Option (Ptr Name) :=
  (info remoteRank).attachAddress.map fun mapping => ⟨mapping, (info remoteRank).offset⟩

/-- The ranks of a communicator, and what their calls find. -/
structure Calls (Name : Type) where
  contig : Bool
  n : Nat
  sizes : Nat → BitVec 64
  page : Page
  files : Files Name
  name : Nat → Name
  junk : Nat → Nat → Info Name

namespace Calls
variable (c : Calls Name)

def size (r : Nat) : BitVec 64 := alignedSize c.page (totalSize c.contig c.n c.sizes r)

/-- The sizes are accepted (C++ `kupl_shm_win_alloc_inner`). -/
def Accepted : Prop := ∀ r < c.n, (totalSize c.contig c.n c.sizes r).toNat ≤ intMax

instance : Decidable c.Accepted := inferInstanceAs (Decidable (∀ r < c.n, _))

def fileStep (s : Files Name × (Nat → Nat → Info Name)) (r : Nat) :
    Option (Files Name × (Nat → Nat → Info Name)) :=
  (winAllocFile c.contig s.1 (s.2 r) r (c.size r) (c.name r)).map fun out => (out.1, update s.2 r out.2)

def allFiles (order : List Nat) : Option (Files Name × (Nat → Nat → Info Name)) :=
  order.foldlM c.fileStep (c.files, c.junk)

/-- A rank maps what it has not made. -/
def attach (s : Files Name × (Nat → Nat → Info Name)) (r : Nat) : Option (Nat → Info Name) :=
  posixAttach c.contig s.1 (filenameArray c.contig s.2) (fun i => (s.2 i i).mmapSize) (offsetList c.contig c.sizes) r
    c.n (s.2 r)

/-- All ranks return `KUPL_OK`, with these files and windows (C++ `kupl_shm_win_alloc_inner`). -/
structure Returns (order : List Nat) (files : Files Name) (windows : Nat → Nat → Info Name) : Prop where
  accepted : c.Accepted
  perm : order.Perm (List.range c.n)
  attached : ∃ s, c.allFiles order = some s ∧ s.1 = files ∧ ∀ r < c.n, c.attach s r = some (windows r)

/-- Every rank with a size has bytes of its own in a file, and all ranks have the same bytes for it. -/
structure Right (files : Files Name) (windows : Nat → Nat → Info Name) : Prop where
  same : ∀ r < c.n, c.sizes r ≠ 0 → ∃ p, winQuery (windows r) r = some p ∧ ∀ q < c.n,
    ∃ p', winQuery (windows q) r = some p' ∧ p'.mapping.file = p.mapping.file ∧ p'.offset = p.offset ∧
      p'.offset.toNat + (c.sizes r).toNat ≤ p'.mapping.length.toNat ∧
      ∃ len, files p'.mapping.file = some len ∧ p'.mapping.length.toNat ≤ len.toNat
  apart : ∀ r < c.n, ∀ r' < c.n, r ≠ r' → c.sizes r ≠ 0 → c.sizes r' ≠ 0 → ∀ p p',
    winQuery (windows r) r = some p → winQuery (windows r') r' = some p' → p.mapping.file = p'.mapping.file →
    p.offset.toNat + (c.sizes r).toNat ≤ p'.offset.toNat ∨ p'.offset.toNat + (c.sizes r').toNat ≤ p.offset.toNat
  inRow : c.contig = true → ∀ r < c.n, c.sizes r ≠ 0 → ∀ p, winQuery (windows r) r = some p →
    p.offset.toNat = ∑ i ∈ Finset.range r, (c.sizes i).toNat ∧
      ∀ r' < c.n, c.sizes r' ≠ 0 → ∀ p', winQuery (windows r') r' = some p' → p'.mapping.file = p.mapping.file

end Calls

variable {c : Calls Name} {s s' : Files Name × (Nat → Nat → Info Name)} {sizes : Nat → BitVec 64} {r : Nat}

/-! ### Sizes -/

lemma le_alignedSize (page : Page) (size : BitVec 64) : size.toNat ≤ (alignedSize page size).toNat := by
  unfold alignedSize
  have pos := page.pos
  split
  · rename_i room
    have small := page.size.isLt
    have le : page.size ≤ BitVec.allOnes 64 := by
      rw [BitVec.le_def, BitVec.toNat_allOnes]
      omega
    have room := BitVec.le_def.1 room
    rw [BitVec.toNat_sub_of_le le, BitVec.toNat_allOnes] at room
    apply Word.le_alignUp pos
    omega
  · exact le_rfl

lemma toNat_sumTo {k : Nat} (fits : ∑ i ∈ Finset.range k, (sizes i).toNat < 2 ^ 64) :
    (sumTo sizes k).toNat = ∑ i ∈ Finset.range k, (sizes i).toNat := by
  induction k with
  | zero => rfl
  | succ k ih =>
    rw [Finset.sum_range_succ] at fits ⊢
    rw [sumTo, BitVec.toNat_add, ih (by omega), Nat.mod_eq_of_lt fits]

/-! ### Loops that write one place after the other -/

section Loops
variable {α : Type} {u : Nat → α → Option α} {f : (Nat → α) → Nat → Option (Nat → α)}
  {g t : Nat → α} {l : List Nat}

lemma foldlM_update (turn : ∀ g i, f g i = (u i (g i)).map (update g i)) (nodup : l.Nodup)
    (h : l.foldlM f g = some t) : (∀ i ∈ l, u i (g i) = some (t i)) ∧ ∀ i ∉ l, t i = g i := by
  induction l generalizing g with
  | nil =>
    cases h
    exact ⟨nofun, fun _ _ => rfl⟩
  | cons a l ih =>
    obtain ⟨out, nodup⟩ := nodup_cons.1 nodup
    rw [foldlM_cons] at h
    obtain ⟨g', first, rest⟩ := bind_eq_some_iff.1 h
    rw [turn] at first
    obtain ⟨x, isX, rfl⟩ := map_eq_some_iff.1 first
    obtain ⟨written, kept⟩ := ih nodup rest
    constructor
    · intro i hi
      obtain rfl | hi := mem_cons.1 hi
      · rw [kept i out, update_self]
        exact isX
      · have ne : i ≠ a := fun e => out (e ▸ hi)
        have := written i hi
        rwa [update_of_ne ne] at this
    · intro i hi
      obtain ⟨ne, hi⟩ := not_or.1 (mt mem_cons.2 hi)
      rw [kept i hi, update_of_ne ne]

end Loops

/-! ### The files -/

namespace Calls

structure Made (c : Calls Name) (done : Set Nat) (s : Files Name × (Nat → Nat → Info Name)) : Prop where
  owner : ∀ r ∈ done, Owns c.contig r (c.size r) →
    s.2 r r = ⟨some ⟨c.name r, c.size r⟩, c.size r, 0, c.name r⟩ ∧ s.1 (c.name r) = some (c.size r)
  other : ∀ r ∈ done, (s.2 r r).mmapSize = c.size r
  names : ∀ r ∈ done, ∀ r' ∈ done, Owns c.contig r (c.size r) → Owns c.contig r' (c.size r') → r ≠ r' →
    c.name r ≠ c.name r'

lemma Made.step {done : Set Nat} (M : c.Made done s) (new : r ∉ done) (h : c.fileStep s r = some s') :
    c.Made (insert r done) s' := by
  obtain ⟨out, made, rfl⟩ := map_eq_some_iff.1 h
  have ne {x : Nat} (hx : x ∈ done) : x ≠ r := fun e => new (e ▸ hx)
  have old {x : Nat} (hx : x ∈ done) : update s.2 r out.2 x = s.2 x := update_of_ne (ne hx) ..
  have self : update s.2 r out.2 r = out.2 := update_self ..
  unfold winAllocFile at made
  by_cases owns : Owns c.contig r (c.size r)
  · rw [if_pos owns] at made
    obtain ⟨files, created, rfl⟩ := map_eq_some_iff.1 made
    unfold Files.create at created
    split at created
    · rename_i free
      cases created
      have fresh {x : Nat} (hx : x ∈ done) (ownsX : Owns c.contig x (c.size x)) : c.name x ≠ c.name r := by
        intro same
        have := (M.owner x hx ownsX).2
        rw [same, free] at this
        cases this
      refine ⟨fun x hx ownsX => ?_, fun x hx => ?_, fun x hx x' hx' ownsX ownsX' other => ?_⟩
      · obtain rfl | hx := hx
        · exact ⟨(congrFun self x).trans (update_self ..), update_self ..⟩
        · obtain ⟨info, file⟩ := M.owner x hx ownsX
          dsimp only
          rw [old hx]
          exact ⟨info, (update_of_ne (fresh hx ownsX) ..).trans file⟩
      · obtain rfl | hx := hx
        · have info := (congrFun self x).trans (update_self ..)
          exact congrArg Info.mmapSize info
        · dsimp only
          rw [old hx]
          exact M.other x hx
      · obtain rfl | hx := hx
        · obtain rfl | hx' := hx'
          · exact absurd rfl other
          · exact (fresh hx' ownsX').symm
        · obtain rfl | hx' := hx'
          · exact fresh hx ownsX
          · exact M.names x hx x' hx' ownsX ownsX' other
    · cases created
  · rw [if_neg owns] at made
    cases made
    refine ⟨fun x hx ownsX => ?_, fun x hx => ?_, fun x hx x' hx' ownsX ownsX' other => ?_⟩
    · obtain rfl | hx := hx
      · exact absurd ownsX owns
      · dsimp only
        rw [old hx]
        exact M.owner x hx ownsX
    · obtain rfl | hx := hx
      · have info := (congrFun self x).trans (update_self ..)
        exact congrArg Info.mmapSize info
      · dsimp only
        rw [old hx]
        exact M.other x hx
    · obtain rfl | hx := hx
      · exact absurd ownsX owns
      · obtain rfl | hx' := hx'
        · exact absurd ownsX' owns
        · exact M.names x hx x' hx' ownsX ownsX' other

lemma Made.steps {done : Set Nat} {order : List Nat} (M : c.Made done s) (nodup : order.Nodup)
    (new : ∀ r ∈ order, r ∉ done) (h : order.foldlM c.fileStep s = some s') :
      c.Made (done ∪ {r | r ∈ order}) s' := by
  induction order generalizing s done with
  | nil =>
    cases h
    have same : done ∪ {r | r ∈ ([] : List Nat)} = done := by simp
    rw [same]
    exact M
  | cons r order ih =>
    obtain ⟨out, nodup⟩ := nodup_cons.1 nodup
    rw [foldlM_cons] at h
    obtain ⟨t, first, rest⟩ := bind_eq_some_iff.1 h
    have N := M.step (new r mem_cons_self) first
    have new' : ∀ x ∈ order, x ∉ insert r done := by
      rintro x hx (rfl | old)
      · exact out hx
      · exact new x (mem_cons_of_mem r hx) old
    have all := ih N nodup new' rest
    have same : done ∪ {x | x ∈ r :: order} = insert r done ∪ {x | x ∈ order} := by
      ext x
      simp only [Set.mem_union, Set.mem_ofPred_eq, mem_cons, Set.mem_insert_iff]
      tauto
    rw [same]
    exact all

variable {order : List Nat} {files : Files Name} {windows : Nat → Nat → Info Name} {t : Nat → Info Name} {q : Nat}

/-! ### What the ranks map -/

def fileOf (c : Calls Name) (r : Nat) : Name := if c.contig then c.name 0 else c.name r

/-- One turn of the loop of `posixAttach`. -/
def attachInfo (c : Calls Name) (s : Files Name × (Nat → Nat → Info Name)) (q i : Nat) (x : Info Name) :
    Option (Info Name) :=
  if Skips c.contig q i (s.2 i i).mmapSize then some { x with mmapSize := (s.2 i i).mmapSize }
  else
    (s.1 (filenameArray c.contig s.2 i)).map fun _ =>
      ⟨some ⟨filenameArray c.contig s.2 i, (s.2 i i).mmapSize⟩, (s.2 i i).mmapSize, offsetList c.contig c.sizes i,
        filenameArray c.contig s.2 i⟩

omit [DecidableEq Name] in
lemma attach_spec (h : c.attach s q = some t) {i : Nat} (hi : i < c.n) : c.attachInfo s q i (s.2 q i) = some (t i) := by
  refine (foldlM_update (u := c.attachInfo s q) (fun g i => ?_) nodup_range h).1 i (mem_range.2 hi)
  unfold attachOne attachInfo
  split
  · rfl
  · rw [Option.map_map]
    rfl

omit [DecidableEq Name] in
lemma size_contig (contig : c.contig = true) (r : Nat) : c.size r = alignedSize c.page (sumTo c.sizes c.n) := by
  rw [size, totalSize, if_pos contig]

section Made
variable (M : c.Made {r | r < c.n} s)
include M

omit [DecidableEq Name] in
lemma Made.named (hr : r < c.n) (some : c.size r ≠ 0) :
    filenameArray c.contig s.2 r = c.fileOf r ∧ s.1 (c.fileOf r) = .some (c.size r) := by
  cases contig : c.contig with
  | true =>
    have same : c.size r = c.size 0 := (size_contig contig r).trans (size_contig contig 0).symm
    have owns : Owns c.contig 0 (c.size 0) := ⟨.inr rfl, same ▸ some⟩
    obtain ⟨info, file⟩ := M.owner 0 (Nat.zero_lt_of_lt hr) owns
    rw [filenameArray, fileOf, contig, if_pos rfl, if_pos rfl, info, same]
    exact ⟨rfl, file⟩
  | false =>
    obtain ⟨info, file⟩ := M.owner r hr ⟨.inl contig, some⟩
    rw [filenameArray, fileOf, contig, if_neg nofun, if_neg nofun, info]
    exact ⟨rfl, file⟩

omit [DecidableEq Name] in
lemma Made.query (hr : r < c.n) (some : c.size r ≠ 0) (h : c.attach s q = .some t) :
    winQuery t r = .some ⟨⟨c.fileOf r, c.size r⟩, offsetList c.contig c.sizes r⟩ := by
  obtain ⟨named, -⟩ := M.named hr some
  have turn := attach_spec h hr
  unfold attachInfo at turn
  rw [M.other r hr] at turn
  by_cases skips : Skips c.contig q r (c.size r)
  · -- the rank is asked for its own file
    rw [if_pos skips] at turn
    have own : q = r ∧ Owns c.contig r (c.size r) ∧ offsetList c.contig c.sizes r = 0 ∧
      c.fileOf r = c.name r := by
      obtain ⟨contig, same⟩ | ⟨contig, root, same⟩ | none := skips
      · refine ⟨same.symm, ⟨.inl contig, some⟩, ?_, ?_⟩
        · rw [offsetList, contig, if_neg nofun]
        · rw [fileOf, contig, if_neg nofun]
      · subst root
        subst same
        refine ⟨rfl, ⟨.inr rfl, some⟩, ?_, ?_⟩
        · rw [offsetList, contig, if_pos rfl]
          rfl
        · rw [fileOf, contig, if_pos rfl]
      · exact absurd none some
    obtain ⟨rfl, owns, zero, isFile⟩ := own
    rw [(M.owner q hr owns).1] at turn
    rw [winQuery, ← Option.some.inj turn, zero, isFile]
    rfl
  · rw [if_neg skips, named] at turn
    obtain ⟨len, -, turn⟩ := map_eq_some_iff.1 turn
    rw [winQuery, ← turn]
    rfl

end Made

lemma Returns.made (R : c.Returns order files windows) :
    ∃ s, c.Made {r | r < c.n} s ∧ s.1 = files ∧ ∀ r < c.n, c.attach s r = some (windows r) := by
  obtain ⟨s, made, isFiles, attached⟩ := R.attached
  have nothing : c.Made ∅ (c.files, c.junk) := ⟨nofun, nofun, nofun⟩
  have nodup : order.Nodup := R.perm.nodup_iff.2 nodup_range
  have M := nothing.steps nodup (fun _ _ => id) made
  have all : (∅ ∪ {r | r ∈ order} : Set Nat) = {r | r < c.n} := by
    ext x
    rw [Set.empty_union]
    exact R.perm.mem_iff.trans mem_range
  exact ⟨s, all ▸ M, isFiles, attached⟩

lemma Returns.query (R : c.Returns order files windows) (hr : r < c.n) (some : c.size r ≠ 0) :
    files (c.fileOf r) = .some (c.size r) ∧
    ∀ q < c.n, winQuery (windows q) r = .some ⟨⟨c.fileOf r, c.size r⟩, offsetList c.contig c.sizes r⟩ := by
  obtain ⟨s, M, rfl, attached⟩ := R.made
  exact ⟨(M.named hr some).2, fun q hq => M.query hr some (attached q hq)⟩

lemma Returns.names (R : c.Returns order files windows) (contig : c.contig = false) {r' : Nat} (hr : r < c.n)
    (hr' : r' < c.n) (some : c.size r ≠ 0) (some' : c.size r' ≠ 0) (ne : r ≠ r') : c.name r ≠ c.name r' := by
  obtain ⟨s, M, -, -⟩ := R.made
  exact M.names r hr r' hr' ⟨.inl contig, some⟩ ⟨.inl contig, some'⟩ ne

/-! ### When the windows are right -/

omit [DecidableEq Name] in
lemma inside (fits : c.contig = true → ∑ i ∈ Finset.range c.n, (c.sizes i).toNat < 2 ^ 64) (hr : r < c.n) :
    (offsetList c.contig c.sizes r).toNat + (c.sizes r).toNat ≤ (c.size r).toNat := by
  cases contig : c.contig with
  | true =>
    have fits := fits contig
    have upTo : ∑ i ∈ Finset.range (r + 1), (c.sizes i).toNat ≤ ∑ i ∈ Finset.range c.n, (c.sizes i).toNat :=
      Finset.sum_le_sum_of_subset (Finset.range_mono hr)
    rw [Finset.sum_range_succ] at upTo
    calc (offsetList true c.sizes r).toNat + (c.sizes r).toNat
        = ∑ i ∈ Finset.range r, (c.sizes i).toNat + (c.sizes r).toNat := by
          rw [offsetList, if_pos rfl, toNat_sumTo (by omega)]
      _ ≤ ∑ i ∈ Finset.range c.n, (c.sizes i).toNat := upTo
      _ = (sumTo c.sizes c.n).toNat := (toNat_sumTo fits).symm
      _ ≤ (c.size r).toNat := by
          rw [size_contig contig]
          exact le_alignedSize _ _
  | false =>
    have own : c.size r = alignedSize c.page (c.sizes r) := by
      rw [size, totalSize, contig, if_neg nofun]
    rw [offsetList, if_neg nofun, own]
    exact (Nat.zero_add _).trans_le (le_alignedSize _ _)

omit [DecidableEq Name] in
lemma offset_eq (fits : c.contig = true → ∑ i ∈ Finset.range c.n, (c.sizes i).toNat < 2 ^ 64)
    (contig : c.contig = true)
    (hr : r < c.n) : (offsetList c.contig c.sizes r).toNat = ∑ i ∈ Finset.range r, (c.sizes i).toNat := by
  have upTo : ∑ i ∈ Finset.range r, (c.sizes i).toNat ≤ ∑ i ∈ Finset.range c.n, (c.sizes i).toNat :=
    Finset.sum_le_sum_of_subset (Finset.range_mono hr.le)
  have fits := fits contig
  rw [offsetList, if_pos contig, toNat_sumTo (by omega)]

lemma Returns.right (R : c.Returns order files windows)
    (fits : c.contig = true → ∑ i ∈ Finset.range c.n, (c.sizes i).toNat < 2 ^ 64) : c.Right files windows := by
  have some (r) (hr : r < c.n) (ne : c.sizes r ≠ 0) : c.size r ≠ 0 := by
    intro none
    have := inside fits hr
    have none : (c.size r).toNat = 0 := by
      rw [none]
      rfl
    exact ne (BitVec.eq_of_toNat_eq (show (c.sizes r).toNat = 0 by omega))
  have query (r) (hr : r < c.n) (ne : c.sizes r ≠ 0) := R.query hr (some r hr ne)
  have only {r} (hr : r < c.n) (ne : c.sizes r ≠ 0) {p} (hp : winQuery (windows r) r = .some p) :
      p = ⟨⟨c.fileOf r, c.size r⟩, offsetList c.contig c.sizes r⟩ :=
    Option.some.inj (hp.symm.trans ((query r hr ne).2 r hr))
  refine ⟨fun r hr ne => ?_, fun r hr r' hr' other ne ne' p p' hp hp' file => ?_, fun contig r hr ne p hp => ?_⟩
  · obtain ⟨file, everywhere⟩ := query r hr ne
    refine ⟨_, everywhere r hr, fun q hq => ⟨_, everywhere q hq, rfl, rfl, inside fits hr, c.size r,
      file, le_rfl⟩⟩
  · obtain rfl := only hr ne hp
    obtain rfl := only hr' ne' hp'
    cases contig : c.contig with
    | false =>
      refine absurd ?_ (R.names contig hr hr' (some r hr ne) (some r' hr' ne') other)
      simpa [fileOf, contig] using file
    | true =>
      -- the rank before has its bytes before
      have before {a b : Nat} (hb : b < c.n) (lt : a < b) :
          (offsetList c.contig c.sizes a).toNat + (c.sizes a).toNat ≤ (offsetList c.contig c.sizes b).toNat := by
        rw [offset_eq fits contig (lt.trans hb), offset_eq fits contig hb, ← Finset.sum_range_succ]
        exact Finset.sum_le_sum_of_subset (Finset.range_mono lt)
      rw [contig] at before
      obtain lt | gt := Nat.lt_or_gt_of_ne other
      · exact .inl (before hr' lt)
      · exact .inr (before hr gt)
  · obtain rfl := only hr ne hp
    refine ⟨offset_eq fits contig hr, fun r' hr' ne' p' hp' => ?_⟩
    obtain rfl := only hr' ne' hp'
    rw [fileOf, fileOf, if_pos contig, if_pos contig]

omit [DecidableEq Name] in
lemma Right.fits (right : c.Right files windows) (contig : c.contig = true) {k : Nat} (le : k ≤ c.n) :
    ∑ i ∈ Finset.range k, (c.sizes i).toNat < 2 ^ 64 := by
  induction k with
  | zero => exact Nat.two_pow_pos 64
  | succ k ih =>
    rw [Finset.sum_range_succ]
    by_cases ne : c.sizes k = 0
    · rw [ne]
      exact ih (Nat.le_of_succ_le le)
    · obtain ⟨p, hp, everywhere⟩ := right.same k le ne
      obtain ⟨p', hp', -, -, inside, -⟩ := everywhere k le
      obtain rfl := Option.some.inj (hp.symm.trans hp')
      have := (right.inRow contig k le ne p hp).1
      omega

end Calls

/-- When all ranks have returned from the allocation of a window, the segments of the ranks are where the ranks look
for them, apart from each other and inside the files, and in a row where the memory is contiguous, exactly when the
sizes do not overflow as they are added up. -/
theorem windows_right_iff (R : c.Returns order files windows) :
    c.Right files windows ↔ (c.contig = true → ∑ i ∈ Finset.range c.n, (c.sizes i).toNat < 2 ^ 64) :=
  ⟨fun right contig => right.fits contig le_rfl, R.right⟩

/-- Ranks with contiguous memory in one file, in a directory without files. -/
def contiguous (n : Nat) (sizes : Nat → BitVec 64) : Calls Nat where
  contig := true
  n := n
  sizes := sizes
  page := ⟨4096, by decide⟩
  files _ := none
  name := id
  junk _ _ := ⟨none, 0, 0, 0⟩

lemma returns_of_attach (accepted : c.Accepted) (perm : order.Perm (List.range c.n)) (made : c.allFiles order = some s)
    (found : ∀ r < c.n, (c.attach s r).isSome) : c.Returns order s.1 fun r => (c.attach s r).getD (c.junk r) := by
  refine ⟨accepted, perm, s, made, rfl, fun r hr => ?_⟩
  obtain ⟨t, ht⟩ := isSome_iff_exists.1 (found r hr)
  rw [ht]
  rfl

/-- Three ranks, one of them without bytes. -/
theorem windows_right_iff_three : ∃ files windows,
    (contiguous 3 fun i => if i = 1 then 0 else 100).Right files windows ∧
      winQuery (windows 1) 2 = some ⟨⟨0, 4096⟩, 100⟩ := by
  obtain ⟨c, isC⟩ : ∃ c, c = contiguous 3 fun i => if i = 1 then 0 else 100 := ⟨_, rfl⟩
  obtain ⟨s, made, accepted, perm, found, query, fits⟩ : ∃ s, c.allFiles [1, 0, 2] = some s ∧ c.Accepted ∧
      [1, 0, 2].Perm (List.range c.n) ∧ (∀ r < c.n, (c.attach s r).isSome) ∧
      winQuery ((c.attach s 1).getD (c.junk 1)) 2 = some ⟨⟨0, 4096⟩, 100⟩ ∧
      ∑ i ∈ Finset.range c.n, (c.sizes i).toNat < 2 ^ 64 := by
    subst isC
    exact ⟨_, rfl, by decide +kernel, by decide, by decide +kernel, rfl, by decide⟩
  rw [← isC]
  exact ⟨_, _, (windows_right_iff (returns_of_attach accepted perm made found)).2 fun _ => fits, query⟩

/-- The sizes of two ranks add up to one byte: the second rank has its memory before the file. -/
theorem windows_right_iff_not : ∃ files windows,
    (contiguous 2 fun i => if i = 0 then BitVec.allOnes 64 else 2).Returns [0, 1] files windows ∧
      ¬ (contiguous 2 fun i => if i = 0 then BitVec.allOnes 64 else 2).Right files windows := by
  obtain ⟨c, isC⟩ : ∃ c, c = contiguous 2 fun i => if i = 0 then BitVec.allOnes 64 else 2 := ⟨_, rfl⟩
  obtain ⟨s, made, accepted, perm, found, contig, large⟩ : ∃ s, c.allFiles [0, 1] = some s ∧ c.Accepted ∧
      [0, 1].Perm (List.range c.n) ∧ (∀ r < c.n, (c.attach s r).isSome) ∧ c.contig = true ∧
      ¬ ∑ i ∈ Finset.range c.n, (c.sizes i).toNat < 2 ^ 64 := by
    subst isC
    exact ⟨_, rfl, by decide +kernel, by decide, by decide +kernel, rfl, by decide⟩
  rw [← isC]
  exact ⟨_, _, returns_of_attach accepted perm made found, fun right => large (right.fits contig le_rfl)⟩

end Kupl.Shm.Posix
