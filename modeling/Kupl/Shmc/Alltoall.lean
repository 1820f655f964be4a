import Kupl.Shmc.Window
import Kupl.Script.Fence
import Kupl.Script.Versions
import Mathlib.Data.Nat.ModEq

/-!
# The all-to-all exchange (`kupl_alltoall.cpp`)

Between two fences every rank copies one block to or from every rank: it writes its own blocks into the receive buffers
of the others, or reads its blocks from their send buffers. The addresses at another rank are those of the window there,
moved by the offset that the own buffer has in the own window.

| source | here |
|---|---|
| `kupl_shm_alltoall_init`, `kupl_alltoall_request_check` | `alltoallInit`, `alltoallRequestCheck` |
| `do_alltoall_with_linear_read` | `doAlltoallWithLinearRead` |
| `do_alltoall_with_linear_write` | `doAlltoallWithLinearWrite` |
| `kupl_do_alltoall`; `KUPL_ERROR` | `doAlltoall`; `none` |
-/

namespace Kupl.Shmc.Alltoall
open Script Mem List

/-- (C++ `kupl_shm_alltoall_algo_t`). -/
inductive Algo where
  | auto
  | linearRead
  | linearWrite
deriving DecidableEq

/-- (C++ `kupl_shm_request_t` with `kupl_shm_alltoall_args_t`). -/
structure Request where
  sendWin : Option Nat
  recvWin : Option Nat
  sendbuf : Ptr
  recvbuf : Ptr
  sendcount : Int
  recvcount : Int
  sendtype : Datatype
  recvtype : Datatype
  typeSize : Int
  algo : Algo

def winsMissing (sendWin recvWin : Option Nat) (algo : Algo) : Bool :=
  (recvWin.isNone && sendWin.isNone) || (recvWin.isNone && algo = .linearWrite) ||
  (sendWin.isNone && algo = .linearRead)

/-- (C++ `kupl_shm_alltoall_init`), and the windows after it. -/
def alltoallInit (sendbuf : Ptr) (sendcount : Int) (sendtype : Datatype) (recvbuf : Ptr) (recvcount : Int)
    (recvtype : Datatype) (algo : Algo) (wins : List Win) : Option Request × List Win :=
  if sendcount ≤ 0 ∨ recvcount ≤ 0 then (none, wins)
  else
    let (recvWin, wins) := findWin recvbuf wins
    let (sendWin, wins) := findWin sendbuf wins
    if winsMissing sendWin recvWin algo then (none, wins)
    else (some { sendWin, recvWin, sendbuf, recvbuf, sendcount, recvcount, sendtype, recvtype,
                 typeSize := Shmc.typeSize sendtype, algo }, wins)

/-- (C++ `kupl_alltoall_request_check`). -/
def alltoallRequestCheck (commSize : Nat) (r : Request) : Bool :=
  ¬ winsMissing r.sendWin r.recvWin r.algo ∧ checkTypeSize r.typeSize ∧
  ¬ (r.sendcount ≤ 0 ∨ r.sendcount > intMax / (commSize * r.typeSize)) ∧ ¬ uintMax / r.sendcount < r.typeSize

abbrev Code := List (Instr Nat Loc)

/-- (C++ `kupl_memcpy`). -/
def memcpy (dst src : Loc) (size : Nat) : Code :=
  (List.range size).map fun (i : Nat) => .copy { dst with off := dst.off + i } { src with off := src.off + i }

/-- (C++ `kupl_shm_fence`). -/
def shmFence (commSize rank : Nat) : Code := commFence id commSize rank

def Request.block (r : Request) : Nat := (r.sendcount * r.typeSize).toNat

/-- (C++ `do_alltoall_with_linear_read`). -/
def doAlltoallWithLinearRead (commSize rank : Nat) (r : Request) : Option Code :=
  match r.sendWin with
  | none => none
  | some win =>
    let diff := int32 r.sendbuf.off
    some (shmFence commSize rank ++ ((List.range commSize).flatMap fun i =>
        let recvRank := (rank + i) % commSize
        memcpy (r.recvbuf.at rank (r.sendcount * recvRank * r.typeSize))
          ⟨recvRank, some win, diff + r.sendcount * rank * r.typeSize⟩ r.block) ++
      shmFence commSize rank)

/-- (C++ `do_alltoall_with_linear_write`). -/
def doAlltoallWithLinearWrite (commSize rank : Nat) (r : Request) : Option Code :=
  match r.recvWin with
  | none => none
  | some win =>
    let diff := int32 r.recvbuf.off
    some (shmFence commSize rank ++ ((List.range commSize).flatMap fun i =>
        let sendRank := (rank + i) % commSize
        memcpy ⟨sendRank, some win, diff + r.sendcount * rank * r.typeSize⟩
          (r.sendbuf.at rank (r.sendcount * sendRank * r.typeSize)) r.block) ++
      shmFence commSize rank)

/-- (C++ `kupl_do_alltoall`). -/
def doAlltoall (commSize rank : Nat) (r : Request) : Option Code :=
  match r.algo with
  | .auto => doAlltoallWithLinearWrite commSize rank r
  | .linearRead => doAlltoallWithLinearRead commSize rank r
  | .linearWrite => doAlltoallWithLinearWrite commSize rank r

variable {n p q k i j w : Nat} {r : Request} {algo : Algo} {count recvcount : Int} {type recvtype : Datatype}
  {sendbuf recvbuf : Ptr} {wins : List Win} {l l' : Loc} {dst src : Nat → Nat → Loc} {b : Nat}

/-! ## Requests that are accepted -/

lemma of_init (made : (alltoallInit sendbuf count type recvbuf recvcount recvtype algo wins).1 = some r) :
    r.sendcount = count ∧ r.typeSize = Shmc.typeSize type ∧ r.algo = algo ∧
    (∀ w, r.sendWin = some w → r.sendbuf.win = some w ∧ (r.sendbuf.off : Int) < intMax) ∧
    ∀ w, r.recvWin = some w → r.recvbuf.win = some w ∧ (r.recvbuf.off : Int) < intMax := by
  unfold alltoallInit at made
  split at made
  case isTrue => cases made
  case isFalse =>
    dsimp only at made
    split at made
    case isTrue => cases made
    case isFalse =>
      cases made
      exact ⟨rfl, rfl, rfl, fun w found => findWin_some found, fun w found => findWin_some found⟩

lemma of_check (ok : alltoallRequestCheck n r = true) :
    winsMissing r.sendWin r.recvWin r.algo = false ∧ 0 < r.sendcount ∧
      r.sendcount ≤ intMax / (n * r.typeSize) := by
  obtain ⟨missing, -, count, -⟩ := of_decide_eq_true ok
  refine ⟨Bool.eq_false_iff.2 missing, ?_, ?_⟩
  · by_contra neg
    exact count (.inl (Int.not_lt.1 neg))
  · by_contra big
    exact count (.inr (Int.lt_of_not_ge big))

/-- The buffers of a group of requests of `n` ranks, all of which have been accepted; a buffer that lies in a window at
one rank lies there at all ranks; and the buffers of a rank have no byte in common. -/
structure Accepted (n : Nat) (algo : Algo) (count : Int) (type : Datatype) (req : Nat → Request) : Prop where
  init : ∀ p < n, ∃ sendbuf recvbuf recvcount recvtype wins,
    (alltoallInit sendbuf count type recvbuf recvcount recvtype algo wins).1 = some (req p)
  check : ∀ p < n, alltoallRequestCheck n (req p) = true
  send : ∀ p < n, ∀ q < n, (req p).sendWin ≠ none → (req q).sendbuf = (req p).sendbuf
  recv : ∀ p < n, ∀ q < n, (req p).recvWin ≠ none → (req q).recvbuf = (req p).recvbuf
  apart : ∀ p < n, ∀ i < n * (req p).block, ∀ j < n * (req p).block,
    (req p).sendbuf.at p i ≠ (req p).recvbuf.at p j

/-! ## The script of a rank -/

/-- Blocks of `b` bytes that are copied from or to each rank, beginning with the rank itself. -/
def blocks (n b p : Nat) (dst src : Nat → Nat → Loc) : Code :=
  (List.range n).flatMap fun i => (List.range b).map fun j => .copy (dst ((p + i) % n) j) (src ((p + i) % n) j)

lemma turn (lt_p : p < n) (lt : q < n) : ∃ i < n, (p + i) % n = q := by
  by_cases le : p ≤ q
  · refine ⟨q - p, by omega, ?_⟩
    rw [Nat.add_sub_cancel' le]
    exact Nat.mod_eq_of_lt lt
  · refine ⟨n + q - p, by omega, ?_⟩
    have sum : p + (n + q - p) = n + q := by omega
    rw [sum, Nat.add_mod_left]
    exact Nat.mod_eq_of_lt lt

lemma turn_inj {i' : Nat} (lt : i < n) (lt' : i' < n) (same : (p + i) % n = (p + i') % n) : i = i' := by
  have eq := Nat.ModEq.add_left_cancel' p same
  rwa [Nat.ModEq, Nat.mod_eq_of_lt lt, Nat.mod_eq_of_lt lt'] at eq

lemma mem_blocks (lt_p : p < n) : .copy l l' ∈ blocks n b p dst src ↔ ∃ q < n, ∃ j < b, l = dst q j ∧
    l' = src q j := by
  rw [blocks, mem_flatMap]
  constructor
  · rintro ⟨i, inRange, mem⟩
    obtain ⟨j, inBlock, is⟩ := mem_map.1 mem
    cases is
    exact ⟨(p + i) % n, Nat.mod_lt _ (by omega), j, mem_range.1 inBlock, rfl, rfl⟩
  · rintro ⟨q, lt, j, lt_j, rfl, rfl⟩
    obtain ⟨i, lt_i, rfl⟩ := turn lt_p lt
    exact ⟨i, mem_range.2 lt_i, mem_map.2 ⟨j, mem_range.2 lt_j, rfl⟩⟩

lemma blocks_only {x : Instr Nat Loc} (mem : x ∈ blocks n b p dst src) : ∃ l l', x = .copy l l' := by
  obtain ⟨i, -, mem⟩ := mem_flatMap.1 mem
  obtain ⟨j, -, rfl⟩ := mem_map.1 mem
  exact ⟨_, _, rfl⟩

lemma nodup_blocks (inj : ∀ q < n, ∀ j < b, ∀ q' < n, ∀ j' < b, dst q j = dst q' j' → q = q' ∧ j = j')
    (pos : 0 < n) :
    (blocks n b p dst src).Nodup := by
  have lt i : (p + i) % n < n := Nat.mod_lt _ pos
  rw [blocks, nodup_flatMap]
  constructor
  · intro i _
    refine List.Nodup.map_on (fun j mem j' mem' same => ?_) nodup_range
    obtain ⟨dst, -⟩ := Instr.copy.inj same
    exact (inj _ (lt i) j (mem_range.1 mem) _ (lt i) j' (mem_range.1 mem') dst).2
  · refine List.Pairwise.imp_of_mem ?_ nodup_range
    intro i i' mem mem' ne x isX isX'
    obtain ⟨j, inBlock, rfl⟩ := mem_map.1 isX
    obtain ⟨j', inBlock', same⟩ := mem_map.1 isX'
    obtain ⟨dst, -⟩ := Instr.copy.inj same
    have both := (inj _ (lt i') j' (mem_range.1 inBlock') _ (lt i) j (mem_range.1 inBlock) dst).1
    exact ne (turn_inj (mem_range.1 mem) (mem_range.1 mem') both.symm)

section Accepted
variable {req : Nat → Request} (A : Accepted n algo count type req)
include A

lemma Accepted.facts (lt : p < n) : (req p).sendcount = count ∧ (req p).typeSize = Shmc.typeSize type ∧
    (req p).algo = algo ∧
    (∀ w, (req p).sendWin = some w → (req p).sendbuf.win = some w ∧
      int32 (req p).sendbuf.off = (req p).sendbuf.off) ∧
    ∀ w, (req p).recvWin = some w → (req p).recvbuf.win = some w ∧
      int32 (req p).recvbuf.off = (req p).recvbuf.off := by
  obtain ⟨sendbuf, recvbuf, recvcount, recvtype, wins, made⟩ := A.init p lt
  obtain ⟨isCount, isSize, isAlgo, send, recv⟩ := of_init made
  have narrow {off : Nat} (small : (off : Int) < intMax) : int32 off = off := by
    rw [intMax] at small
    exact int32_eq (by omega) (by omega)
  refine ⟨isCount, isSize, isAlgo, fun w found => ?_, fun w found => ?_⟩
  · exact ⟨(send w found).1, narrow (send w found).2⟩
  · exact ⟨(recv w found).1, narrow (recv w found).2⟩

lemma Accepted.block_eq (lt : p < n) (lt_q : q < n) : (req q).block = (req p).block := by
  obtain ⟨count, size, -⟩ := A.facts lt
  obtain ⟨count', size', -⟩ := A.facts lt_q
  rw [Request.block, Request.block, count, size, count', size']

lemma Accepted.product (lt : p < n) (m : Nat) :
    (req p).sendcount * m * (req p).typeSize = ((m * (req p).block : Nat) : Int) := by
  obtain ⟨-, pos, -⟩ := of_check (A.check p lt)
  have size : 0 < (req p).typeSize := by
    rw [(A.facts lt).2.1]
    exact typeSize_pos
  have block : ((req p).block : Int) = (req p).sendcount * (req p).typeSize := by
    rw [Request.block]
    exact Int.toNat_of_nonneg (Int.mul_nonneg pos.le size.le)
  rw [Int.natCast_mul, block, Int.mul_right_comm, Int.mul_comm]

lemma Accepted.write_code (win : ∀ q < n, (req q).recvWin ≠ none) (lt : p < n) :
    doAlltoallWithLinearWrite n p (req p) = some (shmFence n p ++
      blocks n (req p).block p (fun q j => (req q).recvbuf.at q ((p * (req p).block + j : Nat) : Int))
        (fun q j => (req p).sendbuf.at p ((q * (req p).block + j : Nat) : Int)) ++ shmFence n p) := by
  obtain ⟨w, found⟩ := Option.ne_none_iff_exists'.1 (win p lt)
  obtain ⟨isWin, narrow⟩ := (A.facts lt).2.2.2.2 w found
  rw [doAlltoallWithLinearWrite, found]
  rw [narrow]
  refine congrArg (fun code => some (shmFence n p ++ code ++ shmFence n p)) ?_
  refine flatMap_congr fun i _ => ?_
  have lt_q : (p + i) % n < n := Nat.mod_lt _ (by omega)
  rw [memcpy]
  refine map_congr_left fun j _ => ?_
  dsimp only
  rw [A.product lt, A.product lt, A.recv p lt _ lt_q (win p lt)]
  simp only [Ptr.at, isWin, Int.natCast_add, Int.add_assoc]

lemma Accepted.read_code (win : ∀ q < n, (req q).sendWin ≠ none) (lt : p < n) :
    doAlltoallWithLinearRead n p (req p) = some (shmFence n p ++
      blocks n (req p).block p (fun q j => (req p).recvbuf.at p ((q * (req p).block + j : Nat) : Int))
        (fun q j => (req q).sendbuf.at q ((p * (req p).block + j : Nat) : Int)) ++ shmFence n p) := by
  obtain ⟨w, found⟩ := Option.ne_none_iff_exists'.1 (win p lt)
  obtain ⟨isWin, narrow⟩ := (A.facts lt).2.2.2.1 w found
  rw [doAlltoallWithLinearRead, found]
  rw [narrow]
  refine congrArg (fun code => some (shmFence n p ++ code ++ shmFence n p)) ?_
  refine flatMap_congr fun i _ => ?_
  have lt_q : (p + i) % n < n := Nat.mod_lt _ (by omega)
  rw [memcpy]
  refine map_congr_left fun j _ => ?_
  dsimp only
  rw [A.product lt, A.product lt, A.send p lt _ lt_q (win p lt)]
  simp only [Ptr.at, isWin, Int.natCast_add, Int.add_assoc]

end Accepted

/-! ## Who copies what -/

/-- A byte of the receive buffer of a rank. -/
def recv (req : Nat → Request) (p i : Nat) : Loc := (req p).recvbuf.at p (i : Int)

def send (req : Nat → Request) (p i : Nat) : Loc := (req p).sendbuf.at p (i : Int)

/-- Between two fences each byte that one rank has for another is copied once, by one rank. -/
structure Moves (n b : Nat) (req : Nat → Request) (prog work : Nat → Code) : Prop where
  parts : ∀ p < n, prog p = [] ++ (commFence id n p ++ (work p ++ commFence id n p))
  beyond : ∀ p, n ≤ p → prog p = []
  only : ∀ p < n, ∀ x ∈ work p, ∃ l l', x = .copy l l'
  copy : ∀ p < n, ∀ l l', .copy l l' ∈ work p → ∃ q < n, ∃ r < n, ∃ j < b,
    l = recv req q (r * b + j) ∧ l' = send req r (q * b + j)
  all : ∀ q < n, ∀ r < n, ∀ j < b, ∃ p < n, .copy (recv req q (r * b + j)) (send req r (q * b + j)) ∈ work p
  one : ∀ p < n, ∀ q < n, ∀ l l' l'', .copy l l' ∈ work p → .copy l l'' ∈ work q → p = q
  once : ∀ p < n, (work p).Nodup

lemma at_inj {r' : Request} {p' i' : Nat} (same : r.recvbuf.at p (i : Int) = r'.recvbuf.at p' (i' : Int)) :
    p = p' ∧ (r.recvbuf.off + i : Int) = r'.recvbuf.off + i' :=
  ⟨congrArg Loc.rank same, congrArg Loc.off same⟩

lemma recv_inj {req : Nat → Request} {p' i' : Nat} (same : recv req p i = recv req p' i') : p = p' ∧ i = i' := by
  obtain ⟨rfl, off⟩ := at_inj same
  exact ⟨rfl, by omega⟩

lemma index_inj {r r' : Nat} {j' : Nat} (lt : j < b) (lt' : j' < b) (same : r * b + j = r' * b + j') :
    r = r' ∧ j = j' := by
  have div := congrArg (· / b) same
  have mod := congrArg (· % b) same
  have pos : 0 < b := by omega
  simp only [Nat.mul_comm _ b, Nat.mul_add_div pos, Nat.mul_add_mod, Nat.div_eq_of_lt lt, Nat.div_eq_of_lt lt',
    Nat.mod_eq_of_lt lt, Nat.mod_eq_of_lt lt', Nat.add_zero] at div mod
  exact ⟨div, mod⟩

lemma index_lt {r : Nat} (lt_r : r < n) (lt : j < b) : r * b + j < n * b := by
  have mul := Nat.mul_le_mul_right b lt_r
  rw [Nat.succ_mul] at mul
  omega

section Moves
variable {req : Nat → Request}

/-- The script of a rank, if it has one. -/
def prog (n : Nat) (req : Nat → Request) (p : Nat) : Code := if p < n then (doAlltoall n p (req p)).getD [] else []

lemma prog_parts {work : Code} (lt : p < n) (code : doAlltoall n p (req p) =
    some (shmFence n p ++ work ++ shmFence n p)) :
    prog n req p = [] ++ (commFence id n p ++ (work ++ commFence id n p)) := by
  rw [prog, if_pos lt, code, Option.getD_some, shmFence, append_assoc]
  rfl

/-- In one turn of a rank, `dst p q` is the rank that receives and `src p q` the one that sends. -/
lemma moves_of {dst src : Nat → Nat → Nat} (lt : ∀ p < n, ∀ q < n, dst p q < n ∧ src p q < n)
    (all : ∀ q < n, ∀ r < n, ∃ p < n, ∃ k < n, dst p k = q ∧ src p k = r)
    (inj : ∀ p q p' q', dst p q = dst p' q' → src p q = src p' q' → p = p' ∧ q = q')
    (code : ∀ p < n, doAlltoall n p (req p) = some (shmFence n p ++
      blocks n b p (fun q j => recv req (dst p q) (src p q * b + j))
        (fun q j => send req (src p q) (dst p q * b + j)) ++
      shmFence n p)) :
    Moves n b req (prog n req) fun p =>
      blocks n b p (fun q j => recv req (dst p q) (src p q * b + j)) fun q j =>
        send req (src p q) (dst p q * b + j) := by
  constructor
  case parts => exact fun p lt => prog_parts lt (code p lt)
  case beyond => exact fun p le => if_neg (Nat.not_lt.2 le)
  case only => exact fun p _ x isX => blocks_only isX
  case copy =>
    intro p lt_p l l' isCopy
    obtain ⟨q, lt_q, j, lt_j, rfl, rfl⟩ := (mem_blocks lt_p).1 isCopy
    exact ⟨_, (lt p lt_p q lt_q).1, _, (lt p lt_p q lt_q).2, j, lt_j, rfl, rfl⟩
  case all =>
    intro q lt_q r lt_r j lt_j
    obtain ⟨p, lt_p, k, lt_k, rfl, rfl⟩ := all q lt_q r lt_r
    exact ⟨p, lt_p, (mem_blocks lt_p).2 ⟨k, lt_k, j, lt_j, rfl, rfl⟩⟩
  case one =>
    intro p lt_p q lt_q l l' l'' isCopy isCopy'
    obtain ⟨r, _, j, lt_j, rfl, _⟩ := (mem_blocks lt_p).1 isCopy
    obtain ⟨r', _, j', lt_j', same, _⟩ := (mem_blocks lt_q).1 isCopy'
    obtain ⟨isDst, off⟩ := recv_inj same
    exact (inj _ _ _ _ isDst (index_inj lt_j lt_j' off).1).1
  case once =>
    refine fun p lt => nodup_blocks (fun q _ j lt_j q' _ j' lt_j' same => ?_) (by omega)
    obtain ⟨isDst, off⟩ := recv_inj same
    obtain ⟨isSrc, isJ⟩ := index_inj lt_j lt_j' off
    exact ⟨(inj _ _ _ _ isDst isSrc).2, isJ⟩

lemma write_moves (A : Accepted n algo count type req) (win : ∀ q < n, (req q).recvWin ≠ none)
    (write : ∀ p < n, doAlltoall n p (req p) = doAlltoallWithLinearWrite n p (req p))
    (size : ∀ p < n, (req p).block = b) :
    Moves n b req (prog n req) fun p => blocks n b p (fun q j => recv req q (p * b + j)) fun q j =>
      send req p (q * b + j) := by
  refine moves_of (fun p lt q lt_q => ⟨lt_q, lt⟩) (fun q lt_q r lt_r => ⟨r, lt_r, q, lt_q, rfl, rfl⟩)
    (fun p q p' q' dst src => ⟨src, dst⟩) fun p lt => ?_
  have code := (write p lt).trans (A.write_code win lt)
  rwa [size p lt] at code

lemma read_moves (A : Accepted n algo count type req) (win : ∀ q < n, (req q).sendWin ≠ none)
    (read : ∀ p < n, doAlltoall n p (req p) = doAlltoallWithLinearRead n p (req p))
    (size : ∀ p < n, (req p).block = b) :
    Moves n b req (prog n req) fun p => blocks n b p (fun q j => recv req p (q * b + j)) fun q j =>
      send req q (p * b + j) := by
  refine moves_of (fun p lt q lt_q => ⟨lt, lt_q⟩) (fun q lt_q r lt_r => ⟨q, lt_q, r, lt_r, rfl, rfl⟩)
    (fun p q p' q' dst src => ⟨dst, src⟩) fun p lt => ?_
  have code := (read p lt).trans (A.read_code win lt)
  rwa [size p lt] at code

/-! ## Runs -/

variable {script work : Nat → Code} {α : Type} [Add α] {s : State Nat Loc α} {d t : Code} {x : Instr Nat Loc}
  {g : State Nat Loc α → Label Loc α → Prop} (M : Moves n b req script work)
include M

lemma Moves.notMem_inc (lt : p < n) {c : Nat} : .inc c ∉ work p := by
  intro mem
  obtain ⟨l, l', is⟩ := M.only p lt _ mem
  cases is

lemma Moves.phases : Phases script id n (fun _ => []) work :=
  ⟨M.parts, fun _ _ => rfl, fun _ lt => count_eq_zero.2 (M.notMem_inc lt)⟩

lemma Moves.mem (mem : x ∈ script p) : p < n ∧ (x = .inc p ∨ (∃ i < n, x = .waitLe p i) ∨ x ∈ work p) := by
  by_cases lt : p < n
  · rw [M.parts p lt, nil_append, mem_append, mem_append] at mem
    have ofFence (mem : x ∈ commFence id n p) : x = .inc p ∨ (∃ i < n, x = .waitLe p i) ∨ x ∈ work p :=
      (mem_commFence mem).imp_right .inl
    obtain mem | mem | mem := mem
    · exact ⟨lt, ofFence mem⟩
    · exact ⟨lt, .inr (.inr mem)⟩
    · exact ⟨lt, ofFence mem⟩
  · rw [M.beyond p (Nat.le_of_not_lt lt)] at mem
    cases mem

lemma Moves.own {c : Nat} (mem : .inc c ∈ script p) : id c = p := by
  obtain ⟨lt, is | ⟨i, -, is⟩ | mem⟩ := M.mem mem
  · exact Instr.inc.inj is
  · cases is
  · exact absurd mem (M.notMem_inc lt)

lemma Moves.mem_copy (mem : .copy l l' ∈ script p) : p < n ∧ .copy l l' ∈ work p := by
  obtain ⟨lt, is | ⟨i, -, is⟩ | mem⟩ := M.mem mem
  · cases is
  · cases is
  · exact ⟨lt, mem⟩

lemma Moves.mem_prog (lt : p < n) (mem : x ∈ work p) : x ∈ script p := by
  rw [M.parts p lt]
  exact mem_append_right _ (mem_append_right _ (mem_append_left _ mem))

lemma Moves.fenced : Fenced script id n 2 := by
  constructor
  case waitLt =>
    intro p a b mem
    obtain ⟨lt, is | ⟨i, -, is⟩ | mem⟩ := M.mem mem
    · cases is
    · cases is
    · obtain ⟨l, l', is⟩ := M.only p lt _ mem
      cases is
  case waitReg =>
    intro p a mem
    obtain ⟨lt, is | ⟨i, -, is⟩ | mem⟩ := M.mem mem
    · cases is
    · cases is
    · obtain ⟨l, l', is⟩ := M.only p lt _ mem
      cases is
  case waitLe =>
    intro p a b mem
    obtain ⟨lt, is | ⟨i, lt_i, is⟩ | mem⟩ := M.mem mem
    · cases is
    · obtain ⟨isA, isB⟩ := Instr.waitLe.inj is
      exact ⟨isA, i, lt_i, isB⟩
    · obtain ⟨l, l', is⟩ := M.only p lt _ mem
      cases is
  case count => exact fun p lt => M.phases.count lt

lemma Moves.isExchange (apart : ∀ p < n, ∀ i < n * b, ∀ j < n * b, send req p i ≠ recv req p j) :
    Exchange script := by
  constructor
  case add =>
    intro p dst a b mem
    obtain ⟨lt, is | ⟨i, -, is⟩ | mem⟩ := M.mem mem
    · cases is
    · cases is
    · obtain ⟨l, l', is⟩ := M.only p lt _ mem
      cases is
  case unique =>
    intro p q dst src src' isCopy isCopy'
    obtain ⟨lt, isCopy⟩ := M.mem_copy isCopy
    obtain ⟨lt_q, isCopy'⟩ := M.mem_copy isCopy'
    obtain ⟨a, _, c, _, j, lt_j, rfl, rfl⟩ := M.copy p lt _ _ isCopy
    obtain ⟨a', _, c', _, j', lt_j', same, rfl⟩ := M.copy q lt_q _ _ isCopy'
    obtain ⟨rfl, off⟩ := recv_inj same
    obtain ⟨rfl, rfl⟩ := index_inj lt_j lt_j' off
    exact ⟨M.one p lt q lt_q _ _ _ isCopy isCopy', rfl⟩
  case apart =>
    intro p q dst src src' isCopy isCopy'
    obtain ⟨lt, isCopy⟩ := M.mem_copy isCopy
    obtain ⟨lt_q, isCopy'⟩ := M.mem_copy isCopy'
    obtain ⟨a, lt_a, c, lt_c, j, lt_j, -, rfl⟩ := M.copy p lt _ _ isCopy
    obtain ⟨a', lt_a', c', lt_c', j', lt_j', same, -⟩ := M.copy q lt_q _ _ isCopy'
    obtain rfl : c = a' := congrArg Loc.rank same
    exact apart c lt_c _ (index_lt lt_a lt_j) _ (index_lt lt_c' lt_j') same

lemma Moves.at_copy (h : (machine n script Loc.rank).Reach g s) (at_p : s.pc p = some (d, .copy l l' :: t)) :
    (∀ q < n, s.Inside q (s.left p)) ∧ .copy l l' ∉ d := by
  have whole := split h p d _ at_p
  have mem : .copy l l' ∈ script p := by
    rw [← whole]
    exact mem_append_right d mem_cons_self
  obtain ⟨lt, -⟩ := M.mem_copy mem
  have notFence : Instr.copy l l' ∉ commFence id n p := by
    intro mem
    obtain is | ⟨i, -, is⟩ := mem_commFence mem
    · cases is
    · cases is
  rw [M.parts p lt, nil_append] at whole
  obtain ⟨d', rfl, rest⟩ := split_right whole notFence
  obtain ⟨t', isWork, -⟩ := split_left rest.symm notFence
  have few : d'.count (.inc (id p)) = 0 := by
    apply count_eq_zero.2
    intro mem
    refine M.notMem_inc lt (c := p) ?_
    rw [isWork]
    exact mem_append_left _ mem
  refine ⟨fun q lt_q => (M.phases.inside h (fun _ _ => M.own) (fun _ => rfl) at_p few lt lt_q).1, fun mem => ?_⟩
  obtain mem | mem := mem_append.1 mem
  · exact notFence mem
  · have nodup := M.once p lt
    rw [isWork] at nodup
    exact disjoint_of_nodup_append nodup mem mem_cons_self

end Moves

/-! ## What the exchange promises -/

/-- In a state, who is about to return has from every rank what that had for it when it entered the same call; and
nothing is written but the receive buffers. -/
structure Right {α : Type} (n b : Nat) (req : Nat → Request) (s : State Nat Loc α) : Prop where
  returns : ∀ p d, s.pc p = some (d, []) → ∀ q < n, ∀ j < b, s.Has q (s.left p) (.inc q) ∧
    s.val (recv req p (q * b + j)) = s.seen q (s.left p) (send req q (p * b + j))
  writes : ∀ p d x t l, s.pc p = some (d, x :: t) → x.dst = some l → ∃ q < n, ∃ i < n * b, l = recv req q i

section Right
variable {α : Type} [Add α] {req : Nat → Request} {script work : Nat → Code} {s : State Nat Loc α}
  {g : State Nat Loc α → Label Loc α → Prop}

lemma Moves.right (M : Moves n b req script work) (apart : ∀ p < n, ∀ i < n * b, ∀ j < n * b,
    send req p i ≠ recv req p j)
    (h : (machine n script Loc.rank).Reach g s) : Right n b req s := by
  have E := M.isExchange apart
  have timely (s : State Nat Loc α) (h : (machine n script Loc.rank).Reach g s) :
      (exchange script).Timely script Loc.rank s := by
    refine exchange_timely E (fun q d t dst src at_q => ?_) (split h)
    obtain ⟨inside, new⟩ := M.at_copy h at_q
    have mem : .copy dst src ∈ script q := by
      rw [← split h q d _ at_q]
      exact mem_append_right d mem_cons_self
    obtain ⟨lt, mem⟩ := M.mem_copy mem
    obtain ⟨a, lt_a, c, lt_c, j, -, rfl, rfl⟩ := M.copy q lt _ _ mem
    exact ⟨inside a lt_a, inside c lt_c, new⟩
  have H := planned (exchange_fits E) timely h
  constructor
  case returns =>
    intro p d at_p q lt_q j lt_j
    have lt := rank_lt h (by rw [at_p]; nofun)
    have mine {c i : Nat} : id i = i := rfl
    constructor
    · have all := split h p d [] at_p
      rw [append_nil] at all
      rw [all, ← append_nil (script p)] at at_p
      have P := M.phases.came_end h (fun _ _ => M.own) (fun _ => rfl) lt (over_in at_p) lt_q
      refine has_of_past (split h q) (M.phases.parts_end lt_q) P ?_
      exact mem_append_left _ (mem_append_right _ (mem_append_left _ mem_cons_self))
    · obtain ⟨r, lt_r, mem⟩ := M.all p lt q lt_q j lt_j
      have has := M.phases.all_done h (fun _ _ => M.own) (fun _ => rfl) at_p lt lt_r (.inr mem)
      exact exchanged E H (M.mem_prog lt_r mem) has (State.inside_in at_p)
  case writes =>
    intro p d x t l at_p dst
    have mem : x ∈ script p := by
      rw [← split h p d _ at_p]
      exact mem_append_right d mem_cons_self
    obtain ⟨src, rfl⟩ := copy_of_dst E mem dst
    obtain ⟨lt, mem⟩ := M.mem_copy mem
    obtain ⟨a, lt_a, c, lt_c, j, lt_j, rfl, -⟩ := M.copy p lt _ _ mem
    exact ⟨a, lt_a, _, index_lt lt_c lt_j, rfl⟩

lemma Accepted.moves (A : Accepted n algo count type req) (pos : 0 < n)
    (found : algo = .auto → ∀ p < n, (req p).recvWin ≠ none) :
    (∀ p < n, ∃ code, doAlltoall n p (req p) = some code) ∧
    ∃ work, Moves n (req 0).block req (prog n req) work := by
  have size p (lt : p < n) : (req p).block = (req 0).block := A.block_eq pos lt
  have isAlgo p (lt : p < n) : (req p).algo = algo := (A.facts lt).2.2.1
  have missing p (lt : p < n) : winsMissing (req p).sendWin (req p).recvWin algo = false := by
    rw [← isAlgo p lt]
    exact (of_check (A.check p lt)).1
  have write (win : ∀ p < n, (req p).recvWin ≠ none)
      (code : ∀ p < n, doAlltoall n p (req p) = doAlltoallWithLinearWrite n p (req p)) :
      (∀ p < n, ∃ code, doAlltoall n p (req p) = some code) ∧
        ∃ work, Moves n (req 0).block req (prog n req) work :=
    ⟨fun p lt => ⟨_, (code p lt).trans (A.write_code win lt)⟩, _, write_moves A win code size⟩
  cases algo with
  | auto => exact write (found rfl) fun p lt => by rw [doAlltoall, isAlgo p lt]
  | linearWrite =>
    refine write (fun p lt none => ?_) fun p lt => by rw [doAlltoall, isAlgo p lt]
    have missing := missing p lt
    rw [none] at missing
    simp [winsMissing] at missing
  | linearRead =>
    have win p (lt : p < n) : (req p).sendWin ≠ none := by
      intro none
      have missing := missing p lt
      rw [none] at missing
      simp [winsMissing] at missing
    have code p (lt : p < n) : doAlltoall n p (req p) = doAlltoallWithLinearRead n p (req p) := by
      rw [doAlltoall, isAlgo p lt]
    exact ⟨fun p lt => ⟨_, (code p lt).trans (A.read_code win lt)⟩, _, read_moves A win code size⟩

/-- The exchange succeeds at every rank if and only if those that choose the algorithm automatically have their receive
buffers in windows; then it is right in every run, and all ranks that have come to a call can return from it. -/
theorem alltoall_right (A : Accepted n algo count type req) (pos : 0 < n) :
    ((∀ p < n, ∃ code, doAlltoall n p (req p) = some code) ↔
      (algo = .auto → ∀ p < n, (req p).recvWin ≠ none)) ∧
    ((algo = .auto → ∀ p < n, (req p).recvWin ≠ none) →
      ∀ s : State Nat Loc α, (machine n (prog n req) Loc.rank).Reachable s → Right n (req 0).block req s ∧
        ∀ k, (∀ p < n, Came s p k) → ∃ as s',
          (machine n (prog n req) Loc.rank).run (fun _ _ => True) s as = some s' ∧ ∀ p < n, k < s'.left p) := by
  refine ⟨⟨fun codes auto p lt none => ?_, fun found => (A.moves pos found).1⟩, fun found s h => ?_⟩
  · obtain ⟨code, is⟩ := codes p lt
    rw [doAlltoall, (A.facts lt).2.2.1, auto] at is
    simp only [doAlltoallWithLinearWrite, none, reduceCtorEq] at is
  · obtain ⟨-, work, M⟩ := A.moves pos found
    refine ⟨M.right (fun p lt i lt_i j lt_j => ?_) h, fun k came => ?_⟩
    · apply A.apart p lt
      · rwa [A.block_eq pos lt]
      · rwa [A.block_eq pos lt]
    · exact M.fenced.returns (fun _ _ => M.own) (fun _ => rfl) h came

def window : Win := ⟨7, 64, 0, by decide⟩

/-- Two ranks exchange one `int` each, from offset 0 of the window to offset 32 of it. -/
def request : Request :=
  ⟨some 7, some 7, ⟨some 7, 0⟩, ⟨some 7, 32⟩, 1, 1, .int, .int, 4, .auto⟩

lemma request_accepted : Accepted 2 .auto 1 .int fun _ => request := by
  constructor
  case init => exact fun _ _ => ⟨⟨some 7, 0⟩, ⟨some 7, 32⟩, 1, .int, [window], rfl⟩
  case check => exact fun _ _ => by decide
  case send => exact fun _ _ _ _ _ => rfl
  case recv => exact fun _ _ _ _ _ => rfl
  case apart =>
    intro p _ i lt j _ same
    have lt : i < 8 := lt
    have off : ((0 : Nat) : Int) + i = ((32 : Nat) : Int) + j := congrArg Loc.off same
    omega

/-- Two ranks with windows for both buffers. -/
theorem alltoall_right_two : (∀ p < 2, ∃ code, doAlltoall 2 p request = some code) ∧
    ∀ s : State Nat Loc Nat, (machine 2 (prog 2 fun _ => request) Loc.rank).Reachable s →
      Right 2 request.block (fun _ => request) s := by
  have found : Algo.auto = .auto → ∀ p < 2, request.recvWin ≠ none := fun _ _ _ => nofun
  obtain ⟨ok, runs⟩ := @alltoall_right _ _ _ _ Nat _ _ request_accepted (by decide)
  exact ⟨ok.2 found, fun s h => (runs found s h).1⟩

end Right

/-- A request whose receive buffer lies in no window. -/
def outside : Request :=
  ⟨some 7, none, ⟨some 7, 0⟩, ⟨none, 32⟩, 1, 1, .int, .int, 4, .auto⟩

/-- With an automatic choice it is accepted, and the exchange fails. -/
theorem alltoall_not_right : Accepted 2 .auto 1 .int (fun _ => outside) ∧ ∀ p, doAlltoall 2 p outside = none := by
  refine ⟨?_, fun p => rfl⟩
  constructor
  case init => exact fun _ _ => ⟨⟨some 7, 0⟩, ⟨none, 32⟩, 1, .int, [window], rfl⟩
  case check => exact fun _ _ => by decide
  case send => exact fun _ _ _ _ _ => rfl
  case recv => exact fun _ _ _ _ _ => rfl
  case apart =>
    intro p _ i _ j _ same
    have win : some 7 = none := congrArg Loc.win same
    cases win

end Kupl.Shmc.Alltoall
