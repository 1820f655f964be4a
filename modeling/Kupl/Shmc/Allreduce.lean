import Kupl.Shmc.Window
import Kupl.Script.Faulty
import Kupl.Script.Fence

/-!
# The sum over all ranks (`kupl_allreduce.cpp`)

The ranks fold those that are too many for a power of two into their neighbours, halve the range that each sums up in
every round, and then collect the halves in the opposite order. The function goes through up to four routines, each of
which returns a status, and two fences of all ranks; it looks at the statuses of the fences only.

| source | here |
|---|---|
| `kupl_shm_send`, `kupl_shm_recv`, `kupl_memcpy` | `shmSend`, `shmRecv`, `memcpy` |
| `reduce_op`, `dispatch_by_datatype` | `reduceOp`, `dispatchByDatatype` |
| `calc_offset`, `calc_hibit`, `calc_vrank` | `calcOffset`, `calcHibit`, `calcVrank`; `-1` is `none` |
| `do_pre_reduce_with_partial_process` | `doPreReduceWithPartialProcess` |
| `do_reduce_scatter_with_rh_algo` | `doReduceScatterWithRhAlgo` |
| `do_allgather_with_rd_algo` | `doAllgatherWithRdAlgo` |
| `do_post_allgather_with_partial_process` | `doPostAllgatherWithPartialProcess` |
| `do_allreduce_with_rb_rh_rd` | `doAllreduceWithRbRhRd` |
| `kupl_shm_win_query`, `kupl_memcpy` that may fail | `Op` |

A location is an element of a buffer. The fences are those that the windows of a request have; they succeed.
-/

namespace Kupl.Shmc.Allreduce
open Script Faulty

/-- (C++ `kupl_shm_allreduce_algo_t`). -/
inductive Algo where
  | auto
  | linear
  | rbRhRd

/-- (C++ `kupl_shm_reduce_op_t`). -/
inductive ReduceOp where
  | max
  | min
  | sum

/-- (C++ `kupl_shm_request_t` with `kupl_shm_allreduce_args_t`). -/
structure Request where
  sendWin : Nat
  recvWin : Nat
  sendbuf : Ptr
  recvbuf : Ptr
  count : Int
  op : ReduceOp
  datatype : Datatype
  typeSize : Int
  algo : Algo
  sOffset : Nat
  rOffset : Nat

/-- Counters of the fences (C++ `comm_fence`, `peer_fence`). -/
inductive Flag where
  | comm (win rank : Nat)
  | peer (win rank remote : Nat)
deriving DecidableEq

/-- What may fail (C++ `kupl_shm_win_query`, `kupl_memcpy`). -/
inductive Op where
  | winQuery (win remote : Nat)
  | memcpy

abbrev Code := List (Act Op Flag Loc)

/-- (C++ `(unsigned int)`). -/
def unsigned (x : Int) : Nat := (x % 2 ^ 32).toNat

def elem (buf : Loc) (size : Int) (i : Nat) : Loc := { buf with off := buf.off + size * i }

/-- (C++ `kupl_shm_fence`). -/
def shmFence (win commSize rank : Nat) : Code := (commFence (Flag.comm win) commSize rank).map .instr

/-- (C++ `kupl_shm_peer_fence`). -/
def shmPeerFence (win rank remote : Nat) : Code := (peerFence (Flag.peer win) rank remote).map .instr

/-- (C++ `kupl_memcpy`) of `size` bytes. -/
def memcpy (dst src : Loc) (typeSize : Int) (size : Nat) : Code :=
  .attempt .memcpy ::
    (List.range (size / typeSize.toNat)).map fun i => .instr (.copy (elem dst typeSize i) (elem src typeSize i))

/-- (C++ `kupl_shm_send`). -/
def shmSend (buf destbuf : Loc) (offset count : Nat) (typeSize : Int) : Code :=
  if count = 0 then []
  -- `SIZE_MAX / count < type_size` is never so: both have 32 bits
  else memcpy (elem destbuf typeSize offset) (elem buf typeSize offset) typeSize (unsigned (count * typeSize))

/-- (C++ `kupl_shm_recv`). -/
def shmRecv (buf sourceBuf : Loc) (offset count : Nat) (typeSize : Int) : Code :=
  if count = 0 then []
  else memcpy (elem buf typeSize offset) (elem sourceBuf typeSize offset) typeSize (unsigned (count * typeSize))

/-- (C++ `reduce_op`) of elements of `size` bytes. -/
def reduceOp (size : Int) (result buf1 buf2 : Loc) (offset copyCount : Nat) : Code :=
  let start := offset
  let end_ := (offset + copyCount) % 2 ^ 32
  (List.range' start (end_ - start)).map fun i =>
    .instr (.add (elem result size i) (elem buf1 size i) (elem buf2 size i))

/-- (C++ `dispatch_by_datatype`). -/
def dispatchByDatatype (datatype : Datatype) (result buf1 buf2 : Loc) (offset copyCount : Nat) : Code :=
  reduceOp (Shmc.typeSize datatype) result buf1 buf2 offset copyCount

/-- A turn of the loop of `calc_offset`. -/
def halve (rank i : Nat) (range : Nat × Nat) : Nat × Nat :=
  let mask := 1 <<< i
  let dest := rank ^^^ mask
  let mid := (range.1 + range.2) % 2 ^ 32 / 2
  if rank < dest then (range.1, mid) else ((mid + 1) % 2 ^ 32, range.2)

/-- (C++ `calc_offset`): `start` and `end`. -/
def calcOffset (rank : Nat) (count : Int) (step : Nat) : Nat × Nat :=
  (List.range (step + 1)).foldl (fun range i => halve rank i range) (0, unsigned (count - 1))

/-- The elements in a range, its end included (C++ `curr_end - curr_start + 1`). -/
def elements (range : Nat × Nat) : Nat := unsigned (range.2 - range.1 + 1)

/-- The loop of `calc_hibit`, from bit `start - 1` on. -/
def hibitFrom (value : Nat) : Nat → Nat
  | 0 => unsigned (-1)
  | start + 1 => if value &&& (1 <<< start) ≠ 0 then start else hibitFrom value start

/-- (C++ `calc_hibit`). -/
def calcHibit (value : Nat) : Nat := hibitFrom value 32

/-- (C++ `calc_vrank`). -/
def calcVrank (rank nprocsRem : Nat) : Option Nat :=
  if rank < 2 * nprocsRem then
    if rank % 2 ≠ 0 then none else some (rank / 2)
  else some (rank - nprocsRem)

/-- The rank of a virtual rank (C++ `dest`). -/
def destOf (vdest nprocsRem : Nat) : Nat := if vdest < nprocsRem then vdest * 2 else vdest + nprocsRem

namespace Request

/-- The buffers of a rank, and where it finds those of another one. -/
def send (r : Request) (rank : Nat) : Loc := r.sendbuf.at rank 0
def recv (r : Request) (rank : Nat) : Loc := r.recvbuf.at rank 0
def destSend (r : Request) (dest : Nat) : Loc := ⟨dest, some r.sendWin, r.sOffset⟩
def destRecv (r : Request) (dest : Nat) : Loc := ⟨dest, some r.recvWin, r.rOffset⟩

end Request

/-- (C++ `do_pre_reduce_with_partial_process`). -/
def doPreReduceWithPartialProcess (rank : Nat) (r : Request) : Code :=
  let range := calcOffset rank r.count 0
  if rank % 2 ≠ 0 then
    let dest := rank - 1
    .attempt (.winQuery r.sendWin dest) :: .attempt (.winQuery r.recvWin dest) :: (shmPeerFence r.sendWin rank dest ++
      dispatchByDatatype r.datatype (r.destRecv dest) (r.send rank) (r.destSend dest) range.1 (elements range))
  else
    let dest := rank + 1
    .attempt (.winQuery r.sendWin dest) :: (shmPeerFence r.sendWin rank dest ++
      dispatchByDatatype r.datatype (r.recv rank) (r.send rank) (r.destSend dest) range.1 (elements range))

/-- A turn of the loop of `do_reduce_scatter_with_rh_algo`. -/
def scatterTurn (rank : Nat) (r : Request) (mask step vrank nprocsRem : Nat) : Code :=
  let dest := destOf (vrank ^^^ mask) nprocsRem
  let rbProcessNum := 2 * nprocsRem
  let destWin := if mask = 1 ∧ dest ≥ rbProcessNum then r.sendWin else r.recvWin
  let destbuf : Loc := ⟨dest, some destWin, if destWin = r.recvWin then r.rOffset else r.sOffset⟩
  let localBuf := if mask = 1 ∧ rank ≥ rbProcessNum then r.send rank else r.recv rank
  let range := calcOffset vrank r.count (step - 1)
  .attempt (.winQuery destWin dest) :: (shmPeerFence r.recvWin rank dest ++
    dispatchByDatatype r.datatype (r.recv rank) localBuf destbuf range.1 (elements range))

/-- (C++ `do_reduce_scatter_with_rh_algo`); a mask has 32 bits. -/
def doReduceScatterWithRhAlgo (rank : Nat) (r : Request) (nprocsPof2 step vrank nprocsRem : Nat) : Code :=
  loop 32 1 step
where
  loop : Nat → Nat → Nat → Code
    | 0, _, _ => []
    | fuel + 1, mask, step =>
      if mask < nprocsPof2 then
        scatterTurn rank r mask step vrank nprocsRem ++ loop fuel (mask <<< 1) (step + 1)
      else []

/-- A turn of the loop of `do_allgather_with_rd_algo`. -/
def gatherTurn (rank : Nat) (r : Request) (mask step vrank nprocsRem : Nat) : Code :=
  let vdest := vrank ^^^ mask
  let dest := destOf vdest nprocsRem
  let range := calcOffset vdest r.count (step - 1)
  shmPeerFence r.recvWin rank dest ++ .attempt (.winQuery r.recvWin dest) ::
    shmRecv (r.recv rank) (r.destRecv dest) range.1 (elements range) r.typeSize

/-- (C++ `do_allgather_with_rd_algo`); a mask has 32 bits. -/
def doAllgatherWithRdAlgo (rank : Nat) (r : Request) (nprocsPof2 step vrank nprocsRem : Nat) : Code :=
  loop 32 (nprocsPof2 >>> 1) step
where
  loop : Nat → Nat → Nat → Code
    | 0, _, _ => []
    | fuel + 1, mask, step =>
      if mask > 0 then
        gatherTurn rank r mask step vrank nprocsRem ++ loop fuel (mask >>> 1) (step - 1)
      else []

/-- (C++ `do_post_allgather_with_partial_process`). -/
def doPostAllgatherWithPartialProcess (rank : Nat) (r : Request) : Code :=
  if rank % 2 = 0 then
    let dest := rank + 1
    .attempt (.winQuery r.recvWin dest) :: shmSend (r.recv rank) (r.destRecv dest) 0 (unsigned r.count) r.typeSize
  else []

/-- (C++ `do_allreduce_with_rb_rh_rd`). -/
def doAllreduceWithRbRhRd (commSize rank : Nat) (r : Request) : List (Routine Op Flag Loc) :=
  if commSize = 1 then [⟨true, memcpy (r.recv rank) (r.send rank) r.typeSize (r.count * r.typeSize).toNat⟩]
  else
    let nsteps := calcHibit commSize
    let nprocsPof2 := 1 <<< nsteps
    let nprocsRem := commSize - nprocsPof2
    let rbProcessNum := 2 * nprocsRem
    -- the statuses of the four routines are dropped
    (if rank < rbProcessNum then [⟨false, doPreReduceWithPartialProcess rank r⟩] else []) ++
    ⟨true, shmFence r.sendWin commSize rank⟩ ::
    ((match calcVrank rank nprocsRem with
      | none => []
      | some vrank => [⟨false, doReduceScatterWithRhAlgo rank r nprocsPof2 1 vrank nprocsRem⟩,
                       ⟨false, doAllgatherWithRdAlgo rank r nprocsPof2 nsteps vrank nprocsRem⟩]) ++
    (if rank < rbProcessNum then [⟨false, doPostAllgatherWithPartialProcess rank r⟩] else []) ++
    [⟨true, shmFence r.sendWin commSize rank⟩])

end Kupl.Shmc.Allreduce
