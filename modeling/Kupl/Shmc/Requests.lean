import Kupl.Links.Circle
import Kupl.Shmc.Alltoall

/-!
# Requests and their lists (`kupl_shmc.cpp`)

A communicator has a list of its requests. A request is put into it when it is initialised, and is released by
`kupl_shm_request_free`, by `kupl_shm_comm_destroy`, and by a `kupl_shm_request_start` that fails. `State.released` are
the requests that are released, by the number that each got when it was initialised; `State.fault` is set when memory is
used that is released. The program holds a request until it frees it or destroys its communicator.

| source | here |
|---|---|
| `kupl_list_init`, `kupl_list_insert_after`, `kupl_list_del` | `Links.init`, `State.insertAfter`, `State.del` |
| `kupl_safe_free(request)` | `State.safeFree` |
| `kupl_shm_comm_create`, `kupl_shm_comm_destroy` | `commCreate`, `commDestroy` |
| `kupl_shm_allreduce_init`, `kupl_shm_bcast_init`, `kupl_shm_alltoall_init` | `Call.args`, `requestInit` |
| `kupl_allreduce_request_check`, `kupl_bcast_request_check` | `allreduceRequestCheck`, `bcastRequestCheck` |
| `kupl_shm_request_start`, `kupl_shm_request_free` | `requestStart`, `requestFree` |

The results of `kupl_shm_init`, `kupl_malloc_inner`, `kupl_shm_win_alloc`, of the configuration and of
`kupl_do_allreduce`, `kupl_do_bcast`, `kupl_do_alltoall` are inputs. The global list of communicators is left out.
-/

namespace Kupl.Shmc.Requests
open Links
open Function (update)

/-! ## Arguments of requests -/

/-- (C++ `kupl_shm_reduce_op`). -/
inductive ReduceOp
  | max
  | min
  | sum
deriving DecidableEq

/-- (C++ `kupl_shm_allreduce_algo`). -/
inductive AllreduceAlgo
  | auto
  | linear
  | rbRhRd

/-- (C++ `kupl_shm_bcast_algo`). -/
inductive BcastAlgo
  | auto
  | linear
  | linearOpt
  | topoAwareLinear
  | topoAwareLinearOpt
  | ringPipeline
  | linearScatterLinearAllgather
deriving DecidableEq

/-- (C++ `kupl_shm_allreduce_args_t`). -/
structure AllreduceArgs where
  sendbuf : Option Ptr
  recvbuf : Option Ptr
  count : Int
  op : ReduceOp
  sendWin : Option Nat
  recvWin : Option Nat
  typeSize : Int
  algo : AllreduceAlgo

/-- (C++ `kupl_shm_bcast_args_t`, `kupl_shm_bcast_wins_t`). -/
structure BcastArgs where
  buffer : Option Ptr
  count : Int
  root : Int
  typeSize : Int
  win : Option Nat
  notifyRootWin : Option Nat
  notifyOthersWin : Option Nat
  p2pWin : Option Nat
  algo : BcastAlgo

/-- (C++ `kupl_shm_coll_args_t`). -/
inductive Args
  | bcast (args : BcastArgs)
  | allreduce (args : AllreduceArgs)
  | alltoall (args : Alltoall.Request)

/-- (C++ `kupl_shm_comm_t`). -/
structure Comm where
  size : Int
  rank : Int
  winList : List Win

/-- (C++ `kupl_shm_type_size`), also of a value that is no type. -/
def typeSizeOf : Option Datatype → Int
  | none => -1
  | some type => typeSize type

/-- (C++ `kupl_shm_allreduce_init` but for memory and list): the arguments, and the windows after it. -/
def allreduceArgs (comm : Comm) (sendbuf recvbuf : Option Ptr) (count : Int) (datatype : Option Datatype)
    (op : ReduceOp) (algo : AllreduceAlgo) : Option Args × List Win :=
  match sendbuf, recvbuf with
  | some send, some recv =>
    if count ≤ 0 ∨ op ≠ .sum then (none, comm.winList)
    else
      let (recvWin, wins) := findWin recv comm.winList
      let (sendWin, wins) := findWin send wins
      if recvWin.isNone || sendWin.isNone then (none, wins)
      else if typeSizeOf datatype = -1 then (none, wins)
      else (some (.allreduce { sendbuf, recvbuf, count, op, sendWin, recvWin, typeSize := typeSizeOf datatype,
                               algo := if comm.size = 1 then .rbRhRd else algo }), wins)
  | _, _ => (none, comm.winList)

/-- The algorithms that cannot have another root than rank 0 (both functions check this). -/
def bcastAlgo (root : Int) (algo : BcastAlgo) : BcastAlgo :=
  if (algo = .topoAwareLinear ∨ algo = .topoAwareLinearOpt) ∧ root ≠ 0 then .auto else algo

/-- (C++ `kupl_shm_win_free`) for a window of a communicator. -/
def winFree (win : Nat) (wins : List Win) : List Win := wins.eraseP fun w => w.id = win

/-- (C++ `kupl_shm_bcast_request_args_set`), with the windows that `kupl_shm_win_alloc` gives. -/
def bcastRequestArgsSet (buffer : Ptr) (count : Int) (datatype : Option Datatype) (root : Int) (algo : BcastAlgo)
    (win : Nat) (notifyRoot notifyOthers p2p : Option Win) (wins : List Win) : Option Args × List Win :=
  match notifyRoot, notifyOthers, p2p with
  | none, _, _ => (none, wins)
  | some notifyRoot, none, _ => (none, winFree notifyRoot.id (notifyRoot :: wins))
  | some notifyRoot, some notifyOthers, none =>
    (none, winFree notifyRoot.id (winFree notifyOthers.id (notifyOthers :: notifyRoot :: wins)))
  | some notifyRoot, some notifyOthers, some p2p =>
    let wins := p2p :: notifyOthers :: notifyRoot :: wins
    if typeSizeOf datatype = -1 then
      (none, winFree notifyRoot.id (winFree notifyOthers.id (winFree p2p.id wins)))
    else
      (some (.bcast { buffer := some buffer, count, root, typeSize := typeSizeOf datatype, win := some win,
                      notifyRootWin := some notifyRoot.id, notifyOthersWin := some notifyOthers.id,
                      p2pWin := some p2p.id, algo := bcastAlgo root algo }), wins)

/-- (C++ `kupl_shm_bcast_init` but for memory and list). -/
def bcastArgs (comm : Comm) (buffer : Option Ptr) (count : Int) (datatype : Option Datatype) (root : Int)
    (algo : BcastAlgo) (notifyRoot notifyOthers p2p : Option Win) : Option Args × List Win :=
  match buffer with
  | none => (none, comm.winList)
  | some buffer =>
    if count ≤ 0 ∨ root < 0 ∨ root ≥ comm.size then (none, comm.winList)
    else
      match findWin buffer comm.winList with
      | (none, wins) => (none, wins)
      | (some win, wins) => bcastRequestArgsSet buffer count datatype root algo win notifyRoot notifyOthers p2p wins

/-- (C++ `kupl_shm_alltoall_init` but for memory and list). -/
def alltoallArgs (comm : Comm) (sendbuf : Option Ptr) (sendcount : Int) (sendtype : Option Datatype)
    (recvbuf : Option Ptr) (recvcount : Int) (recvtype : Datatype) (algo : Alltoall.Algo) : Option Args × List Win :=
  match sendbuf, recvbuf with
  | some send, some recv =>
    match sendtype with
    | some type =>
      let (request, wins) := Alltoall.alltoallInit send sendcount type recv recvcount recvtype algo comm.winList
      (request.map .alltoall, wins)
    | none =>
      if sendcount ≤ 0 ∨ recvcount ≤ 0 then (none, comm.winList)
      else (none, (findWin send (findWin recv comm.winList).2).2)
  | _, _ => (none, comm.winList)

/-- (C++ `kupl_allreduce_request_check`), and the arguments after it. -/
def allreduceRequestCheck (comm : Comm) (r : AllreduceArgs) : Option AllreduceArgs :=
  if r.sendWin.isNone || r.recvWin.isNone then none
  else if r.op ≠ .sum then none
  else if ¬checkTypeSize r.typeSize then none
  else if r.count ≤ 0 then none
  else if r.sendbuf.isNone || r.recvbuf.isNone then none
  else some { r with algo := if comm.size = 1 then .rbRhRd else r.algo }

/-- (C++ `kupl_bcast_request_check`), and the arguments after it. -/
def bcastRequestCheck (comm : Comm) (r : BcastArgs) : Option BcastArgs :=
  if r.win.isNone || r.notifyOthersWin.isNone || r.notifyRootWin.isNone || r.p2pWin.isNone then none
  else if ¬checkTypeSize r.typeSize then none
  else if r.count ≤ 0 then none
  else if r.root < 0 ∨ r.root ≥ comm.size then none
  else if r.buffer.isNone then none
  else some { r with algo := bcastAlgo r.root r.algo }

/-- (C++ `KUPL_SHM_COMM_MAX_SIZE`). -/
def commMaxSize : Int := 1024

/-- Size and rank of a communicator (both functions check this). -/
def rangeOk (size rank : Int) : Bool := 0 < size ∧ size ≤ commMaxSize ∧ 0 ≤ rank ∧ rank < size

/-- (C++ `kupl_shm_request_param_check` and the check of the type), and the arguments after it. -/
def requestCheck (comm : Comm) (args : Args) : Option Args :=
  if ¬rangeOk comm.size comm.rank then none
  else
    match args with
    | .allreduce r => (allreduceRequestCheck comm r).map .allreduce
    | .bcast r => (bcastRequestCheck comm r).map .bcast
    | .alltoall r => if Alltoall.alltoallRequestCheck comm.size.toNat r then some (.alltoall r) else none

/-! ## Memory and lists -/

/-- The nodes of the lists (C++ `request_list` of a communicator, `list` of a request). -/
inductive Node
  | requestList (comm : Nat)
  | list (request : Nat)
deriving DecidableEq

/-- (C++ `kupl_shm_request_t`), with the number that it got. -/
structure Request where
  comm : Nat
  args : Args
  serial : Nat

/-- The communicators and requests in memory, by their addresses. -/
structure State where
  inited : Bool
  comms : Nat → Option Comm
  requests : Nat → Option Request
  links : Links Node
  held : Nat → Bool
  made : Nat
  released : List Nat
  fault : Bool

namespace State

/-- The memory of a node is not released. -/
def alive (s : State) : Node → Bool
  | .requestList c => (s.comms c).isSome
  | .list a => (s.requests a).isSome

/-- (C++ `kupl_list_insert_after`). -/
def insertAfter (s : State) (list elem : Node) : State :=
  if s.alive list && s.alive elem && s.alive (s.links.next list) then { s with links := s.links.insertAfter list elem }
  else { s with fault := true }

/-- (C++ `kupl_list_del`). -/
def del (s : State) (elem : Node) : State :=
  if s.alive elem && s.alive (s.links.prev elem) && s.alive (s.links.next elem) then
    { s with links := s.links.del elem }
  else { s with fault := true }

/-- Makes a request in new memory; the program holds it. -/
def make (s : State) (a c : Nat) (args : Args) : State :=
  { s with requests := update s.requests a (some ⟨c, args, s.made⟩), made := s.made + 1,
           held := update s.held a true }

/-- (C++ `kupl_safe_free`) of a request. -/
def safeFree (s : State) (a : Nat) : State :=
  match s.requests a with
  | none => { s with fault := true }
  | some r => { s with requests := update s.requests a none, released := r.serial :: s.released }

/-- Changes the windows of a communicator. -/
def setWins (s : State) (c : Nat) (f : List Win → List Win) : State :=
  { s with comms := update s.comms c ((s.comms c).map fun comm => { comm with winList := f comm.winList }) }

/-- (C++ `kupl_shm_win_free`) for a window of a request. -/
def freeWin (s : State) (c : Nat) : Option Nat → State
  | none => s
  | some win => if (s.comms c).isSome then s.setWins c (winFree win) else { s with fault := true }

end State

/-- How `kupl_shm_init` ends: well, or with an error before or after it has set `g_shm_inited`. -/
inductive ShmInit
  | ok
  | early
  | late
deriving DecidableEq

/-- Every function begins with `if (!g_shm_inited && kupl_shm_init() == KUPL_ERROR)`. -/
def enters (s : State) (up : ShmInit) : Bool := s.inited || up = .ok

/-- `g_shm_inited` after it. -/
def entered (s : State) (up : ShmInit) : State := { s with inited := s.inited || up ≠ .early }

/-- (C++ `kupl_shm_comm_create`). -/
def commCreate (s : State) (up : ShmInit) (size rank pid : Int) (args : Bool) (malloc : Option Nat) : State :=
  if ¬enters s up then entered s up
  else
    match malloc with
    | none => entered s up
    | some c =>
      if ¬rangeOk size rank ∨ pid < 0 ∨ args = false then entered s up
      else { entered s up with comms := update s.comms c (some ⟨size, rank, []⟩),
                               links := s.links.init (.requestList c) }

/-- What a function that initialises a request is called with. -/
inductive Call
  | allreduce (sendbuf recvbuf : Option Ptr) (count : Int) (datatype : Option Datatype) (op : ReduceOp)
    (algo : AllreduceAlgo)
  | bcast (buffer : Option Ptr) (count : Int) (datatype : Option Datatype) (root : Int) (algo : BcastAlgo)
    (notifyRoot notifyOthers p2p : Option Win)
  | alltoall (sendbuf : Option Ptr) (sendcount : Int) (sendtype : Option Datatype) (recvbuf : Option Ptr)
    (recvcount : Int) (recvtype : Datatype) (algo : Alltoall.Algo)

/-- The arguments of the request, and the windows after it. -/
def Call.args (comm : Comm) : Call → Option Args × List Win
  | .allreduce sendbuf recvbuf count datatype op algo => allreduceArgs comm sendbuf recvbuf count datatype op algo
  | .bcast buffer count datatype root algo notifyRoot notifyOthers p2p =>
    bcastArgs comm buffer count datatype root algo notifyRoot notifyOthers p2p
  | .alltoall sendbuf sendcount sendtype recvbuf recvcount recvtype algo =>
    alltoallArgs comm sendbuf sendcount sendtype recvbuf recvcount recvtype algo

/-- (C++ `kupl_shm_allreduce_init`, `kupl_shm_bcast_init`, `kupl_shm_alltoall_init`). -/
def requestInit (s : State) (up : ShmInit) (call : Call) (c : Nat) (malloc : Option Nat) : State :=
  if ¬enters s up then entered s up
  else
    match s.comms c, malloc with
    | some comm, some a =>
      let s := (entered s up).setWins c fun _ => (call.args comm).2
      match (call.args comm).1 with
      | none => s
      | some args => (s.make a c args).insertAfter (.requestList c) (.list a)
    | _, _ => entered s up

/-- (C++ `kupl_shm_request_start`); `phases` says whether the collective succeeds. -/
def requestStart (s : State) (up : ShmInit) (request : Option Nat) (phases : Bool) : State :=
  if ¬enters s up then entered s up
  else
    match request with
    | none => entered s up
    | some a =>
      match s.requests a with
      | none => { entered s up with fault := true }
      | some r =>
        match s.comms r.comm with
        | none => { entered s up with fault := true }
        | some comm =>
          match requestCheck comm r.args with
          | none => (entered s up).safeFree a
          | some args =>
            let s := { entered s up with requests := update s.requests a (some { r with args := args }) }
            if phases then s else s.safeFree a

/-- The windows of a request that `kupl_shm_request_free` frees. -/
def freeWins (s : State) (r : Request) : State :=
  match r.args with
  | .bcast args =>
    ((s.freeWin r.comm args.notifyRootWin).freeWin r.comm args.notifyOthersWin).freeWin r.comm args.p2pWin
  | _ => s

/-- (C++ `kupl_shm_request_free`). -/
def requestFree (s : State) (a : Nat) : State :=
  match s.requests a with
  | none => { s with fault := true }
  | some r => ((freeWins s r).del (.list a)).safeFree a

/-- The first loop of `kupl_shm_comm_destroy`. -/
def freeRequests (c : Nat) : Nat → Node → State → State
  | 0, _, s => { s with fault := true }
  | _ + 1, .requestList d, s => if d = c then s else { s with fault := true }
  | n + 1, .list a, s =>
    if s.alive (.list a) then freeRequests c n (s.links.next (.list a)) (requestFree s a) else { s with fault := true }

/-- (C++ `kupl_shm_comm_destroy`). A list has no more elements than requests were made. -/
def commDestroy (s : State) (c : Nat) : State :=
  let s := freeRequests c (s.made + 1) (s.links.next (.requestList c)) s
  { s with comms := update s.comms c none }

/-! ## The calls of a program -/

/-- The calls; `winAlloc` and `winFree` are those of the program itself. -/
inductive Action
  | create (up : ShmInit) (size rank pid : Int) (args : Bool) (malloc : Option Nat)
  | winAlloc (comm : Nat) (win : Win)
  | winFree (comm : Nat) (win : Nat)
  | init (up : ShmInit) (call : Call) (comm : Option Nat) (malloc : Option Nat)
  | start (up : ShmInit) (request : Option Nat) (phases : Bool)
  | free (request : Option Nat)
  | destroy (comm : Option Nat)

/-- A program uses the communicators that it has not destroyed and the requests that it has not freed, and new memory
is memory that is not in use. -/
def step (s : State) : Action → Option State
  | .create up size rank pid args malloc =>
    if malloc.all fun c => (s.comms c).isNone then some (commCreate s up size rank pid args malloc) else none
  | .winAlloc c win => if (s.comms c).isSome then some (s.setWins c (win :: ·)) else none
  | .winFree c win => if (s.comms c).isSome then some (s.setWins c (Requests.winFree win)) else none
  | .init up call comm malloc =>
    match comm with
    | none => some (entered s up)
    | some c =>
      if (s.comms c).isSome && malloc.all fun a => (s.requests a).isNone then some (requestInit s up call c malloc)
      else none
  | .start up request phases =>
    if request.all s.held then some (requestStart s up request phases) else none
  | .free request =>
    match request with
    | none => some s
    | some a => if s.held a then some { requestFree s a with held := update s.held a false } else none
  | .destroy comm =>
    match comm with
    | none => some s
    | some c =>
      if (s.comms c).isSome then
        some { commDestroy s c with
          held := fun a => s.held a && ¬(s.requests a).any fun r => r.comm = c }
      else none

/-- Nothing has been created yet. -/
def machine : Machine State Action where
  init s := s.inited = false ∧ s.comms = (fun _ => none) ∧ s.requests = (fun _ => none) ∧
    s.held = (fun _ => false) ∧
    s.made = 0 ∧ s.released = [] ∧ s.fault = false
  step := step

/-- The number of the request at an address. -/
def State.serial (s : State) (a : Nat) : Option Nat := (s.requests a).map Request.serial

/-- The requests of a communicator. -/
def Members (s : State) (c : Nat) (l : List Nat) : Prop :=
  ∀ a, a ∈ l ↔ ∃ r, s.requests a = some r ∧ r.comm = c

/-- The list of every communicator has exactly its requests that are initialised and not released, and every request
that was initialised has been released once, or is not released and still there. -/
structure Right (s : State) : Prop where
  sound : s.fault = false
  listed : ∀ c, (s.comms c).isSome → ∃ l, s.links.Circle (.requestList c) (l.map .list) ∧ Members s c l
  owned : ∀ a r, s.requests a = some r → (s.comms r.comm).isSome
  once : ∀ i < s.made, (s.released.count i = 1 ∧ ∀ a, s.serial a ≠ some i) ∨
    (s.released.count i = 0 ∧ ∃! a, s.serial a = some i)

/-- A start does not fail: the request passes its checks and the collective succeeds. -/
def succeeds (s : State) (a : Nat) (phases : Bool) : Bool :=
  (s.requests a).any (fun r => (s.comms r.comm).any fun comm => (requestCheck comm r.args).isSome) && phases

/-- Where the library is initialised, no request is started in vain. -/
def Starts (s : State) : Action → Prop
  | .start up (some a) phases => enters s up → succeeds s a phases
  | _ => True

instance starts_decidable (s : State) : (act : Action) → Decidable (Starts s act)
  | .start up (some a) phases => inferInstanceAs (Decidable (enters s up = true → succeeds s a phases = true))
  | .start _ none _ => isTrue trivial
  | .create .. => isTrue trivial
  | .winAlloc .. => isTrue trivial
  | .winFree .. => isTrue trivial
  | .init .. => isTrue trivial
  | .free _ => isTrue trivial
  | .destroy _ => isTrue trivial

end Kupl.Shmc.Requests
