import Kupl.Fence.Within

/-!
# The memory of the fences when a window is allocated (`kupl_shm.cpp`)

| source | here |
|---|---|
| `kupl_shm_posix_win_alloc`, `kupl_shm_xpmem_win_alloc`, `kupl_shm_sls_win_alloc` until the exchange | `Label.alloc` |
| the return from `oob_allgather` | `Label.gathered` |
| `memset(baseptr, 0, size)` in `kupl_shm_fence_create` | `Label.zero` |
| the rest of `kupl_shm_fence_create` and `kupl_shm_win_alloc` | `Label.create`, `Label.fail` |
| `kupl_shm_fence_destroy` after a failure | `Label.scribble` |

Each rank allocates memory for its flags and meets the others in the exchange of the addresses, which returns on a rank
only when every rank has entered it; then the rank clears its memory, words in any order, and creates its fences.
Nothing keeps another rank, which has done so already, from reading the flags meanwhile. The file of the back end
`posix` is new and full of zeros, `sls` clears the memory before the exchange, and `xpmem` takes what the allocator
gives: `old`. A rank that fails after the exchange gives its memory back, and whoever gets it writes there; a file stays
as it is for the others. `seen` and `wrote` are for the observer only: the values read and, last first, those written in
fences.
-/

namespace Kupl.Fence.Create
open Function (update)

/-- (C++ `KUPL_SHM_POSIX`, `KUPL_SHM_XPMEM`, `KUPL_SHM_SLS`). -/
inductive Backend where
  | posix
  | xpmem
  | sls
  deriving DecidableEq

/-- Where a rank is: it has no memory yet; it has entered the exchange; it clears the memory; it has its fences; or it
has failed and given the memory back. -/
inductive Phase where
  | out
  | entered
  | zeroing
  | ready
  | dropped
  deriving DecidableEq

/-- A value that a rank read from the memory of some rank. -/
structure Seen where
  reader : Nat
  owner : Nat
  off : Nat
  value : Int

structure State where
  phase : Nat → Phase
  old : Window
  zeroed : Nat → Nat → Bool
  fences : Fences
  seen : List Seen
  wrote : Nat → Nat → List Int

/-- What a rank does until it has its fences, and a step in one. -/
inductive Label where
  | alloc (p : Nat)
  | gathered (p : Nat)
  | zero (p : Nat) (part : Nat → Bool)
  | create (p : Nat)
  | fail (p : Nat)
  | scribble (p off : Nat) (v : Int)
  | fence (a : Fence.Label)

namespace State
variable (n : Nat) (algo : Nat → Algo) (s : State) (p : Nat)

def goto (phase : Phase) : State := { s with phase := update s.phase p phase }

/-- Other contents of the memory of a rank. -/
def fill (words : Nat → Int) : State :=
  { s with fences := s.fences.withWin (update s.fences.win p words) }

def alloc (backend : Backend) : State :=
  match backend with
  | .xpmem => s.goto p .entered
  | .posix | .sls =>
    (s.fill p fun off => if off < fenceSize n then 0 else s.fences.win p off).goto p .entered

/-- A part of the memory is cleared (C++ `memset`). -/
def zero (part : Nat → Bool) : State :=
  { s.fill p fun off => if part off ∧ off < fenceSize n then 0 else s.fences.win p off with
    zeroed := update s.zeroed p fun off => s.zeroed p off || part off }

def note (a : Fence.Label) : List Seen :=
  match s.fences.get n algo a with
  | none => s.seen
  | some (q, off) => ⟨a.rank, q, off, s.fences.win q off⟩ :: s.seen

/-- What a step in a fence writes is noted. -/
def keep (a : Fence.Label) : Nat → Nat → List Int :=
  match s.fences.put n algo a with
  | none => s.wrote
  | some (off, v) => update s.wrote a.rank (update (s.wrote a.rank) off (v :: s.wrote a.rank off))

end State

def step (backend : Backend) (n : Nat) (algo : Nat → Algo) (s : State) : Label → Option State
  | .alloc p => if p < n ∧ s.phase p = .out then some (s.alloc n p backend) else none
  | .gathered p =>
    if p < n ∧ s.phase p = .entered ∧ ∀ q < n, s.phase q ≠ .out then some (s.goto p .zeroing) else none
  | .zero p part => if s.phase p = .zeroing then some (s.zero n p part) else none
  | .create p =>
    if s.phase p = .zeroing ∧ ∀ off < fenceSize n, s.zeroed p off = true then some (s.goto p .ready) else none
  | .fail p => if s.phase p = .zeroing then some (s.goto p .dropped) else none
  | .scribble p off v =>
    if s.phase p = .dropped ∧ backend ≠ .posix then some (s.fill p (update (s.fences.win p) off v)) else none
  | .fence a =>
    if s.phase a.rank = .ready then
      (s.fences.step n algo a).map fun f => { s with fences := f, seen := s.note n algo a, wrote := s.keep n algo a }
    else none

/-- No rank has memory, and the allocators have anything. -/
def start (w : Window) : State := ⟨fun _ => .out, w, fun _ _ => false, .start w, [], fun _ _ => []⟩

/-- The ranks allocate one window and go through fences on it. -/
def machine (backend : Backend) (n : Nat) (algo : Nat → Algo) : Machine State Label where
  init s := ∃ w, s = start w
  step := step backend n algo

/-- The fences with zeros in all memory whose rank has not got its fences yet. -/
def State.view (n : Nat) (s : State) : Fences :=
  s.fences.withWin fun q off => if s.phase q = .ready ∧ off < fenceSize n then s.fences.win q off else 0

/-- What another rank's flags show is 0 or was written in a fence; what was written last is still there; and the fences
are as if all flags had begun with 0. -/
structure Good (n : Nat) (algo : Nat → Algo) (s : State) : Prop where
  seen : ∀ r ∈ s.seen, r.owner ≠ r.reader → r.value = 0 ∨ r.value ∈ s.wrote r.owner r.off
  kept : ∀ p off v l, s.wrote p off = v :: l → s.fences.win p off = v
  zeros : (Fence.fences n algo).Reachable (s.view n)

/-- A word may be read: its rank has its fences; or it has not failed, and the word was cleared before or since the
exchange, or had nothing in it; or it has failed, and there is nothing in the word now. -/
def State.Shows (backend : Backend) (s : State) (q off : Nat) : Prop :=
  s.phase q = .ready ∨ s.phase q ≠ .dropped ∧ (backend ≠ .xpmem ∨ s.zeroed q off = true ∨
    s.old q off = 0) ∨
    s.phase q = .dropped ∧ s.fences.win q off = 0

/-- A rank reads from the memory of others only what may be read. -/
def Settled (backend : Backend) (n : Nat) (algo : Nat → Algo) (s : State) : Label → Prop
  | .fence a => ∀ q off, s.fences.get n algo a = some (q, off) → q ≠ a.rank → s.Shows backend q off
  | _ => True

end Kupl.Fence.Create
