import Kupl.Bcast.Linear
import Kupl.Bcast.LinearOpt
import Kupl.Bcast.Ring
import Kupl.Bcast.TopoOpt
import Kupl.Bcast.Allgather
import Kupl.Script.Words

/-!
# The broadcasts (`kupl_do_bcast`)

All broadcasts of a request are done with one algorithm. Those that let the root wait for all others, or hand on what
all wait for, are right in every run.

The flags are signed words of 32 bits (`int`), which nothing resets between two broadcasts. As long as none overflows,
all waits are what they should be. The first overflow is that of the root, and the next rank then waits for a
notification that it has already been given.
-/

namespace Kupl.Bcast
open Script

/-- (C++ `kupl_shm_bcast_algo_t`). -/
inductive Algo where
  | auto
  | linear
  | linearOpt
  | topoAwareLinear
  | topoAwareLinearOpt
  | ringPipeline
  | linearScatterLinearAllgather
deriving DecidableEq

/-- The script of a rank (C++ `kupl_do_bcast`). -/
def doBcast (algo : Algo) (split numprocs dataSize root myid : Nat) : Code :=
  match algo with
  | .auto | .ringPipeline => Ring.doBcastRingPipeline numprocs dataSize root myid
  | .linear => Linear.doBcastLinear numprocs dataSize root myid
  | .linearOpt => LinearOpt.doBcastLinearOpt numprocs dataSize root myid
  | .topoAwareLinear => Topo.doBcastLinearTopo split numprocs dataSize root myid
  | .topoAwareLinearOpt => TopoOpt.doBcastLinearTopoOpt split numprocs dataSize root myid
  | .linearScatterLinearAllgather => Allgather.doBcastLinearScatterAllgather numprocs dataSize root myid

variable {α : Type} [Add α] {algo : Algo} {split n size root k : Nat} {s : State Flag Byte α}

/-- In every run in which no flag overflows the waits are what they should be. -/
theorem waits_kept (h : (machine32 n (doBcast algo split n size root) Prod.fst).Reach NoOverflow s) : Kept s :=
  (unbounded h).2.kept

/-- The second one of two ranks has been notified. -/
theorem waits_kept_two : ∃ s : State Flag Byte Nat,
    (machine32 2 (doBcast .linear 1 2 1 0) Prod.fst).Reach NoOverflow s ∧
    s.next 1 = some (.waitLt (othersFlags 0 1) (othersFlags 0 0)) ∧ s.count (othersFlags 0 0) = 1 ∧ Kept s := by
  refine Machine.shown_and₂ (s := .fresh fun l => l.1 + 5) [.enter 0, .enter 1, .run 0] ⟨init_fresh, fun _ => rfl⟩
    (by decide +kernel) fun s h _ _ => ?_
  exact waits_kept h

/-! ## A run that is long enough -/

/-- Both ranks have left `k` linear broadcasts. -/
structure Between (k : Nat) (s : State Flag Byte Nat) : Prop where
  out : s.pc 0 = none ∧ s.pc 1 = none
  others : s.count (othersFlags 0 0) = k ∧ s.count (othersFlags 0 1) = k
  root : s.count (rootFlags 0 0) = k ∧ s.count (rootFlags 0 1) = k

lemma script_root : doBcast .linear 1 2 1 0 0 = [.inc (othersFlags 0 0), .inc (rootFlags 0 0),
    .waitLe (rootFlags 0 0) (rootFlags 0 1)] := by
  decide

lemma script_other : doBcast .linear 1 2 1 0 1 = [.waitLt (othersFlags 0 1) (othersFlags 0 0), .inc (othersFlags 0 1),
    .copy (1, 0) (0, 0), .inc (rootFlags 0 1)] := by
  decide

lemma Between.next {s : State Flag Byte Nat} (B : Between k s) (low : k + 1 < 2 ^ 31) : ∃ s',
    (machine32 2 (doBcast .linear 1 2 1 0) Prod.fst).run (fun _ _ => True) s
    [.enter 0, .enter 1, .run 0, .run 1, .run 1,
      .run 1, .run 1, .ret 1, .run 0, .run 0, .ret 0] = some s' ∧ Between (k + 1) s' := by
  have less : shown k < shown (k + 1) := by
    rw [shown_low low, shown_low (by omega)]
    omega
  obtain ⟨⟨out₀, out₁⟩, ⟨others₀, others₁⟩, ⟨root₀, root₁⟩⟩ := B
  have ne₁ : othersFlags 0 1 ≠ othersFlags 0 0 := by decide
  have ne₂ : rootFlags 0 1 ≠ rootFlags 0 0 := by decide
  have ne₃ (p q : Nat) : rootFlags 0 p ≠ othersFlags 0 q := nofun
  have ne₄ (p q : Nat) : othersFlags 0 p ≠ rootFlags 0 q := nofun
  simp [Machine.run, machine32, step32, step, exec32, exec, script_root, script_other, out₀, out₁, Label.rank,
    Function.update,
    others₀, others₁, root₀, root₁, ne₁, ne₂, ne₂.symm, ne₃, less]
  refine ⟨⟨?_, ?_⟩, ⟨?_, ?_⟩, ⟨?_, ?_⟩⟩
  · simp
  · simp
  · simp [ne₁.symm, ne₄]
  · simp [ne₄]
  · simp
  · simp [ne₂]

lemma between (low : k < 2 ^ 31) : ∃ s, (machine32 2 (doBcast .linear 1 2 1 0) Prod.fst).Reachable s ∧
    Between k s := by
  induction k with
  | zero => exact ⟨.fresh fun l => l.1 + 5, .init ⟨init_fresh, fun _ => rfl⟩, ⟨rfl, rfl⟩, ⟨rfl, rfl⟩,
      ⟨rfl, rfl⟩⟩
  | succ k ih =>
    obtain ⟨s, h, B⟩ := ih (by omega)
    obtain ⟨s', run, B⟩ := B.next low
    exact ⟨s', h.run run, B⟩

/-- When the flag of the root has overflowed, the other rank does not see that it has been notified. -/
theorem waits_not_kept : ∃ s : State Flag Byte Nat,
    (machine32 2 (doBcast .linear 1 2 1 0) Prod.fst).Reachable s ∧ ¬ Kept s := by
  obtain ⟨s, h, ⟨⟨out₀, out₁⟩, ⟨others₀, others₁⟩, -⟩⟩ := between (k := 2 ^ 31 - 1) (by decide)
  have ne : othersFlags 0 1 ≠ othersFlags 0 0 := by decide
  have last : ∃ s', (machine32 2 (doBcast .linear 1 2 1 0) Prod.fst).run (fun _ _ => True) s
      [.enter 0, .enter 1, .run 0] = some s' ∧ s'.next 1 = some (.waitLt (othersFlags 0 1) (othersFlags 0 0)) ∧
      s'.count (othersFlags 0 1) = 2 ^ 31 - 1 ∧ s'.count (othersFlags 0 0) = 2 ^ 31 := by
    simp [Machine.run, machine32, step32, step, exec32, exec, script_root, script_other, out₀, out₁, Label.rank,
      Function.update, others₀, others₁, ne, State.next]
  obtain ⟨s', run, next, mine, theirs⟩ := last
  refine ⟨s', h.run run, fun K => ?_⟩
  have same := K 1 _ next
  have stuck : ¬ shown (2 ^ 31 - 1) < shown (2 ^ 31) := by decide
  rw [exec32, exec, mine, theirs, if_neg stuck, if_pos (by decide)] at same
  cases same

end Kupl.Bcast
