import Kupl.Shmc.Allreduce
import Kupl.Script.Versions

/-!
# The sum over all ranks, one rank after the other (`do_allreduce_with_linear`)

Every rank copies its send buffer into its receive buffer and, between two fences, adds the send buffers of the others
to it. Nothing fails here.
-/

namespace Kupl.Shmc.Allreduce
open Script Faulty List

/-- (C++ `do_allreduce_with_linear`). -/
def doAllreduceWithLinear (commSize rank : Nat) (r : Request) : List (Routine Op Flag Loc) :=
  [⟨true, memcpy (r.recv rank) (r.send rank) r.typeSize (r.count * r.typeSize).toNat ++
    (shmFence r.sendWin commSize rank ++
    (((List.range commSize).filter (· != rank)).flatMap (fun i => .attempt (.winQuery r.sendWin i) ::
      dispatchByDatatype r.datatype (r.recv rank) (r.recv rank) (r.destSend i) 0 (unsigned r.count)) ++
    shmFence r.sendWin commSize rank))⟩]

namespace Request

/-- The elements of the send buffer of a rank, and of its receive buffer. -/
def sendAt (r : Request) (rank i : Nat) : Loc := ⟨rank, some r.sendWin, r.sOffset + r.typeSize * i⟩
def recvAt (r : Request) (rank i : Nat) : Loc := ⟨rank, some r.recvWin, r.rOffset + r.typeSize * i⟩

/-- The buffers lie in the windows that were found for them, have no byte in common, and no more bytes than an `int`
counts. -/
structure Ready (r : Request) : Prop where
  send : r.sendbuf = ⟨some r.sendWin, r.sOffset⟩
  recv : r.recvbuf = ⟨some r.recvWin, r.rOffset⟩
  size : r.typeSize = Shmc.typeSize r.datatype
  count : 0 < r.count
  fits : r.count * r.typeSize ≤ intMax
  apart : r.sendWin ≠ r.recvWin ∨ r.sOffset + r.count * r.typeSize ≤ r.rOffset ∨
    r.rOffset + r.count * r.typeSize ≤ r.sOffset

end Request

variable {n p q i j : Nat} {r : Request} {x : Instr Flag Loc} {l : Loc}

/-! ## The script of a rank -/

abbrev Script := List (Instr Flag Loc)

def prog (n : Nat) (r : Request) (p : Nat) : Script := script (doAllreduceWithLinear n p r)

def copies (r : Request) (p : Nat) : Script :=
  (List.range r.count.toNat).map fun i => .copy (r.recvAt p i) (r.sendAt p i)

def addOf (r : Request) (p q : Nat) : Script :=
  (List.range r.count.toNat).map fun i => .add (r.recvAt p i) (r.recvAt p i) (r.sendAt q i)

def sums (n : Nat) (r : Request) (p : Nat) : Script := ((List.range n).filter (· != p)).flatMap (addOf r p)

def isInstr {O C L : Type} : Act O C L → Option (Instr C L)
  | .instr x => some x
  | .attempt _ => none

lemma instrs_eq {O C L : Type} (acts : List (Act O C L)) : instrs acts = acts.filterMap isInstr := by
  induction acts with
  | nil => rfl
  | cons a acts ih =>
    cases a with
    | instr x => exact congrArg (x :: ·) ih
    | attempt => exact ih

section Ready
variable (ok : r.Ready)
include ok

lemma size_pos : 0 < r.typeSize := ok.size ▸ typeSize_pos

/-- A rank copies its own vector, and adds those of the others between two fences. -/
lemma prog_parts (p : Nat) : prog n r p = copies r p ++ (commFence (Flag.comm r.sendWin) n p ++
    (sums n r p ++ commFence (Flag.comm r.sendWin) n p)) := by
  have pos := size_pos ok
  have count := ok.count
  have lt : r.count < 2 ^ 31 := by
    have one := Int.mul_le_mul_of_nonneg_left pos count.le
    have fits := ok.fits
    unfold intMax at fits
    omega
  have words : unsigned r.count = r.count.toNat := by
    unfold unsigned
    omega
  have elems : (r.count * r.typeSize).toNat / r.typeSize.toNat = r.count.toNat := by
    rw [Int.toNat_mul count.le pos.le]
    exact Nat.mul_div_cancel _ (by omega)
  have whole : (0 + r.count.toNat) % 2 ^ 32 - 0 = r.count.toNat := by omega
  have sendAt p i : elem (r.send p) r.typeSize i = r.sendAt p i := by
    simp [elem, Request.send, Request.sendAt, Ptr.at, ok.send]
  have recvAt p i : elem (r.recv p) r.typeSize i = r.recvAt p i := by
    simp [elem, Request.recv, Request.recvAt, Ptr.at, ok.recv]
  have destAt q i : elem (r.destSend q) r.typeSize i = r.sendAt q i := rfl
  simp only [prog, doAllreduceWithLinear, script, flatMap_cons, flatMap_nil, append_nil, memcpy,
    shmFence, dispatchByDatatype, reduceOp, ← ok.size, words, whole, elems, sendAt, recvAt, destAt, instrs_eq,
    filterMap_append, filterMap_cons, filterMap_map, filterMap_flatMap, ← range_eq_range',
    Function.comp_def, isInstr, filterMap_some, filterMap_eq_map']
  rfl

/-- A rank copies, adds, or is at a fence. -/
lemma of_mem (mem : x ∈ prog n r p) : (∃ i < r.count.toNat, x = .copy (r.recvAt p i) (r.sendAt p i)) ∨
    (∃ q < n, q ≠ p ∧ ∃ i < r.count.toNat, x = .add (r.recvAt p i) (r.recvAt p i) (r.sendAt q i)) ∨
    x = .inc (.comm r.sendWin p) ∨ ∃ i < n, x = .waitLe (.comm r.sendWin p) (.comm r.sendWin i) := by
  simp only [prog_parts ok, copies, sums, addOf, commFence, mem_append, mem_flatMap, mem_map,
    mem_cons, mem_filter, mem_range, bne_iff_ne, and_assoc, eq_comm (b := x)] at mem
  obtain mem | mem | mem | mem := mem
  · exact .inl mem
  · exact .inr (.inr mem)
  · exact .inr (.inl mem)
  · exact .inr (.inr mem)

/-- The elements of the receive buffers are apart. -/
lemma recvAt_inj (same : r.recvAt p i = r.recvAt q j) : p = q ∧ i = j := by
  obtain ⟨rank, -, off⟩ := Loc.mk.inj same
  exact ⟨rank, by exact_mod_cast Int.eq_of_mul_eq_mul_left (size_pos ok).ne' (add_left_cancel off)⟩

/-- What is sent is not where anything is received. -/
lemma send_ne_recv (lt : i < r.count.toNat) (lt_j : j < r.count.toNat) : r.sendAt p i ≠ r.recvAt q j := by
  intro same
  obtain ⟨-, win, off⟩ := Loc.mk.inj same
  have pos := size_pos ok
  have inside {k : Nat} (lt : k < r.count.toNat) :
      0 ≤ r.typeSize * k ∧ r.typeSize * k + r.typeSize ≤ r.count * r.typeSize := by
    have room := Int.mul_le_mul_of_nonneg_left (show (k + 1 : Int) ≤ r.count by omega) pos.le
    rw [Int.mul_add, Int.mul_one, Int.mul_comm _ r.count] at room
    exact ⟨Int.mul_nonneg pos.le (Int.natCast_nonneg k), room⟩
  have := inside lt
  have := inside lt_j
  obtain ne | le := ok.apart
  · exact ne (Option.some.inj win)
  · omega

/-- A rank writes to its own receive buffer only. -/
lemma prog_dst (mem : x ∈ prog n r p) (dst : x.dst = some l) : ∃ i < r.count.toNat, l = r.recvAt p i := by
  obtain ⟨i, lt, rfl⟩ | ⟨q, -, -, i, lt, rfl⟩ | rfl | ⟨i, -, rfl⟩ := of_mem ok mem
  · exact ⟨i, lt, (Option.some.inj dst).symm⟩
  · exact ⟨i, lt, (Option.some.inj dst).symm⟩
  · cases dst
  · cases dst

/-! ## What a script adds up -/

variable {α : Type} [AddCommMonoid α] {mem : Loc → α}

section Elems
variable {f : Nat → Instr Flag Loc} (lt : i < r.count.toNat) (dst : ∀ j, (f j).dst = some (r.recvAt p j))
include lt dst

/-- What is sent stays. -/
lemma after_send : after mem ((List.range r.count.toNat).map f) (r.sendAt q i) = mem (r.sendAt q i) := by
  refine after_of_ne fun x isX same => ?_
  obtain ⟨j, isJ, rfl⟩ := mem_map.1 isX
  exact send_ne_recv ok lt (mem_range.1 isJ) (Option.some.inj (same.symm.trans (dst j)))

/-- An element received is what the instruction for it makes of it. -/
lemma after_recv (srcs : ∀ l ∈ (f i).srcs, l = r.recvAt p i ∨ ∃ q, l = r.sendAt q i) :
    after mem ((List.range r.count.toNat).map f) (r.recvAt p i) = effect mem (f i) (r.recvAt p i) := by
  refine after_each lt (dst i) fun j lt_j ne l isL same => ?_
  obtain rfl := Option.some.inj ((dst j).symm.trans same)
  obtain same | ⟨q, same⟩ := (mem_cons.1 isL).elim .inl (srcs _)
  · exact ne (recvAt_inj ok same).2
  · exact send_ne_recv ok lt lt_j same.symm

end Elems

/-- Additions add what the ranks send. -/
lemma after_sums (lt : i < r.count.toNat) (qs : List Nat) :
    after mem (qs.flatMap (addOf r p)) (r.recvAt p i) =
      mem (r.recvAt p i) + (qs.map fun q => mem (r.sendAt q i)).sum := by
  induction qs generalizing mem with
  | nil => exact (add_zero _).symm
  | cons q qs ih =>
    have once : after mem (addOf r p q) (r.recvAt p i) = mem (r.recvAt p i) + mem (r.sendAt q i) :=
      (after_recv ok lt (fun _ => rfl) (by simpa [Instr.srcs] using .inr ⟨_, rfl⟩)).trans (Function.update_self ..)
    have kept q' : after mem (addOf r p q) (r.sendAt q' i) = mem (r.sendAt q' i) := after_send ok lt fun _ => rfl
    simp only [flatMap_cons, after_append, ih, once, kept, map_cons, sum_cons, add_assoc]

/-- The script of a rank leaves the sum in its buffer. -/
lemma after_prog (lt_p : p < n) (lt : i < r.count.toNat) :
    after mem (prog n r p) (r.recvAt p i) = ((List.range n).map fun q => mem (r.sendAt q i)).sum := by
  have fence {l} (mem : Loc → α) : after mem (commFence (Flag.comm r.sendWin) n p) l = mem l := by
    refine after_of_ne fun x isX dst => ?_
    obtain rfl | ⟨_, _, rfl⟩ := mem_commFence isX <;> cases dst
  have once : after mem (copies r p) (r.recvAt p i) = mem (r.sendAt p i) :=
    (after_recv ok lt (fun _ => rfl) (by simpa [Instr.srcs] using .inr ⟨_, rfl⟩)).trans (Function.update_self ..)
  have kept q : after mem (copies r p) (r.sendAt q i) = mem (r.sendAt q i) := after_send ok lt fun _ => rfl
  have all : List.Perm (List.range n) (p :: (List.range n).filter (· != p)) := by
    rw [← nodup_range.erase_eq_filter]
    exact perm_cons_erase (mem_range.2 lt_p)
  simp only [prog_parts ok, after_append, sums, after_sums ok lt, fence, once, kept, (all.map _).sum_eq, map_cons,
    sum_cons]

/-! ## Runs -/

variable {s : Script.State Flag Loc α} {g : Script.State Flag Loc α → Script.Label Loc α → Prop}

def rankOf : Flag → Nat
  | .comm _ rank | .peer _ rank _ => rank

/-- A rank counts for itself only. -/
lemma mine {c : Flag} (mem : .inc c ∈ prog n r p) : rankOf c = p := by
  obtain ⟨_, _, is⟩ | ⟨_, _, _, _, _, is⟩ | is | ⟨_, _, is⟩ := of_mem ok mem
  all_goals cases is
  rfl

/-- The script has two phases, each with a fence behind it. -/
lemma phases : Phases (prog n r) (Flag.comm r.sendWin) n (copies r) (sums n r) := by
  refine ⟨fun p _ => prog_parts ok p, fun p _ => count_eq_zero.2 fun mem => ?_,
    fun p _ => count_eq_zero.2 fun mem => ?_⟩
  · simp [copies] at mem
  · simp [sums, addOf] at mem

/-- A call has two fences. -/
lemma fenced : Fenced (prog n r) (Flag.comm r.sendWin) n 2 := by
  refine ⟨fun p a b mem => ?_, fun p a mem => ?_, fun p a b mem => ?_, fun p lt => (phases ok).count lt⟩
  · obtain ⟨_, _, is⟩ | ⟨_, _, _, _, _, is⟩ | is | ⟨_, _, is⟩ := of_mem ok mem <;> cases is
  · obtain ⟨_, _, is⟩ | ⟨_, _, _, _, _, is⟩ | is | ⟨_, _, is⟩ := of_mem ok mem <;> cases is
  · obtain ⟨_, _, is⟩ | ⟨_, _, _, _, _, is⟩ | is | ⟨i, lt, is⟩ := of_mem ok mem
    all_goals cases is
    exact ⟨rfl, i, lt, rfl⟩

/-- A rank reads its own memory, or what nobody writes of one who is in the same call. -/
lemma reads (h : (machine n (prog n r) Loc.rank).Reach g s) {d t : Script} (at_p : s.pc p = some (d, x :: t))
    (src : l ∈ x.srcs) : l.rank = p ∨ s.Inside l.rank (s.left p) ∧ ∀ q y, y ∈ prog n r q →
      y.dst ≠ some l := by
  have whole := split h p d _ at_p
  have mem : x ∈ prog n r p := whole ▸ mem_append_right d mem_cons_self
  obtain ⟨i, -, rfl⟩ | ⟨q, lt_q, -, i, lt, rfl⟩ | rfl | ⟨_, _, rfl⟩ := of_mem ok mem
  · cases mem_singleton.1 src
    exact .inl rfl
  · obtain rfl | src := mem_cons.1 src
    · exact .inl rfl
    cases mem_singleton.1 src
    refine .inr ⟨?_, fun p y mem dst => ?_⟩
    · -- it is between the fences
      have notFence : Instr.add (r.recvAt p i) (r.recvAt p i) (r.sendAt q i) ∉ commFence
        (Flag.comm r.sendWin) n p := by
        simp [commFence]
      rw [prog_parts ok] at whole
      obtain ⟨d, rfl, rest⟩ := split_right whole (by simp [copies])
      obtain ⟨d, rfl, last⟩ := split_right rest.symm notFence
      obtain ⟨t', isSums, -⟩ := split_left last.symm notFence
      have lt_p := rank_lt h (by rw [at_p]; exact Option.some_ne_none _)
      have few := (phases ok).second p lt_p
      rw [isSums, count_append] at few
      exact ((phases ok).inside h (fun _ _ => mine ok) (fun _ => rfl) at_p (by omega) lt_p lt_q).1
    · obtain ⟨j, lt_j, same⟩ := prog_dst ok mem dst
      exact send_ne_recv ok lt lt_j same
  · cases src
  · cases src

/-- What a state promises: who is about to return has the sum of what all had when they came to the same call; and only
receive buffers are written to. -/
structure Summed (n : Nat) (r : Request) (s : Script.State Flag Loc α) : Prop where
  returns : ∀ p d, s.pc p = some (d, []) → ∀ i < r.count.toNat,
    (∀ q < n, s.Has q (s.left p) (.copy (r.recvAt q i) (r.sendAt q i))) ∧
    s.val (r.recvAt p i) = ((List.range n).map fun q => s.seen q (s.left p) (r.sendAt q i)).sum
  writes : ∀ p d x t l, s.pc p = some (d, x :: t) → x.dst = some l → ∃ i < r.count.toNat, l = r.recvAt p i

/-- In every run each rank returns from a call with the sum of the elements of all ranks, whatever the order of their
steps; and all ranks that have come to a call can return from it. -/
theorem linear_summed (h : (machine n (prog n r) Loc.rank).Reachable s) : Summed n r s ∧
    ∀ k, (∀ p < n, Came s p k) → ∃ as s',
      (machine n (prog n r) Loc.rank).run (fun _ _ => True) s as = some s' ∧ ∀ p < n, k < s'.left p := by
  have own {s : Script.State Flag Loc α} (h : (machine n (prog n r) Loc.rank).Reachable s) {p d x t l}
      (at_p : s.pc p = some (d, x :: t)) (dst : x.dst = some l) : ∃ i < r.count.toNat, l = r.recvAt p i :=
    prog_dst ok (split h p d _ at_p ▸ mem_append_right d mem_cons_self) dst
  refine ⟨⟨fun p d at_p i lt => ?_, fun p d x t l => own h⟩,
    fun k came => (fenced ok).returns (fun _ _ => mine ok) (fun _ => rfl) h came⟩
  have lt_p := rank_lt h (by rw [at_p]; exact Option.some_ne_none _)
  refine ⟨fun q lt_q => ?_, ?_⟩
  · refine (phases ok).all_done h (fun _ _ => mine ok) (fun _ => rfl) at_p lt_p lt_q (.inl ?_)
    exact mem_map.2 ⟨i, mem_range.2 lt, rfl⟩
  · have val := alone (fun q x l mem dst => ?_) (fun s h q d x t l at_q src => reads ok h at_q src) h p d [] at_p _
      (fun _ _ => rfl) (r.recvAt p i) rfl
    · have all := split h p d [] at_p
      rw [append_nil] at all
      rw [val, all, after_prog ok lt_p lt]
      rfl
    · obtain ⟨j, -, rfl⟩ := prog_dst ok mem dst
      rfl

end Ready

/-- Two elements each. -/
def summands : Request := ⟨7, 7, ⟨some 7, 0⟩, ⟨some 7, 32⟩, 2, .sum, .int, 4, .linear, 0, 32⟩

/-- Two ranks, the first of which has come to its end. -/
theorem linear_summed_two : ∃ s : Script.State Flag Loc Int, (machine 2 (prog 2 summands) Loc.rank).Reachable s ∧
    (s.pc 0).map Prod.snd = some [] ∧ s.val (summands.recvAt 0 1) = 9 ∧ Summed 2 summands s := by
  refine Machine.shown_and₂ (s := .fresh fun l => l.rank + l.off) ([.enter 0, .enter 1, .run 0, .run 0, .run 0] ++
    List.replicate 8 (.run 1) ++ List.replicate 7 (.run 0)) init_fresh (by decide +kernel) fun s h _ _ => ?_
  exact (linear_summed ⟨rfl, rfl, rfl, by decide, by decide, by decide⟩ h).1

end Kupl.Shmc.Allreduce
