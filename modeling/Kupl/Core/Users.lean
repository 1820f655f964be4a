import Kupl.Core.Life

/-!
# The pool and its last user (`kupl_core.cpp`, `kupl_shm.cpp`)

The pool is initialised exactly while one of its users is up, in every run whose calls come in an order that the code
can stand: nobody goes down, and no initialisation fails, while the other is up. Each call that breaks this order uses
the pool after it was finalised, or finalises it while it has a user. When the core goes down its executors go before
the records of its mappings, whose memory is then not freed.
-/

namespace Kupl.Life
open List Option

variable {s s' s'' : State} {gives : Nat → Bool} {id : Nat} {o : Outcome}

namespace State

/-- The invariant: everything seen is fine, the buffers in use are mapped and apart, the pool is initialised exactly
while it has a user, there are executors while the core is up, windows have memory while both are up, and a core that is
up has its tasks of the loops. -/
structure Inv (s : State) : Prop where
  fine : s.Fine
  kept : s.Kept
  ids : (s.live.map (·.id)).Nodup
  pool : s.mpoolInited = (s.coreInited || s.shmInited)
  executors : s.executors = s.coreInited
  windows : ∀ b ∈ s.live, b.owner = .window → s.coreInited = true ∧ s.shmInited = true
  ult : s.coreInited = true → ∃ b ∈ s.live, b.owner = .ult ∧ s.ult = some b.id
  running : s.crashed = false

lemma Inv.good (I : Inv s) : s.Good := ⟨I.fine, fun b mem _ => I.kept b mem⟩

lemma Good.fine (G : s.Good) : s.Fine := G.log

lemma Init.inv (h : s.Init) : Inv s := by
  obtain ⟨core, shm, pool, executors, live, -, running, log⟩ := h
  refine ⟨?_, ?_, ?_, ?_, executors.trans core.symm, ?_, ?_, running⟩
  · rw [Fine, log]
    exact forall_mem_nil _
  · rw [Kept, live]
    exact forall_mem_nil _
  · rw [live]
    exact nodup_nil
  · rw [pool, core, shm]
    rfl
  · rw [live]
    exact forall_mem_nil _
  · rw [core]
    intro up
    cases up

/-- The pool is there, and nothing else has changed but for the tasks of the loops. -/
structure Opens (s s' : State) : Prop where
  core : s'.coreInited = s.coreInited
  shm : s'.shmInited = s.shmInited
  pool : s'.mpoolInited = true
  live : ∀ b ∈ s'.live, b.owner = .window → b ∈ s.live
  kept : s.Kept → s'.Kept
  ids : (s.live.map (·.id)).Nodup → (s'.live.map (·.id)).Nodup
  fine : s'.Fine ↔ s.Fine
  crashed : s'.crashed = s.crashed

lemma kuplMpoolInit_opens (s : State) : Opens s s.kuplMpoolInit :=
  ⟨rfl, rfl, rfl, fun _ h _ => h, id, id, .rfl, rfl⟩

namespace Opens

lemma uses (O : Opens s s') (U : Uses s' s'') : Opens s s'' where
  core := U.core.trans O.core
  shm := U.shm.trans O.shm
  pool := U.pool.trans O.pool
  live b mem own := O.live b (U.live b mem fun lost => by cases own.symm.trans lost) own
  kept K := U.kept (O.kept K)
  ids h := U.ids.nodup (O.ids h)
  fine := ⟨fun f => O.fine.1 (U.old f), fun f => U.fine O.pool (O.fine.2 f)⟩
  crashed := (U.crashed O.pool).trans O.crashed

lemma set (O : Opens s s') (executors : Bool) (ult : Option Nat) :
    Opens s { s' with executors := executors, ult := ult } :=
  ⟨O.core, O.shm, O.pool, O.live, O.kept, O.ids, O.fine, O.crashed⟩

end Opens

lemma alloc_up (up : s.mpoolInited = true) (b : Buffer) :
    s.alloc b = { s.use with live := b :: s.live, mapped := Function.update s.mapped b.chunk true } := by
  rw [alloc, if_pos up]

lemma Kept.alloc (K : s.Kept) (up : s.mpoolInited = true) (b : Buffer) : (s.alloc b).Kept := by
  rw [alloc_up up]
  intro c mem
  show Function.update s.mapped b.chunk true c.chunk = true
  by_cases same : c.chunk = b.chunk
  · rw [same, Function.update_self]
  · rw [Function.update_of_ne same]
    cases mem_cons.1 mem with
    | inl h => exact absurd (h ▸ rfl) same
    | inr h => exact K c h

variable {b : Buffer} {chunk : Nat} {owner : Owner}

lemma nodup_alloc (ids : (s.live.map (·.id)).Nodup) (up : s.mpoolInited = true)
    (new : s.fresh b.id = true) : ((s.alloc b).live.map (·.id)).Nodup := by
  rw [alloc_up up]
  refine nodup_cons.2 ⟨fun h => ?_, ids⟩
  obtain ⟨c, mem, same⟩ := mem_map.1 h
  exact of_decide_eq_true (all_eq_true.1 new c mem) same

lemma Opens.allocUlt (O : Opens s s') (new : s'.fresh id = true) : Opens s (s'.allocUlt id chunk) := by
  have alloc := alloc_up O.pool ⟨id, chunk, .ult⟩
  have U := O.uses s'.use_uses
  refine ⟨?_, ?_, ?_, fun b mem own => ?_, fun K => (O.kept K).alloc O.pool _,
    fun h => nodup_alloc (O.ids h) O.pool new, ?_, ?_⟩
  · rw [State.allocUlt, alloc]
    exact U.core
  · rw [State.allocUlt, alloc]
    exact U.shm
  · rw [State.allocUlt, alloc]
    exact U.pool
  · rw [State.allocUlt, alloc] at mem
    cases mem_cons.1 mem with
    | inl h =>
      rw [h] at own
      cases own
    | inr h => exact O.live b h own
  · rw [State.allocUlt, alloc]
    exact U.fine
  · rw [State.allocUlt, alloc]
    exact U.crashed

lemma Opens.pfInitFailed (O : Opens s s') (gives : Nat → Bool) (new : s'.admits o = true) :
    Opens s (s'.pfInitFailed gives o) := by
  cases o with
  | noUlt => exact ((O.uses (use_uses _)).set _ none).uses (kuplPfFini_uses _ gives)
  | sched id chunk => exact ((O.allocUlt new).uses (kuplGlobalUltFini_uses _ gives)).uses (kuplPfFini_uses _ gives)
  | egroups id chunk => exact (O.allocUlt new).uses (kuplPfFini_uses _ gives)
  | early | modules | loops | done => exact O.uses (kuplPfFini_uses _ gives)

lemma kuplInit_undone (gives : Nat → Bool) (undone : o.Undone) (new : s.admits o = true)
    (gone : s.executors = false) :
    ∃ s₁, Opens s s₁ ∧ s₁.executors = false ∧ s.kuplInit gives o = s₁.kuplMemoryModuleFini gives := by
  have O := s.kuplMpoolInit_opens
  have failed := (O.set true s.ult).pfInitFailed (o := o) gives new
  cases o with
  | early | done id chunk => exact undone.elim
  | modules => exact ⟨_, O, gone, rfl⟩
  | loops | noUlt | sched | egroups => exact ⟨_, failed.set false _, rfl, rfl⟩

/-- A call keeps the invariant under a condition, and without it something is seen that is not fine. -/
def Keeps (s' : State) (ok : Prop) : Prop := (ok → Inv s') ∧ (s'.Fine → ok)

lemma Ends.window {left : Bool} (E : Ends s s' left) (b : Buffer) (mem : b ∈ s'.live) (own : b.owner = .window) :
    b ∈ s.live := E.live b mem fun lost => by cases own.symm.trans lost

lemma Inv.no_windows (I : Inv s) (down : s.coreInited = false ∨ s.shmInited = false) :
    ∀ b ∈ s.live, b.owner ≠ .window := by
  intro b mem own
  obtain ⟨core, shm⟩ := I.windows b mem own
  cases down with
  | inl h =>
    rw [h] at core
    cases core
  | inr h =>
    rw [h] at shm
    cases shm

lemma Inv.both_down (core : s.coreInited = false) (shm : s.shmInited = false) (pool : s.mpoolInited = false)
    (executors : s.executors = false) (windows : ∀ b ∈ s.live, b.owner ≠ .window) (fine : s.Fine) (kept : s.Kept)
    (ids : (s.live.map (·.id)).Nodup)
    (running : s.crashed = false) : Inv s where
  fine := fine
  kept := kept
  ids := ids
  pool := by rw [pool, core, shm]; rfl
  executors := executors.trans core.symm
  windows b mem own := absurd own (windows b mem)
  ult up := by
    rw [core] at up
    cases up
  running := running

lemma Inv.undone (I : Inv s) (gives : Nat → Bool) (down : s.coreInited = false) (undone : o.Undone)
    (new : s.admits o = true) : Keeps (s.kuplInit gives o) (s.shmInited = false) := by
  obtain ⟨s₁, O, gone, same⟩ := kuplInit_undone gives undone new (I.executors.trans down)
  have E : Ends s₁ (s₁.kuplMemoryModuleFini gives) s₁.shmInited := kuplMemoryModuleFini_ends O.pool
  rw [same]
  refine ⟨fun alone => ?_, fun fine => O.shm.symm.trans (E.fine.1 fine).1⟩
  have fine : s₁.Fine := O.fine.2 I.fine
  exact .both_down (E.core.trans (O.core.trans down)) (E.shm.trans (O.shm.trans alone)) E.pool (E.executors.trans gone)
    (fun b mem own => I.no_windows (.inl down) b (O.live b (E.window b mem own) own) own)
    (E.fine.2 ⟨O.shm.trans alone, fine⟩) (E.kept (O.kept I.kept)) (E.ids.nodup (O.ids I.ids))
    (E.crashed.trans (O.crashed.trans I.running))

lemma Inv.done (I : Inv s) (down : s.coreInited = false) (new : s.fresh id = true) :
    Inv (s.kuplInit gives (.done id chunk)) := by
  have O : Opens s (s.kuplMpoolInit.startExecutors.allocUlt id chunk) :=
    (s.kuplMpoolInit_opens.set true s.ult).allocUlt new
  have live : (s.kuplMpoolInit.startExecutors.allocUlt id chunk).live = ⟨id, chunk, .ult⟩ :: s.live := by
    rw [allocUlt, alloc_up rfl]
    rfl
  refine ⟨O.fine.2 I.fine, O.kept I.kept, O.ids I.ids, O.pool, ?_, fun b mem own => ?_, fun _ => ?_,
    O.crashed.trans I.running⟩
  · show (s.kuplMpoolInit.startExecutors.allocUlt id chunk).executors = true
    rw [allocUlt, alloc_up rfl]
    rfl
  · exact absurd own (I.no_windows (.inl down) b (O.live b mem own))
  · refine ⟨⟨id, chunk, .ult⟩, ?_, rfl, rfl⟩
    show _ ∈ (s.kuplMpoolInit.startExecutors.allocUlt id chunk).live
    rw [live]
    exact mem_cons_self

lemma Inv.fini (I : Inv s) (gives : Nat → Bool) (up : s.coreInited = true) :
    Keeps (s.kuplFini gives) (s.shmInited = false) := by
  obtain ⟨s₀, is₀⟩ : ∃ s₀, s₀ = (s.freeAll gives .graph).kuplPfFini gives := ⟨_, rfl⟩
  obtain ⟨s₁, is₁⟩ : ∃ s₁, s₁ = s₀.kuplExecutorModuleFini.freeAll gives .mt := ⟨_, rfl⟩
  obtain ⟨s₂, is₂⟩ : ∃ s₂, s₂ = s₁.kuplMpoolFini gives s₁.shmInited := ⟨_, rfl⟩
  have U₀ : Uses s s₀ := by
    rw [is₀]
    exact (s.freeAll_uses gives .graph).trans (kuplPfFini_uses _ gives)
  have U₁ : Uses s₀.kuplExecutorModuleFini s₁ := by
    rw [is₁]
    exact freeAll_uses _ gives .mt
  have pool : s₀.mpoolInited = true := by rw [U₀.pool, I.pool, up, Bool.true_or]
  have E : Ends s₀.kuplExecutorModuleFini s₂ s₁.shmInited := by
    rw [is₂]
    exact .of_uses U₁ pool (kuplMpoolFini_ends (U₁.pool.trans pool))
  -- the pool is down, and so are the executors
  have L := s₂.leave_uses fun _ => true
  have memory : s₂.kuplMemoryModuleFini gives = s₂.leave fun _ => true := by
    rw [kuplMemoryModuleFini, kuplMemFini_gone E.executors]
    exact kuplMpoolFini_down (L.pool.trans E.pool)
  have same : s.kuplFini gives = { s₂.leave (fun _ => true) with coreInited := false } := by
    rw [kuplFini, if_pos up, ← memory, is₂, is₁, is₀]
  have left : s₁.shmInited = s.shmInited := U₁.shm.trans U₀.shm
  rw [left] at E
  have fine : s₀.Fine := U₀.fine (U₀.pool.symm.trans pool) I.fine
  refine ⟨fun alone => ?_, fun fine => ?_⟩
  · rw [same]
    refine .both_down rfl (E.shm.trans (U₀.shm.trans alone)) E.pool E.executors (fun b mem own => ?_)
      (E.fine.2 ⟨alone, fine⟩) (L.kept (E.kept (U₀.kept I.kept)))
      (L.ids.nodup (E.ids.nodup (U₀.ids.nodup I.ids)))
      (E.crashed.trans ((U₀.crashed (U₀.pool.symm.trans pool)).trans I.running))
    have notLost : b.owner ≠ .lost := fun lost => by cases own.symm.trans lost
    exact I.no_windows (.inr alone) b (U₀.live b (E.window b (L.live b mem notLost) own) notLost) own
  · rw [same] at fine
    exact (E.fine.1 (L.old fine)).1

lemma freeWindow_uses (up : s.coreInited = true) (guard : Option Outcome) : Uses s (s.freeWindow gives guard id) := by
  unfold freeWindow
  cases guard with
  | none => exact s.free_uses gives id
  | some o =>
    dsimp only
    rw [if_pos up]
    exact s.free_uses gives id

lemma kuplShmFinalCleanup_uses (up : s.coreInited = true) (guard : Nat → Option Outcome) :
    Uses s (s.kuplShmFinalCleanup gives guard) := by
  unfold kuplShmFinalCleanup
  generalize s.idsOf .window = l
  induction l generalizing s with
  | nil => exact .refl s
  | cons id l ih =>
    have U : Uses s (s.freeWindow gives (guard id) id) := freeWindow_uses up _
    exact U.trans (ih (U.core.trans up))

lemma kuplShmFinalCleanup_none (none : ∀ b ∈ s.live, b.owner ≠ .window) (guard : Nat → Option Outcome) :
    s.kuplShmFinalCleanup gives guard = s := by
  have nothing : s.idsOf .window = [] :=
    map_eq_nil_iff.2 (filter_eq_nil_iff.2 fun b mem => by simpa using none b mem)
  rw [kuplShmFinalCleanup, nothing]
  rfl

lemma Inv.shmFinalize (I : Inv s) (gives : Nat → Bool) (abnormal : Bool) (guard : Nat → Option Outcome)
    (up : s.shmInited = true) : Keeps (s.kuplShmFinalize gives abnormal guard) (s.coreInited = false) := by
  have pool : s.mpoolInited = true := by rw [I.pool, up, Bool.or_true]
  have same {t : State} (isT : (if abnormal then s else s.kuplShmFinalCleanup gives guard) = t) :
      s.kuplShmFinalize gives abnormal guard = { t.kuplMpoolFini gives t.coreInited with shmInited := false } := by
    rw [kuplShmFinalize, if_pos up, isT]
  refine ⟨fun down => ?_, fun fine => ?_⟩
  · have windows := I.no_windows (.inl down)
    have executors := I.executors.trans down
    have none : (if abnormal then s else s.kuplShmFinalCleanup gives guard) = s := by
      rw [kuplShmFinalCleanup_none windows, ite_self]
    have E : Ends s (s.kuplMpoolFini gives s.coreInited) s.coreInited := kuplMpoolFini_ends pool
    rw [same none]
    exact .both_down (E.core.trans down) rfl E.pool (E.executors.trans executors)
      (fun b mem own => windows b (E.window b mem own) own) (E.fine.2 ⟨down, I.fine⟩) (E.kept I.kept)
      (E.ids.nodup I.ids) (E.crashed.trans I.running)
  · cases core : s.coreInited with
    | false => rfl
    | true =>
      obtain ⟨t, isT⟩ : ∃ t, (if abnormal then s else s.kuplShmFinalCleanup gives guard) = t := ⟨_, rfl⟩
      have U : Uses s t := by
        rw [← isT]
        split
        · exact .refl s
        · exact kuplShmFinalCleanup_uses core guard
      have E : Ends t (t.kuplMpoolFini gives t.coreInited) t.coreInited := kuplMpoolFini_ends (U.pool.trans pool)
      rw [same isT] at fine
      exact ((U.core.trans core).symm.trans (E.fine.1 fine).1)

lemma Inv.uses (I : Inv s) (U : Uses s s') (pool : s.mpoolInited = true)
    (kept : ∀ b ∈ s.live, b.owner = .ult → b ∈ s'.live) : Inv s' where
  fine := U.fine pool I.fine
  kept := U.kept I.kept
  ids := U.ids.nodup I.ids
  pool := by rw [U.pool, U.core, U.shm, I.pool]
  executors := by rw [U.executors, U.core, I.executors]
  windows b mem own := by
    rw [U.core, U.shm]
    exact I.windows b (U.live b mem fun lost => by cases own.symm.trans lost) own
  ult up := by
    obtain ⟨b, mem, own, isB⟩ := I.ult (U.core.symm.trans up)
    exact ⟨b, kept b mem own, own, U.ult.trans isB⟩
  running := (U.crashed pool).trans I.running

lemma Inv.ready_pool (I : Inv s) (ready : s.ready owner = true) : s.mpoolInited = true := by
  rw [I.pool]
  cases owner with
  | window =>
    obtain ⟨shm, core⟩ := Bool.and_eq_true_iff.1 ready
    rw [core, Bool.true_or]
  | ult | lost => cases ready
  | graph | pf | mt | mapping | object =>
    have core : s.coreInited = true := ready
    rw [core, Bool.true_or]

lemma Inv.alloc (I : Inv s) (ready : s.ready owner = true) (new : s.fresh id = true) :
    Inv (s.alloc ⟨id, chunk, owner⟩) := by
  have pool := I.ready_pool ready
  have J : Inv s.use := I.uses s.use_uses pool fun _ mem _ => mem
  have kept := I.kept.alloc pool ⟨id, chunk, owner⟩
  have ids := nodup_alloc (b := ⟨id, chunk, owner⟩) I.ids pool new
  rw [alloc_up pool] at kept ids ⊢
  refine ⟨J.fine, kept, ids, J.pool, J.executors, fun b mem own => ?_, fun up => ?_, J.running⟩
  · cases mem_cons.1 mem with
    | inl h =>
      have isO : owner = .window := by rw [← own, h]
      rw [isO] at ready
      exact (Bool.and_eq_true_iff.1 ready).symm
    | inr h => exact J.windows b h own
  · obtain ⟨b, mem, own, isB⟩ := J.ult up
    exact ⟨b, mem_cons_of_mem _ mem, own, isB⟩

lemma Inv.free (I : Inv s) (pool : s.mpoolInited = true) (mem : b ∈ s.live) (own : b.owner ≠ .ult) :
    Inv (s.free gives b.id) := by
  refine I.uses (s.free_uses gives b.id) pool fun c memC ownC => free_keeps memC fun same => ?_
  rw [← inj_on_of_nodup_map I.ids memC mem same] at own
  exact own ownC

lemma frees_users (frees : s.frees true owner = true) : s.coreInited = true ∨ s.shmInited = true := by
  cases owner with
  | window => exact .inr (Bool.and_eq_true_iff.1 frees).1
  | object => exact .inl ((Bool.or_false _).symm.trans frees)
  | ult | lost => cases frees
  | graph | pf | mt | mapping => exact .inl frees

lemma Inv.shmInit {ok : Bool} (I : Inv s) (down : s.shmInited = false) : Inv (s.kuplShmInit ok) := by
  rw [kuplShmInit]
  split
  · refine ⟨I.fine, I.kept, I.ids, (Bool.or_true _).symm, I.executors, fun b mem own => ?_, I.ult, I.running⟩
    exact absurd own (I.no_windows (.inr down) b mem)
  · exact I

lemma Inv.replace (I : Inv s) (id : Nat) (up : s.coreInited = true) : Inv (s.leave (· = id)) := by
  refine I.uses (s.leave_uses _) (by rw [I.pool, up, Bool.true_or]) fun b mem own => ?_
  refine mem_map.2 ⟨b, mem, ?_⟩
  obtain same | ⟨mapping, -⟩ := (leave_cases (· = id) b).2.2
  · exact same
  · cases own.symm.trans mapping

/-- What keeps the order keeps the invariant, and nothing else does. -/
lemma Inv.step (I : Inv s) {a : Label} (h : s.act a = some s') : Keeps s' (Orderly s a) := by
  have sure {t : State} (J : Inv t) {P : Prop} (p : P) : Keeps t P := ⟨fun _ => J, fun _ => p⟩
  cases a with
  | init o gives =>
    obtain ⟨⟨down, new⟩, same⟩ := ite_none_right_eq_some.1 h
    obtain rfl := Option.some.inj same
    have undone (u : o.Undone) : Keeps (s.kuplInit gives o) (Orderly s (.init o gives)) := by
      obtain ⟨good, bad⟩ := I.undone gives down u new
      exact ⟨fun ok => good (ok u), fun fine _ => bad fine⟩
    cases o with
    | early => exact sure I nofun
    | done id chunk => exact sure (I.done down new) nofun
    | modules | loops | noUlt | sched | egroups => exact undone trivial
  | fini gives =>
    obtain rfl := Option.some.inj h
    cases up : s.coreInited with
    | false =>
      have same : s.kuplFini gives = s := by
        rw [kuplFini, up]
        rfl
      rw [same]
      refine sure I fun up' => ?_
      rw [up] at up'
      cases up'
    | true =>
      obtain ⟨good, bad⟩ := I.fini gives up
      exact ⟨fun ok => good (ok up), fun fine _ => bad fine⟩
  | shmInit ok =>
    obtain ⟨down, same⟩ := ite_none_left_eq_some.1 h
    obtain rfl := Option.some.inj same
    exact sure (I.shmInit (eq_false_of_ne_true down)) trivial
  | shmFinalize abnormal guard gives =>
    obtain rfl := Option.some.inj h
    cases up : s.shmInited with
    | false =>
      have same : s.kuplShmFinalize gives abnormal guard = s := by
        rw [kuplShmFinalize, up]
        rfl
      rw [same]
      refine sure I fun up' => ?_
      rw [up] at up'
      cases up'
    | true =>
      obtain ⟨good, bad⟩ := I.shmFinalize gives abnormal guard up
      exact ⟨fun ok => good (ok up), fun fine _ => bad fine⟩
  | alloc id owner chunk =>
    obtain ⟨ready, h⟩ := ite_none_right_eq_some.1 h
    cases chunk with
    | none =>
      obtain rfl := Option.some.inj h
      exact sure (I.uses s.use_uses (I.ready_pool ready) fun _ mem _ => mem) trivial
    | some c =>
      obtain ⟨new, same⟩ := ite_none_right_eq_some.1 h
      obtain rfl := Option.some.inj same
      exact sure (I.alloc ready new) trivial
  | free id guarded gives =>
    rw [act] at h
    cases find : s.live.find? (·.id = id) with
    | none =>
      rw [find] at h
      cases h
    | some b =>
      rw [find] at h
      obtain ⟨frees, same⟩ := ite_none_right_eq_some.1 h
      obtain rfl := Option.some.inj same
      have isB : b.id = id := of_decide_eq_true (List.find?_some (p := fun b : Buffer => decide (b.id = id)) find)
      have mem : b ∈ s.live := mem_of_find?_eq_some find
      subst isB
      have own : b.owner ≠ .ult := by
        intro own
        rw [own] at frees
        cases frees
      have users : s.mpoolInited = true ↔ s.coreInited = true ∨
        s.shmInited = true := by rw [I.pool, Bool.or_eq_true]
      refine ⟨fun ok => I.free (users.2 ?_) mem own, fun fine _ => users.1 (free_fine.1 fine).1⟩
      cases guarded with
      | false => exact ok rfl
      | true => exact frees_users frees
  | replace id =>
    obtain ⟨up, same⟩ := ite_none_right_eq_some.1 h
    obtain rfl := Option.some.inj same
    exact sure (I.replace id up) trivial

end State

/-- The invariant holds in every orderly run. -/
lemma inv_of_reach (h : machine.Reach Orderly s) : s.Inv := by
  refine h.inv (fun s => State.Init.inv) fun s a s' I orderly st => ?_
  have act : s.act a = some s' := (ite_none_left_eq_some.1 st).2
  exact (I.step act).1 orderly

/-- In the runs whose calls come in an order that the code can stand the pool is initialised whenever it is used, no
buffer of a user who is up is unmapped, and the pool is finalised for its last user only; and whatever call breaks this
order breaks that, too. -/
theorem pool_stands_iff (h : machine.Reach Orderly s) :
    s.Good ∧ ∀ a s', machine.step s a = some s' → (s'.Good ↔ Orderly s a) := by
  have I := inv_of_reach h
  refine ⟨I.good, fun a s' st => ?_⟩
  have act : s.act a = some s' := (ite_none_left_eq_some.1 st).2
  obtain ⟨good, bad⟩ := I.step act
  exact ⟨fun G => bad G.fine, fun ok => (good ok).good⟩

instance : (o : Outcome) → Decidable o.Undone
  | .early => isFalse not_false
  | .done _ _ => isFalse not_false
  | .modules => isTrue trivial
  | .loops => isTrue trivial
  | .noUlt => isTrue trivial
  | .sched _ _ => isTrue trivial
  | .egroups _ _ => isTrue trivial

instance (s : State) : (a : Label) → Decidable (Orderly s a)
  | .init o _ => inferInstanceAs (Decidable (o.Undone → s.shmInited = false))
  | .fini _ => inferInstanceAs (Decidable (s.coreInited = true → s.shmInited = false))
  | .shmFinalize _ _ _ => inferInstanceAs (Decidable (s.shmInited = true → s.coreInited = false))
  | .free _ guarded _ => inferInstanceAs (Decidable (guarded = false → s.coreInited = true ∨ s.shmInited = true))
  | .shmInit _ => isTrue trivial
  | .alloc _ _ _ => isTrue trivial
  | .replace _ => isTrue trivial

/-- Nothing has happened yet. -/
def start : State := ⟨false, false, false, false, [], fun _ => false, none, false, []⟩

lemma start_init : machine.init start := ⟨rfl, rfl, rfl, rfl, rfl, rfl, rfl, rfl⟩

/-- The shared memory comes and goes, then the core comes, after one failure, maps something and goes, and comes
again. -/
theorem pool_stands_iff_two : ∃ s, machine.Reach Orderly s ∧
    (s.coreInited = true ∧ ∃ b ∈ s.live, b.owner = .lost) ∧
    s.Good ∧ ∀ a s', machine.step s a = some s' → (s'.Good ↔ Orderly s a) := by
  refine Machine.shown_and [.shmInit true, .shmFinalize false (fun _ => none) fun _ => true,
    .init (.egroups 1 0) fun _ => true, .init (.done 1 0) fun _ => false, .alloc 2 .object (some 0),
    .alloc 3 .mapping (some 1), .free 2 true fun _ => true,
    .fini fun _ => false, .init (.done 4 0) fun _ => false] start_init (by decide +kernel) fun s h _ => ?_
  exact pool_stands_iff h

/-- The shared memory goes down while the core is up: the pool is finalised, and used after that. -/
theorem pool_stands_not : ∃ s, machine.Reachable s ∧ ¬ s.Good := by
  refine Machine.shown (P := fun s => .use false ∈ s.log) [.init (.done 1 0) fun _ => false, .shmInit true,
    .shmFinalize false (fun _ => none) fun _ => true, .alloc 2 .object none] start_init (by decide +kernel)
    fun s h used G => ?_
  cases G.log _ used

end Kupl.Life
