import Kupl.Dag.Failing
import Kupl.Machine.Run

/-!
# What a submission that fails leaves behind

`src/mt/kupl_dag.cpp`: dependencies are entered one after another, and an error gives back nothing. A list of
dependencies is `Traceless` when the error comes before anything was entered; otherwise a mark stays: an entry for a new
address, the name of the task in an entry, or an edge that leads to it (`processPtrs_marked`).

Nodes that nothing names stay so whatever other tasks enter (`Unlinked`), and two graphs that differ in counters of such
a node take the same submissions with the same answers (`Apart`).
-/

namespace Kupl.Dag
open List

variable {τ : Type*} [DecidableEq τ]

/-! ### Edges -/

/-- Two states of the nodes that differ in how many successors a node says it has, and in the node `t`. -/
structure Apart (t : τ) (g g' : τ → Gnode τ) : Prop where
  succs : succs g' = succs g
  count : ∀ x, x ≠ t → (g' x).nPredecessors = (g x).nPredecessors

section Edges
variable {finished : τ → Bool} {g g' : τ → Gnode τ} {t x p q : τ} {l : Bool} {o : Option τ}
  {link : Nat → Bool}
  {ps : List (Option τ)}

lemma succs_linkInsert : succs (linkInsert l g p x) = if l then succs (gnodeInsert g p x) else succs g := by
  unfold linkInsert
  cases l with
  | true => rfl
  | false =>
    funext q
    by_cases same : q = p
    · subst same
      simp [succs]
    · simp [succs, same]

lemma nPredecessors_linkInsert : (linkInsert l g p x q).nPredecessors = (g q).nPredecessors := by
  unfold linkInsert
  cases l with
  | true => exact nPredecessors_insert
  | false =>
    by_cases same : q = p
    · subst same
      simp
    · simp [same]

lemma mem_succs_precedeLink (h : t ∈ succs (precedeLink l finished g o x).1 q) :
    t ∈ succs g q ∨ t = x ∧ o = some q := by
  unfold precedeLink at h
  cases o with
  | none => exact .inl h
  | some p =>
    dsimp only at h
    split at h
    · exact .inl h
    rw [succs_count, succs_linkInsert] at h
    split at h
    · rw [succs_insert] at h
      by_cases same : q = p
      · subst same
        rw [Function.update_self, mem_cons] at h
        exact h.symm.imp_right fun isX => ⟨isX, rfl⟩
      · rw [Function.update_of_ne same] at h
        exact .inl h
    · exact .inl h

lemma succs_precedeLink_sub (h : t ∈ succs g q) : t ∈ succs (precedeLink l finished g o x).1 q := by
  unfold precedeLink
  cases o with
  | none => exact h
  | some p =>
    dsimp only
    split
    · exact h
    rw [succs_count, succs_linkInsert]
    split
    · rw [succs_insert]
      by_cases same : q = p
      · subst same
        rw [Function.update_self]
        exact mem_cons_of_mem _ h
      · rw [Function.update_of_ne same]
        exact h
    · exact h

lemma succs_precedeLink_self (live : finished p = false) (room : l = true) :
    x ∈ succs (precedeLink l finished g (some p) x).1 p := by
  unfold precedeLink
  dsimp only
  rw [live, room, if_neg nofun, succs_count, succs_linkInsert, if_pos rfl, succs_insert, Function.update_self]
  exact mem_cons_self

lemma mem_succs_precedeLinks (h : t ∈ succs (precedeLinks finished g x link ps).1 q) :
    t ∈ succs g q ∨ t = x ∧ some q ∈ ps := by
  induction ps generalizing g link with
  | nil => exact .inl h
  | cons o ps ih =>
    obtain old | ⟨isX, mem⟩ := ih h
    · exact (mem_succs_precedeLink old).imp_right fun ⟨isX, isO⟩ => ⟨isX, by rw [isO]; exact mem_cons_self⟩
    · exact .inr ⟨isX, mem_cons_of_mem _ mem⟩

lemma succs_precedeLinks_sub (h : t ∈ succs g q) : t ∈ succs (precedeLinks finished g x link ps).1 q := by
  induction ps generalizing g link with
  | nil => exact h
  | cons o ps ih => exact ih (succs_precedeLink_sub h)

namespace Apart

omit [DecidableEq τ] in
lemma refl : Apart t g g := ⟨rfl, fun _ _ => rfl⟩

variable (A : Apart t g g')
include A

lemma linkInsert : Apart t (linkInsert l g p x) (linkInsert l g' p x) := by
  refine ⟨?_, fun y ne => ?_⟩
  · rw [succs_linkInsert, succs_linkInsert, succs_insert, succs_insert, A.succs]
  · rw [nPredecessors_linkInsert, nPredecessors_linkInsert, A.count y ne]

lemma gnodeCount : Apart t (gnodeCount g x) (gnodeCount g' x) := by
  refine ⟨?_, fun y ne => ?_⟩
  · rw [succs_count, succs_count, A.succs]
  · rw [nPredecessors_count, nPredecessors_count, A.count y ne]

lemma precedeLink (l : Bool) (finished : τ → Bool) (o : Option τ) (x : τ) :
    Apart t (precedeLink l finished g o x).1 (precedeLink l finished g' o x).1 ∧
    (precedeLink l finished g' o x).2 = (precedeLink l finished g o x).2 := by
  unfold Dag.precedeLink
  cases o with
  | none => exact ⟨A, rfl⟩
  | some p =>
    dsimp only
    split
    · exact ⟨A, rfl⟩
    · exact ⟨A.linkInsert.gnodeCount, rfl⟩

lemma precedeLinks (finished : τ → Bool) (x : τ) (link : Nat → Bool) (ps : List (Option τ)) :
    Apart t (precedeLinks finished g x link ps).1 (precedeLinks finished g' x link ps).1 ∧
    (precedeLinks finished g' x link ps).2 = (precedeLinks finished g x link ps).2 := by
  induction ps generalizing g g' link with
  | nil => exact ⟨A, rfl⟩
  | cons o ps ih =>
    obtain ⟨B, n⟩ := A.precedeLink (link 0) finished o x
    obtain ⟨C, m⟩ := ih B fun k => link (k + 1)
    refine ⟨C, ?_⟩
    show _ + _ = _ + _
    rw [n, m]

lemma releaseWalk {ts : List τ} (away : t ∉ ts) :
    Apart t (releaseWalk g ts).1 (releaseWalk g' ts).1 ∧ (releaseWalk g' ts).2 = (releaseWalk g ts).2 := by
  induction ts generalizing g g' with
  | nil => exact ⟨A, rfl⟩
  | cons u ts ih =>
    obtain ⟨ne, away⟩ := not_or.1 (mt mem_cons.2 away)
    have B : Apart t (gnodeRelease g u) (gnodeRelease g' u) := by
      refine ⟨?_, fun y other => ?_⟩
      · rw [succs_release, succs_release, A.succs]
      · rw [nPredecessors_release, nPredecessors_release, A.count y other]
    obtain ⟨C, same⟩ := ih B away
    rw [releaseWalk_cons_fst, releaseWalk_cons_fst, releaseWalk_cons_snd, releaseWalk_cons_snd,
      A.count u (Ne.symm ne), same]
    exact ⟨C, rfl⟩

end Apart

lemma apart_precedeLink (none : ∀ p, o = some p → finished p = false → l = false) :
    Apart t g (precedeLink l finished g o t).1 := by
  unfold precedeLink
  cases isO : o with
  | none => exact .refl
  | some p =>
    dsimp only
    split
    · exact .refl
    rename_i live
    have noLink := none p isO (Bool.eq_false_iff.2 live)
    refine ⟨?_, fun y ne => ?_⟩
    · rw [succs_count, succs_linkInsert, noLink]
      rfl
    · rw [nPredecessors_count, nPredecessors_linkInsert, if_neg (Ne.symm ne)]
      omega

end Edges
/-! ### What a list of dependencies leaves -/

/-- Nothing but counters of `t` is changed before the error: each dependency that comes before it is a read of an
address with an entry for which there is no memory, neither for the reader nor for the edge, and the address of the
dependency that is refused has an entry already. -/
def Traceless (finished : τ → Bool) (hash : PtrHash τ) : (Nat → DepAllocs) → List TaskDep → Prop
  | _, [] => False
  | al, d :: ds =>
    match hash.lookup d.baseAddr with
    | none => False
    | some none => True
    | some (some e) =>
      match d.type with
      | .other _ => True
      | .input => (al 0).reader = false ∧ (∀ p, e.out = some p → finished p = false → (al 0).link 0 = false) ∧
        Traceless finished hash (fun i => al (i + 1)) ds
      | _ => False

/-- The hash has an entry for an address that `hash` had none for, or an entry names `t`, or an edge leads to it. -/
def Marked (hash : PtrHash τ) (t : τ) (D : PtrDag τ) : Prop :=
  (∃ a, hash.lookup a = none ∧ D.hash.lookup a ≠ none) ∨
  (∃ a e, D.hash.lookup a = some (some e) ∧ (e.out = some t ∨ t ∈ e.ins)) ∨
  ∃ p, t ∈ succs D.gnode p

section Leaves
variable {finished : τ → Bool} {D D' : PtrDag τ} {t node : τ} {d : TaskDep} {ds : List TaskDep} {al : DepAllocs}
  {als : Nat → DepAllocs} {hash : PtrHash τ} {r : Option Nat}

/-- What one dependency does, by its kind. -/
inductive Processes (al : DepAllocs) (finished : τ → Bool) (D : PtrDag τ) (node : τ) (d : TaskDep) (h : PtrHash τ)
    (D' : PtrDag τ) (r : Option Nat) : Prop where
  | refused (e : Option (AddrEntry τ)) (finds : Finds finished D.hash d.baseAddr h e)
      (why : e = none ∨ ∃ v, d.type = .other v) (isD : D' = ⟨D.gnode, h⟩) (isR : r = none)
  | reads (e : AddrEntry τ) (finds : Finds finished D.hash d.baseAddr h (some e)) (type : d.type = .input)
      (isD : D' = ⟨(precedeLink (al.link 0) finished D.gnode e.out node).1,
        setPtr h d.baseAddr (some ⟨e.out, if al.reader then node :: e.ins else e.ins⟩)⟩)
      (isR : r = some (precedeLink (al.link 0) finished D.gnode e.out node).2)
  | writes (e : AddrEntry τ) (finds : Finds finished D.hash d.baseAddr h (some e))
      (type : d.type = .output ∨ d.type = .inout)
      (isD : D' = ⟨(precedeLinks finished D.gnode node al.link e.targets).1,
        setPtr h d.baseAddr (some ⟨some node, []⟩)⟩)
      (isR : r = some (precedeLinks finished D.gnode node al.link e.targets).2)
  | writesAll (e : AddrEntry τ) (finds : Finds finished D.hash d.baseAddr h (some e)) (type : d.type = .all)
      (isD : D' = ⟨(precedeLinks finished D.gnode node al.link (allTargets h)).1,
        h.map fun kv => (kv.1, some ⟨some node, []⟩)⟩)
      (isR : r = some (precedeLinks finished D.gnode node al.link (allTargets h)).2)

lemma processPtr_processes (got : processPtr al finished D node d = some (D', r)) :
    ∃ h, Processes al finished D node d h D' r := by
  obtain ⟨⟨h, e⟩, found, got⟩ := Option.bind_eq_some_iff.1 got
  have finds := findPtr_finds found
  refine ⟨h, ?_⟩
  cases e with
  | none =>
    cases got
    exact .refused none finds (.inl rfl) rfl rfl
  | some e =>
    cases isType : d.type with
    | input =>
      rw [isType] at got
      cases got
      exact .reads e finds isType rfl rfl
    | output =>
      rw [isType] at got
      cases got
      exact .writes e finds (.inl isType) rfl rfl
    | inout =>
      rw [isType] at got
      cases got
      exact .writes e finds (.inr isType) rfl rfl
    | all =>
      rw [isType] at got
      dsimp only at got
      split at got
      · cases got
        exact .writesAll e finds isType rfl rfl
      · cases got
    | other v =>
      rw [isType] at got
      cases got
      exact .refused (some e) finds (.inr ⟨v, isType⟩) rfl rfl

variable {h : PtrHash τ} {a : Addr} {v : Option (AddrEntry τ)} {e : Option (AddrEntry τ)}

omit [DecidableEq τ] in
lemma lookup_writesAll : (h.map fun kv => (kv.1, v)).lookup a = (h.lookup a).map fun _ => v := by
  induction h with
  | nil => rfl
  | cons kv h ih =>
    rw [map_cons, lookup_cons, lookup_cons, ih]
    cases a == kv.1 with
    | true | false => rfl

lemma Processes.lookup_ne (P : Processes al finished D node d h D' r)
    (here : h.lookup a ≠ none) : D'.hash.lookup a ≠ none := by
  have setPtr {v : Option (AddrEntry τ)} : (setPtr h d.baseAddr v).lookup a ≠ none := by
    rw [lookup_setPtr]
    split
    · rwa [Ne, Option.map_eq_none_iff]
    · exact here
  cases P with
  | refused e finds why isD isR =>
    rw [isD]
    exact here
  | reads e finds type isD isR | writes e finds type isD isR =>
    rw [isD]
    exact setPtr
  | writesAll e finds type isD isR =>
    rw [isD]
    rw [lookup_writesAll, Ne, Option.map_eq_none_iff]
    exact here

omit [DecidableEq τ] in
lemma Finds.named {a b : Addr} (F : Finds finished hash a h e) {x : AddrEntry τ} (live : finished t = false)
    (here : hash.lookup b = some (some x)) (names : x.out = some t ∨ t ∈ x.ins) :
    ∃ x, h.lookup b = some (some x) ∧ (x.out = some t ∨ t ∈ x.ins) := by
  have ne (absent : hash.lookup a = none) : (b == a) = false := by
    refine beq_eq_false_iff_ne.2 ?_
    rintro rfl
    cases absent.symm.trans here
  cases F with
  | old found isH =>
    rw [isH]
    exact ⟨x, here, names⟩
  | new absent isH bare =>
    rw [isH, lookup_cons, ne absent]
    exact ⟨x, here, names⟩
  | forgets absent all o found out done isH bare =>
    rw [isH, lookup_cons, ne absent]
    dsimp only
    rw [lookup_setPtr]
    split
    · rename_i isAll
      rw [isAll] at here
      cases found.symm.trans here
      refine ⟨{ x with out := none }, by rw [isAll, here]; rfl, .inr (names.resolve_left fun isT => ?_)⟩
      cases out.symm.trans isT
      cases live.symm.trans done
    · exact ⟨x, here, names⟩

lemma Marked.processPtr (M : Marked hash t D) (live : finished t = false)
    (got : processPtr al finished D t d = some (D', r)) : Marked hash t D' := by
  obtain ⟨h, P⟩ := processPtr_processes got
  obtain ⟨e, finds⟩ : ∃ e, Finds finished D.hash d.baseAddr h e := by
    cases P with
    | refused e finds => exact ⟨e, finds⟩
    | reads e finds | writes e finds | writesAll e finds => exact ⟨_, finds⟩
  obtain ⟨a, absent, here⟩ | ⟨a, x, here, names⟩ | ⟨p, edge⟩ := M
  · exact .inl ⟨a, absent, P.lookup_ne (finds.lookup_ne here)⟩
  · obtain ⟨y, here, names⟩ := finds.named live here names
    refine .inr (.inl ?_)
    cases P with
    | refused e' finds' why isD isR =>
      rw [isD]
      exact ⟨a, y, here, names⟩
    | reads e' finds' type isD isR =>
      rw [isD]
      by_cases same : a = d.baseAddr
      · rw [same, finds'.self] at here
        cases here
        have here' : (setPtr h d.baseAddr (some ⟨y.out, if al.reader then t :: y.ins else y.ins⟩)).lookup a =
            some (some ⟨y.out, if al.reader then t :: y.ins else y.ins⟩) := by
          rw [lookup_setPtr, if_pos same, same, finds'.self]
          rfl
        refine ⟨a, _, here', names.imp_right fun mem => ?_⟩
        split
        · exact mem_cons_of_mem _ mem
        · exact mem
      · exact ⟨a, y, by rw [lookup_setPtr, if_neg same]; exact here, names⟩
    | writes e' finds' type isD isR =>
      rw [isD]
      by_cases same : a = d.baseAddr
      · exact ⟨a, ⟨some t, []⟩, by rw [lookup_setPtr, if_pos same, here]; rfl, .inl rfl⟩
      · exact ⟨a, y, by rw [lookup_setPtr, if_neg same]; exact here, names⟩
    | writesAll e' finds' type isD isR =>
      rw [isD]
      exact ⟨a, ⟨some t, []⟩, by rw [lookup_writesAll, here]; rfl, .inl rfl⟩
  · refine .inr (.inr ⟨p, ?_⟩)
    cases P with
    | refused e' finds' why isD isR =>
      rw [isD]
      exact edge
    | reads e' finds' type isD isR =>
      rw [isD]
      exact succs_precedeLink_sub edge
    | writes e' finds' type isD isR | writesAll e' finds' type isD isR =>
      rw [isD]
      exact succs_precedeLinks_sub edge

lemma Marked.processPtrs (M : Marked hash t D) (live : finished t = false)
    (got : processPtrs finished t als D ds = some (D', r)) : Marked hash t D' := by
  induction ds generalizing D als r with
  | nil =>
    cases got
    exact M
  | cons d ds ih =>
    obtain ⟨⟨E, n⟩, first, rest⟩ := Option.bind_eq_some_iff.1 got
    have N := M.processPtr live first
    cases n with
    | none =>
      cases rest
      exact N
    | some n =>
      obtain ⟨⟨E', n'⟩, tail, isD⟩ := Option.map_eq_some_iff.1 rest
      cases isD
      exact ih N tail

omit [DecidableEq τ] in
lemma Finds.found {e e' : Option (AddrEntry τ)} (F : Finds finished hash a h e)
    (here : hash.lookup a = some e') : h = hash ∧ e = e' := by
  cases F with
  | old found isH => exact ⟨isH, Option.some_inj.1 (found.symm.trans here)⟩
  | new absent isH bare | forgets absent all o found out done isH bare => cases absent.symm.trans here

lemma processPtrs_cons (got : processPtrs finished t als D (d :: ds) = some (D', none)) :
    processPtr (als 0) finished D t d = some (D', none) ∨
      ∃ E n, processPtr (als 0) finished D t d = some (E, some n) ∧
        processPtrs finished t (fun i => als (i + 1)) E ds = some (D', none) := by
  obtain ⟨⟨E, n⟩, first, rest⟩ := Option.bind_eq_some_iff.1 got
  cases n with
  | none =>
    cases rest
    exact .inl first
  | some n =>
    obtain ⟨⟨E', n'⟩, tail, isD⟩ := Option.map_eq_some_iff.1 rest
    cases n' with
    | none =>
      cases isD
      exact .inr ⟨E, n, first, tail⟩
    | some m => cases isD

lemma Processes.bare {e : AddrEntry τ} (unique : (D.hash.map Prod.fst).Nodup)
    (P : Processes al finished D t d h D' r) (found : D.hash.lookup d.baseAddr = some (some e)) (type : d.type = .input)
    (reader : al.reader = false) (link : ∀ p, e.out = some p → finished p = false → al.link 0 = false) :
    D'.hash = D.hash ∧ Apart t D.gnode D'.gnode := by
  cases P with
  | refused e' finds why isD isR =>
    obtain ⟨-, isE⟩ := finds.found found
    obtain none | ⟨v, other⟩ := why
    · cases none.symm.trans isE
    · cases type.symm.trans other
  | reads e' finds type' isD isR =>
    obtain ⟨isH, isE⟩ := finds.found found
    cases isE
    rw [isD, isH, reader]
    exact ⟨setPtr_self unique found, apart_precedeLink link⟩
  | writes e' finds type' isD isR =>
    obtain out | inout := type'
    · cases type.symm.trans out
    · cases type.symm.trans inout
  | writesAll e' finds type' isD isR => cases type.symm.trans type'

lemma processPtrs_traceless (unique : (D.hash.map Prod.fst).Nodup)
    (got : processPtrs finished t als D ds = some (D', none)) (quiet : Traceless finished D.hash als ds) :
    D'.hash = D.hash ∧ Apart t D.gnode D'.gnode := by
  induction ds generalizing D als with
  | nil => exact quiet.elim
  | cons d ds ih =>
    unfold Traceless at quiet
    cases found : D.hash.lookup d.baseAddr with
    | none =>
      rw [found] at quiet
      exact quiet.elim
    | some pointer =>
      have refused {E} {n : Option Nat} (first : processPtr (als 0) finished D t d = some (E, n))
          (why : pointer = none ∨ ∃ v, d.type = .other v) : n = none ∧ E = D := by
        obtain ⟨h, P⟩ := processPtr_processes first
        have other {y} (type : d.type = y) (no : ∀ v, y ≠ .other v) {e} (isE : some e = pointer) : False := by
          obtain isNone | ⟨v, isOther⟩ := why
          · cases isE.trans isNone
          · exact no v (type.symm.trans isOther)
        cases P with
        | refused e finds why' isD isR =>
          rw [isD, (finds.found found).1]
          exact ⟨isR, rfl⟩
        | reads e finds type isD isR | writesAll e finds type isD isR =>
          exact (other type nofun (finds.found found).2).elim
        | writes e finds type isD isR =>
          obtain type | type := type
          · exact (other type nofun (finds.found found).2).elim
          · exact (other type nofun (finds.found found).2).elim
      have same (why : pointer = none ∨ ∃ v, d.type = .other v) :
        D'.hash = D.hash ∧ Apart t D.gnode D'.gnode := by
        obtain first | ⟨E, n, first, -⟩ := processPtrs_cons got
        · rw [(refused first why).2]
          exact ⟨rfl, .refl⟩
        · cases (refused first why).1
      rw [found] at quiet
      cases pointer with
      | none => exact same (.inl rfl)
      | some e =>
        cases isType : d.type with
        | other v => exact same (.inr ⟨v, isType⟩)
        | input =>
          rw [isType] at quiet
          obtain ⟨reader, link, quiet⟩ := quiet
          obtain first | ⟨E, n, first, rest⟩ := processPtrs_cons got
          · obtain ⟨h, P⟩ := processPtr_processes first
            exact P.bare unique found isType reader link
          · obtain ⟨h, P⟩ := processPtr_processes first
            obtain ⟨isHash, A⟩ := P.bare unique found isType reader link
            rw [← isHash] at unique quiet
            obtain ⟨isHash', B⟩ := ih unique rest quiet
            refine ⟨isHash'.trans isHash, B.succs.trans A.succs, fun x ne => (B.count x ne).trans (A.count x ne)⟩
        | output | inout | all =>
          rw [isType] at quiet
          exact quiet.elim

lemma Processes.marks (P : Processes al finished D t d h D' r)
    (loud : ∀ e, D.hash.lookup d.baseAddr = some e → (e ≠ none ∧ ∀ v, d.type ≠ .other v) ∧
      (d.type = .input → al.reader = true ∨
        ∃ x p, e = some x ∧ x.out = some p ∧ finished p = false ∧ al.link 0 = true)) :
    Marked D.hash t D' := by
  cases found : D.hash.lookup d.baseAddr with
  | none =>
    refine .inl ⟨d.baseAddr, found, P.lookup_ne ?_⟩
    have has {e} (finds : Finds finished D.hash d.baseAddr h e) : h.lookup d.baseAddr ≠ none := by
      rw [finds.self]
      nofun
    cases P with
    | refused e finds | reads e finds | writes e finds | writesAll e finds => exact has finds
  | some e =>
    obtain ⟨⟨good, known⟩, kept⟩ := loud e found
    cases P with
    | refused e' finds why isD isR =>
      obtain none | ⟨v, other⟩ := why
      · exact absurd ((finds.found found).2.symm.trans none) good
      · exact absurd other (known v)
    | reads x finds type isD isR =>
      obtain ⟨isH, isE⟩ := finds.found found
      rw [isD]
      obtain room | ⟨y, p, isY, out, live, link⟩ := kept type
      · refine .inr (.inl ⟨d.baseAddr, ⟨x.out, t :: x.ins⟩, ?_, .inr mem_cons_self⟩)
        rw [lookup_setPtr, if_pos rfl, finds.self, room]
        rfl
      · cases isE.trans isY
        refine .inr (.inr ⟨p, ?_⟩)
        rw [out]
        exact succs_precedeLink_self live link
    | writes x finds type isD isR =>
      rw [isD]
      refine .inr (.inl ⟨d.baseAddr, ⟨some t, []⟩, ?_, .inl rfl⟩)
      rw [lookup_setPtr, if_pos rfl, finds.self]
      rfl
    | writesAll x finds type isD isR =>
      rw [isD]
      refine .inr (.inl ⟨d.baseAddr, ⟨some t, []⟩, ?_, .inl rfl⟩)
      rw [lookup_writesAll, finds.self]
      rfl

lemma processPtrs_marked (unique : (D.hash.map Prod.fst).Nodup) (live : finished t = false)
    (got : processPtrs finished t als D ds = some (D', none)) (loud : ¬ Traceless finished D.hash als ds) :
    Marked D.hash t D' := by
  induction ds generalizing D als with
  | nil => cases got
  | cons d ds ih =>
    have marked (marks : ∀ {E} {n : Option Nat}, processPtr (als 0) finished D t d = some (E, n) →
      Marked D.hash t E) :
        Marked D.hash t D' := by
      obtain first | ⟨E, n, first, rest⟩ := processPtrs_cons got
      · exact marks first
      · exact (marks first).processPtrs live rest
    unfold Traceless at loud
    cases found : D.hash.lookup d.baseAddr with
    | none =>
      refine marked fun first => ?_
      obtain ⟨h, P⟩ := processPtr_processes first
      refine P.marks fun e here => ?_
      cases found.symm.trans here
    | some pointer =>
      rw [found] at loud
      cases pointer with
      | none => exact absurd trivial loud
      | some x =>
        have writer (known : ∀ v, d.type ≠ .other v) (writes : d.type ≠ .input) : Marked D.hash t D' := by
          refine marked fun first => ?_
          obtain ⟨h, P⟩ := processPtr_processes first
          refine P.marks fun e here => ⟨⟨?_, known⟩, fun isInput => absurd isInput writes⟩
          cases found.symm.trans here
          nofun
        cases isType : d.type with
        | other v =>
          rw [isType] at loud
          exact absurd trivial loud
        | output | inout | all => exact writer (by rw [isType]; nofun) (by rw [isType]; nofun)
        | input =>
          rw [isType] at loud
          by_cases kept : (als 0).reader = true ∨ ∃ p, x.out = some p ∧ finished p = false ∧
            (als 0).link 0 = true
          · refine marked fun first => ?_
            obtain ⟨h, P⟩ := processPtr_processes first
            refine P.marks fun e here => ⟨⟨?_, by rw [isType]; nofun⟩, fun _ => ?_⟩
            · cases found.symm.trans here
              nofun
            · cases found.symm.trans here
              exact kept.imp_right fun ⟨p, out, live, link⟩ => ⟨x, p, rfl, out, live, link⟩
          · -- Nothing is entered for this dependency.
            obtain ⟨reader, link⟩ := not_or.1 kept
            have reader : (als 0).reader = false := Bool.eq_false_iff.2 reader
            have link (p) (out : x.out = some p) (live : finished p = false) : (als 0).link 0 = false :=
              Bool.eq_false_iff.2 fun room => link ⟨p, out, live, room⟩
            obtain first | ⟨E, n, first, rest⟩ := processPtrs_cons got
            · obtain ⟨h, P⟩ := processPtr_processes first
              cases P with
              | refused e finds why isD isR =>
                obtain none | ⟨v, other⟩ := why
                · cases (finds.found found).2.symm.trans none
                · cases isType.symm.trans other
              | reads e finds type isD isR | writes e finds type isD isR | writesAll e finds type isD isR => cases isR
            · obtain ⟨h, P⟩ := processPtr_processes first
              obtain ⟨isHash, -⟩ := P.bare unique found isType reader link
              rw [← isHash]
              rw [← isHash] at unique
              refine ih unique rest fun quiet => loud ⟨reader, link, ?_⟩
              rw [isHash] at quiet
              exact quiet

/-! ### Tasks that are not named -/

omit [DecidableEq τ] in
lemma keys_setPtr : (setPtr hash a v).map Prod.fst = hash.map Prod.fst := by
  unfold setPtr
  rw [map_map]
  refine map_congr_left fun kv _ => ?_
  show (if kv.1 = a then (a, v) else kv).1 = kv.1
  split
  · rename_i isA
    exact isA.symm
  · rfl

omit [DecidableEq τ] in
lemma Finds.unique (F : Finds finished hash a h e) (unique : (hash.map Prod.fst).Nodup) : (h.map Prod.fst).Nodup := by
  have new (absent : hash.lookup a = none) : a ∉ hash.map Prod.fst := by
    intro mem
    obtain ⟨kv, here, rfl⟩ := mem_map.1 mem
    have ne := lookup_eq_none_iff.1 absent kv here
    simp at ne
  cases F with
  | old found isH =>
    rw [isH]
    exact unique
  | new absent isH bare =>
    rw [isH]
    exact nodup_cons.2 ⟨new absent, unique⟩
  | forgets absent all o found out done isH bare =>
    rw [isH, map_cons, keys_setPtr]
    exact nodup_cons.2 ⟨new absent, unique⟩

lemma Processes.unique (P : Processes al finished D node d h D' r)
    (unique : (D.hash.map Prod.fst).Nodup) : (D'.hash.map Prod.fst).Nodup := by
  cases P with
  | refused e finds why isD isR =>
    rw [isD]
    exact finds.unique unique
  | reads e finds type isD isR | writes e finds type isD isR =>
    rw [isD]
    rw [keys_setPtr]
    exact finds.unique unique
  | writesAll e finds type isD isR =>
    rw [isD]
    rw [map_map]
    exact finds.unique unique

/-- An entry that does not name `t`. -/
def AddrEntry.Without (t : τ) (e : AddrEntry τ) : Prop := e.out ≠ some t ∧ t ∉ e.ins

/-- Nothing leads to `t` or from it. -/
structure Unlinked (t : τ) (D : PtrDag τ) : Prop where
  edge : ∀ p, t ∉ succs D.gnode p
  start : succs D.gnode t = []
  hash : ∀ kv ∈ D.hash, ∀ e, kv.2 = some e → e.Without t

omit [DecidableEq τ] in
lemma pointer_mem (here : h.lookup a = some v) : (a, v) ∈ h := by
  obtain ⟨before, after, isH, -⟩ := lookup_eq_some_iff.1 here
  rw [isH]
  exact mem_append_right _ mem_cons_self

omit [DecidableEq τ] in
lemma Finds.without (F : Finds finished hash a h e) (away : ∀ kv ∈ hash, ∀ x, kv.2 = some x → x.Without t) :
    (∀ kv ∈ h, ∀ x, kv.2 = some x → x.Without t) ∧ ∀ x, e = some x → x.Without t := by
  cases F with
  | old found isH =>
    rw [isH]
    exact ⟨away, fun x isX => away (a, e) (pointer_mem found) x isX⟩
  | new absent isH bare =>
    have new (x) (isX : e = some x) : x.Without t := by
      obtain ⟨noIns, out⟩ := bare x isX
      refine ⟨fun isT => ?_, by rw [noIns]; exact not_mem_nil⟩
      obtain ⟨all, found, isAll⟩ := out t isT
      exact (away _ (pointer_mem found) all rfl).1 isAll
    rw [isH]
    refine ⟨fun kv mem x isX => ?_, new⟩
    obtain rfl | mem := mem_cons.1 mem
    · exact new x isX
    · exact away kv mem x isX
  | forgets absent all o found out done isH bare =>
    have new (x) (isX : e = some x) : x.Without t := by
      rw [bare x isX]
      exact ⟨nofun, not_mem_nil⟩
    rw [isH]
    refine ⟨fun kv mem x isX => ?_, new⟩
    obtain rfl | mem := mem_cons.1 mem
    · exact new x isX
    · obtain ⟨kv', here, rfl⟩ := mem_map.1 mem
      split at isX
      · cases isX
        exact ⟨nofun, (away _ (pointer_mem found) all rfl).2⟩
      · exact away kv' here x isX

lemma Unlinked.processPtr (U : Unlinked t D) (ne : node ≠ t) (got : processPtr al finished D node d = some (D', r)) :
    Unlinked t D' := by
  obtain ⟨h, P⟩ := processPtr_processes got
  have set {e : AddrEntry τ} (away : ∀ kv ∈ h, ∀ x, kv.2 = some x → x.Without t) (new : e.Without t) :
      ∀ kv ∈ setPtr h d.baseAddr (some e), ∀ x, kv.2 = some x → x.Without t := by
    intro kv mem x isX
    obtain ⟨kv', here, rfl⟩ := mem_map.1 mem
    split at isX
    · cases isX
      exact new
    · exact away kv' here x isX
  have node_without : (⟨some node, []⟩ : AddrEntry τ).Without t :=
    ⟨fun isT => ne (Option.some_inj.1 isT), not_mem_nil⟩
  have targets {e : AddrEntry τ} (without : e.Without t) : some t ∉ e.targets := by
    unfold AddrEntry.targets
    split
    · rw [mem_singleton]
      exact fun isT => without.1 isT.symm
    · intro mem
      obtain ⟨x, mem, isX⟩ := mem_map.1 mem
      cases isX
      exact without.2 mem
  have links {ps : List (Option τ)} (away : some t ∉ ps) :
      (∀ p, t ∉ succs (precedeLinks finished D.gnode node al.link ps).1 p) ∧
        succs (precedeLinks finished D.gnode node al.link ps).1 t = [] := by
    refine ⟨fun p mem => ?_, eq_nil_iff_forall_not_mem.2 fun x mem => ?_⟩
    · obtain old | ⟨isNode, -⟩ := mem_succs_precedeLinks mem
      · exact U.edge p old
      · exact ne isNode.symm
    · obtain old | ⟨-, isT⟩ := mem_succs_precedeLinks mem
      · rw [U.start] at old
        cases old
      · exact away isT
  cases P with
  | refused e finds why isD isR =>
    rw [isD]
    exact ⟨U.edge, U.start, (finds.without U.hash).1⟩
  | reads e finds type isD isR =>
    obtain ⟨away, new⟩ := finds.without U.hash
    have without := new e rfl
    rw [isD]
    refine ⟨fun p mem => ?_, eq_nil_iff_forall_not_mem.2 fun x mem => ?_, set away ⟨without.1, ?_⟩⟩
    · obtain old | ⟨isNode, -⟩ := mem_succs_precedeLink mem
      · exact U.edge p old
      · exact ne isNode.symm
    · obtain old | ⟨-, isT⟩ := mem_succs_precedeLink mem
      · rw [U.start] at old
        cases old
      · exact without.1 isT
    · split
      · rw [mem_cons]
        rintro (isNode | old)
        · exact ne isNode.symm
        · exact without.2 old
      · exact without.2
  | writes e finds type isD isR =>
    obtain ⟨away, new⟩ := finds.without U.hash
    obtain ⟨edge, start⟩ := links (targets (new e rfl))
    rw [isD]
    exact ⟨edge, start, set away node_without⟩
  | writesAll e finds type isD isR =>
    obtain ⟨away, new⟩ := finds.without U.hash
    have all : some t ∉ allTargets h := by
      intro mem
      obtain ⟨kv, here, mem⟩ := mem_flatMap.1 mem
      cases isX : kv.2 with
      | none =>
        rw [isX] at mem
        cases mem
      | some x =>
        rw [isX] at mem
        exact targets (away kv here x isX) mem
    obtain ⟨edge, start⟩ := links all
    rw [isD]
    refine ⟨edge, start, fun kv mem x isX => ?_⟩
    obtain ⟨kv', -, rfl⟩ := mem_map.1 mem
    cases isX
    exact node_without

lemma Unlinked.processPtrs (U : Unlinked t D) (ne : node ≠ t)
    (got : processPtrs finished node als D ds = some (D', r)) : Unlinked t D' := by
  induction ds generalizing D als r with
  | nil =>
    cases got
    exact U
  | cons d ds ih =>
    obtain ⟨⟨E, n⟩, first, rest⟩ := Option.bind_eq_some_iff.1 got
    have V := U.processPtr ne first
    cases n with
    | none =>
      cases rest
      exact V
    | some n =>
      obtain ⟨⟨E', n'⟩, tail, isD⟩ := Option.map_eq_some_iff.1 rest
      cases isD
      exact ih V tail

lemma processPtrs_unique (unique : (D.hash.map Prod.fst).Nodup)
    (got : processPtrs finished node als D ds = some (D', r)) : (D'.hash.map Prod.fst).Nodup := by
  induction ds generalizing D als r with
  | nil =>
    cases got
    exact unique
  | cons d ds ih =>
    obtain ⟨⟨E, n⟩, first, rest⟩ := Option.bind_eq_some_iff.1 got
    obtain ⟨h, P⟩ := processPtr_processes first
    have unique' := P.unique unique
    cases n with
    | none =>
      cases rest
      exact unique'
    | some n =>
      obtain ⟨⟨E', n'⟩, tail, isD⟩ := Option.map_eq_some_iff.1 rest
      cases isD
      exact ih unique' tail

/-! ### Graphs that differ in counters of `t` -/

/-- The outcomes of a submission to graphs that differ in counters of `t`. -/
structure SameFor {α : Type*} (t : τ) (r r' : PtrDag τ × α) : Prop where
  nodes : Apart t r.1.gnode r'.1.gnode
  hash : r'.1.hash = r.1.hash
  answer : r'.2 = r.2

variable {g g' : τ → Gnode τ}

lemma Apart.processPtr (A : Apart t g g') (al : DepAllocs) (finished : τ → Bool) (hash : PtrHash τ) (node : τ)
    (d : TaskDep) : Option.Rel (SameFor t)
      (processPtr al finished ⟨g, hash⟩ node d) (processPtr al finished ⟨g', hash⟩ node d) := by
  unfold Dag.processPtr
  cases findPtr al.entry finished hash d.baseAddr with
  | none => exact .none
  | some h =>
    obtain ⟨h, e⟩ := h
    cases e with
    | none => exact .some ⟨A, rfl, rfl⟩
    | some e =>
      dsimp only [Option.bind_some]
      have links := A.precedeLinks finished node al.link
      cases d.type with
      | input =>
        obtain ⟨B, n⟩ := A.precedeLink (al.link 0) finished e.out node
        exact .some ⟨B, rfl, congrArg some n⟩
      | output | inout => exact .some ⟨(links e.targets).1, rfl, congrArg some (links e.targets).2⟩
      | all =>
        dsimp only
        split
        · exact .some ⟨(links (allTargets h)).1, rfl, congrArg some (links (allTargets h)).2⟩
        · exact .none
      | other v => exact .some ⟨A, rfl, rfl⟩

lemma Apart.processPtrs (A : Apart t g g') (finished : τ → Bool) (node : τ) (als : Nat → DepAllocs)
    (hash : PtrHash τ) (ds : List TaskDep) : Option.Rel (SameFor t)
      (processPtrs finished node als ⟨g, hash⟩ ds) (processPtrs finished node als ⟨g', hash⟩ ds) := by
  induction ds generalizing g g' hash als with
  | nil => exact .some ⟨A, rfl, rfl⟩
  | cons d ds ih =>
    unfold Dag.processPtrs
    refine rel_bind (A.processPtr (als 0) finished hash node d) fun ⟨⟨k, j⟩, n⟩ ⟨⟨k', j'⟩, n'⟩ _ same =>
      ?_
    obtain ⟨B, isHash, isN⟩ := same
    cases isHash
    cases isN
    cases n with
    | none => exact .some ⟨B, rfl, rfl⟩
    | some n =>
      dsimp only
      rw [Option.map_eq_bind, Option.map_eq_bind]
      refine rel_bind (ih B (fun i => als (i + 1)) j) fun q q' _ same => .some ⟨same.nodes, same.hash, ?_⟩
      dsimp only
      rw [same.answer]

lemma Apart.dagAddTaskPtr (A : Apart t g g') (ne : node ≠ t) (list : Bool) (als : Nat → DepAllocs)
    (finished : τ → Bool) (hash : PtrHash τ) (junk : Nat → TaskDep) (ds : List TaskDep) :
      Option.Rel (SameFor t) (dagAddTaskPtr list als finished ⟨g, hash⟩ node junk ds)
      (dagAddTaskPtr list als finished ⟨g', hash⟩ node junk ds) := by
  unfold Dag.dagAddTaskPtr
  split
  · exact .some ⟨A, rfl, rfl⟩
  rw [Option.map_eq_bind, Option.map_eq_bind]
  refine rel_bind (A.processPtrs finished node als hash (depListRmDup junk ds)) fun r r' _ same => ?_
  dsimp only [Function.comp_apply]
  rw [same.answer]
  cases r.2 with
  | none => exact .some ⟨same.nodes, same.hash, rfl⟩
  | some n =>
    rw [same.nodes.count node ne]
    exact .some ⟨same.nodes, same.hash, rfl⟩

end Leaves
end Kupl.Dag
