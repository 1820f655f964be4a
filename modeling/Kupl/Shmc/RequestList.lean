import Kupl.Shmc.Requests

/-!
# What stays in the list of requests

In every run in which no start fails, the list of a communicator is a circle through its requests, and every request is
released once (`requests_right`). A start that fails releases a request that stays in the list.
-/

namespace Kupl.Shmc.Requests
open Links List Option
open Function (Injective update update_of_ne update_self)

variable {s : State} {a b c : Nat} {r : Request} {up : ShmInit}

/-- The state is right, and the numbers are those given out so far. -/
structure Core (s : State) : Prop extends Right s where
  fresh : ∀ a r, s.requests a = some r → r.serial < s.made
  past : ∀ i ∈ s.released, i < s.made

namespace Members
variable {d : Nat} {l k : List Nat} {n : Node}

lemma node (mem : Members s c l) (at_ : n ∈ .requestList c :: l.map Node.list) :
    n = .requestList c ∨ ∃ a r, n = .list a ∧ s.requests a = some r ∧ r.comm = c := by
  rcases mem_cons.1 at_ with rfl | elem
  · exact Or.inl rfl
  · obtain ⟨a, in_, rfl⟩ := mem_map.1 elem
    obtain ⟨r, here, own⟩ := (mem a).1 in_
    exact Or.inr ⟨a, r, rfl, here, own⟩

lemma alive (mem : Members s c l) (live : (s.comms c).isSome) (at_ : n ∈ .requestList c :: l.map Node.list) :
    s.alive n = true := by
  rcases mem.node at_ with rfl | ⟨a, r, rfl, here, _⟩
  · exact live
  · rw [State.alive, here]
    rfl

lemma apart (mem : Members s c l) (mem' : Members s d k) (ne : d ≠ c) :
    ∀ n ∈ .requestList d :: k.map Node.list, n ∉ .requestList c :: l.map Node.list := by
  intro n at_ at_'
  rcases mem'.node at_ with rfl | ⟨a, r, rfl, here, own⟩
  · rcases mem.node at_' with same | ⟨a, r, same, _, _⟩
    · cases same
      exact ne rfl
    · cases same
  · rcases mem.node at_' with same | ⟨b, r', same, here', own'⟩
    · cases same
    · cases same
      obtain rfl : r = r' := some_inj.1 (here.symm.trans here')
      exact ne (own.symm.trans own')

end Members

namespace Core

section
variable (K : Core s)
include K

lemma setComms {comms : Nat → Option Comm} (same : ∀ c, (comms c).isSome = (s.comms c).isSome) :
    Core { s with comms := comms } := by
  refine ⟨⟨K.sound, ?_, ?_, K.once⟩, K.fresh, K.past⟩
  · intro c live
    exact K.listed c ((same c).symm.trans live)
  · intro a r here
    exact (same r.comm).trans (K.owned a r here)

omit K in
lemma isSome_setWins (s : State) (c : Nat) (f : List Win → List Win) (d : Nat) :
    ((s.setWins c f).comms d).isSome = (s.comms d).isSome := by
  by_cases same : d = c
  · subst same
    simp only [State.setWins, update_self, isSome_map]
  · simp only [State.setWins, update_of_ne same]

lemma setWins (f : List Win → List Win) : Core (s.setWins c f) := K.setComms (isSome_setWins s c f)

lemma entered : Core (entered s up) := ⟨⟨K.sound, K.listed, K.owned, K.once⟩, K.fresh, K.past⟩

lemma setArgs (here : s.requests a = some r) (args : Args) :
    Core { s with requests := update s.requests a (some { r with args := args }) } := by
  have old : ∀ b r', update s.requests a (some { r with args := args }) b = some r' →
      ∃ r'', s.requests b = some r'' ∧ r''.comm = r'.comm ∧ r''.serial = r'.serial := by
    intro b r' at_
    by_cases same : b = a
    · subst same
      rw [update_self] at at_
      cases at_
      exact ⟨r, here, rfl, rfl⟩
    · rw [update_of_ne same] at at_
      exact ⟨r', at_, rfl, rfl⟩
  have new : ∀ b r', s.requests b = some r' → ∃ r'',
      update s.requests a (some { r with args := args }) b = some r'' ∧ r''.comm = r'.comm := by
    intro b r' at_
    by_cases same : b = a
    · subst same
      obtain rfl : r = r' := some_inj.1 (here.symm.trans at_)
      exact ⟨_, update_self .., rfl⟩
    · exact ⟨r', (update_of_ne same ..).trans at_, rfl⟩
  have serial : ∀ b, State.serial { s with requests := update s.requests a (some { r with args := args }) } b =
      s.serial b := by
    intro b
    by_cases same : b = a
    · subst same
      simp only [State.serial, update_self, here, map_some]
    · simp only [State.serial, update_of_ne same]
  refine ⟨⟨K.sound, ?_, ?_, ?_⟩, ?_, K.past⟩
  · intro c live
    obtain ⟨l, circle, mem⟩ := K.listed c live
    refine ⟨l, circle, fun b => (mem b).trans ⟨?_, ?_⟩⟩
    · rintro ⟨r', at_, own⟩
      obtain ⟨r'', at_', same⟩ := new b r' at_
      exact ⟨r'', at_', same.trans own⟩
    · rintro ⟨r', at_, own⟩
      obtain ⟨r'', at_', same, _⟩ := old b r' at_
      exact ⟨r'', at_', same.trans own⟩
  · intro b r' at_
    obtain ⟨r'', at_', same, _⟩ := old b r' at_
    exact same ▸ K.owned b r'' at_'
  · simp only [serial]
    exact K.once
  · intro b r' at_
    obtain ⟨r'', at_', _, same⟩ := old b r' at_
    exact same ▸ K.fresh b r'' at_'

lemma create (new : s.comms c = none) (comm : Comm) :
    Core { s with comms := update s.comms c (some comm), links := s.links.init (.requestList c) } := by
  refine ⟨⟨K.sound, ?_, ?_, K.once⟩, K.fresh, K.past⟩
  · intro d live
    by_cases same : d = c
    · subst same
      refine ⟨[], init_circle, ?_⟩
      intro a
      refine ⟨fun mem => absurd mem not_mem_nil, ?_⟩
      rintro ⟨r, here, rfl⟩
      have owned := K.owned a r here
      rw [new] at owned
      cases owned
    · dsimp only at live
      rw [update_of_ne same] at live
      obtain ⟨l, circle, mem⟩ := K.listed d live
      refine ⟨l, Circle.init_other circle ?_, mem⟩
      intro at_
      rcases Members.node mem at_ with eq | ⟨a, r, eq, _, _⟩
      · cases eq
        exact same rfl
      · cases eq
  · intro a r here
    dsimp only
    by_cases same : r.comm = c
    · rw [same, update_self]
      rfl
    · rw [update_of_ne same]
      exact K.owned a r here

lemma insert (live : (s.comms c).isSome) (new : s.requests a = none) (args : Args) :
    Core ((s.make a c args).insertAfter (.requestList c) (.list a)) := by
  obtain ⟨t, is_t⟩ : ∃ t, t = s.make a c args := ⟨_, rfl⟩
  have requests : ∀ b r, t.requests b = some r ↔ b = a ∧ r = ⟨c, args, s.made⟩ ∨ s.requests b = some r := by
    intro b r
    rw [is_t, State.make]
    dsimp only
    by_cases same : b = a
    · subst same
      rw [update_self, new]
      simp [eq_comm]
    · rw [update_of_ne same]
      simp [same]
  have serial : ∀ b i, t.serial b = some i ↔ b = a ∧ i = s.made ∨ s.serial b = some i := by
    intro b i
    simp only [State.serial, map_eq_some_iff, requests]
    constructor
    · rintro ⟨r, ⟨rfl, rfl⟩ | here, rfl⟩
      · exact Or.inl ⟨rfl, rfl⟩
      · exact Or.inr ⟨r, here, rfl⟩
    · rintro (⟨rfl, rfl⟩ | ⟨r, here, rfl⟩)
      · exact ⟨_, Or.inl ⟨rfl, rfl⟩, rfl⟩
      · exact ⟨r, Or.inr here, rfl⟩
  obtain ⟨l, circle, mem⟩ := K.listed c live
  have out : ∀ {d k}, Members s d k → Node.list a ∉ .requestList d :: k.map Node.list := by
    intro d k mem at_
    rcases mem.node at_ with eq | ⟨b, r, eq, here, _⟩
    · cases eq
    · cases eq
      rw [new] at here
      cases here
  have members : Members t c (a :: l) := by
    intro b
    rw [mem_cons, mem b]
    constructor
    · rintro (rfl | ⟨r, here, own⟩)
      · exact ⟨_, (requests b _).2 (Or.inl ⟨rfl, rfl⟩), rfl⟩
      · exact ⟨r, (requests b r).2 (Or.inr here), own⟩
    · rintro ⟨r, here, own⟩
      rcases (requests b r).1 here with ⟨rfl, _⟩ | here
      · exact Or.inl rfl
      · exact Or.inr ⟨r, here, own⟩
  have others : ∀ {d k}, d ≠ c → Members s d k → Members t d k := by
    intro d k ne mem b
    rw [mem b]
    constructor
    · rintro ⟨r, here, own⟩
      exact ⟨r, (requests b r).2 (Or.inr here), own⟩
    · rintro ⟨r, here, own⟩
      rcases (requests b r).1 here with ⟨_, rfl⟩ | here
      · exact absurd own.symm ne
      · exact ⟨r, here, own⟩
  have comms : t.comms = s.comms := by rw [is_t, State.make]
  have links : t.links = s.links := by rw [is_t, State.make]
  have made : t.made = s.made + 1 := by rw [is_t, State.make]
  have released : t.released = s.released := by rw [is_t, State.make]
  have alive : ∀ n ∈ .requestList c :: (a :: l).map Node.list, t.alive n = true := by
    intro n at_
    exact members.alive (comms ▸ live) at_
  have inserted : t.insertAfter (.requestList c) (.list a) =
      { t with links := s.links.insertAfter (.requestList c) (.list a) } := by
    have next : t.links.next (.requestList c) ∈ .requestList c :: (a :: l).map Node.list := by
      rw [links]
      have in_ := circle.next_mem mem_cons_self
      simp only [map_cons, mem_cons] at in_ ⊢
      exact in_.imp_right Or.inr
    rw [State.insertAfter, alive _ mem_cons_self, alive _ (mem_cons_of_mem _ mem_cons_self),
      alive _ next, links]
    rfl
  rw [← is_t, inserted]
  refine ⟨⟨?_, ?_, ?_, ?_⟩, ?_, ?_⟩
  · exact (congrArg State.fault is_t).trans K.sound
  · intro d live'
    by_cases same : d = c
    · subst same
      exact ⟨a :: l, circle.insertAfter (out mem), members⟩
    · obtain ⟨k, circle', mem'⟩ := K.listed d (by rwa [← comms])
      refine ⟨k, circle.insertAfter_other circle' (mem.apart mem' same) (out mem') ?_, others same mem'⟩
      rintro ⟨⟩
  · intro b r here
    show (t.comms r.comm).isSome
    rw [comms]
    rcases (requests b r).1 here with ⟨_, rfl⟩ | here
    · exact live
    · exact K.owned b r here
  · intro i lt
    show (t.released.count i = 1 ∧ ∀ b, t.serial b ≠ some i) ∨
      (t.released.count i = 0 ∧ ∃! b, t.serial b = some i)
    rw [released]
    rcases Nat.lt_succ_iff_lt_or_eq.1 (made ▸ lt) with old | rfl
    · have same : ∀ b, t.serial b = some i ↔ s.serial b = some i := by
        intro b
        rw [serial]
        exact or_iff_right fun new => absurd new.2 (Nat.ne_of_lt old)
      simp only [ne_eq, same]
      exact K.once i old
    · refine Or.inr ⟨?_, a, (serial a _).2 (Or.inl ⟨rfl, rfl⟩), ?_⟩
      · exact count_eq_zero.2 fun at_ => Nat.lt_irrefl _ (K.past _ at_)
      · intro b at_
        rcases (serial b _).1 at_ with ⟨here, _⟩ | old
        · exact here
        · obtain ⟨r, here, eq⟩ := map_eq_some_iff.1 old
          exact absurd eq (Nat.ne_of_lt (K.fresh b r here))
  · intro b r here
    show r.serial < t.made
    rw [made]
    rcases (requests b r).1 here with ⟨_, rfl⟩ | here
    · exact Nat.lt_succ_self _
    · exact Nat.lt_succ_of_lt (K.fresh b r here)
  · intro i at_
    show i < t.made
    rw [made]
    exact Nat.lt_succ_of_lt (K.past i (released ▸ at_))

lemma freed_eq (here : s.requests a = some r) : (s.del (.list a)).safeFree a =
    { s with links := s.links.del (.list a), requests := update s.requests a none,
             released := r.serial :: s.released } := by
  obtain ⟨l, circle, mem⟩ := K.listed r.comm (K.owned a r here)
  have own_node : Node.list a ∈ .requestList r.comm :: l.map Node.list :=
    mem_cons_of_mem _ (mem_map_of_mem ((mem a).2 ⟨r, here, rfl⟩))
  have alive : ∀ n ∈ .requestList r.comm :: l.map Node.list, s.alive n = true :=
    fun n in_ => mem.alive (K.owned a r here) in_
  have deleted : s.del (.list a) = { s with links := s.links.del (.list a) } := by
    rw [State.del, alive _ own_node, alive _ (circle.prev_mem own_node), alive _ (circle.next_mem own_node)]
    rfl
  rw [deleted]
  simp only [State.safeFree, here]

lemma free (here : s.requests a = some r) : Core ((s.del (.list a)).safeFree a) := by
  obtain ⟨l, circle, mem⟩ := K.listed r.comm (K.owned a r here)
  obtain ⟨us, vs, rfl⟩ := append_of_mem ((mem a).2 ⟨r, here, rfl⟩)
  rw [map_append, map_cons] at circle
  obtain ⟨t, is_t⟩ : ∃ t, t = (s.del (.list a)).safeFree a := ⟨_, rfl⟩
  have state := is_t.trans (K.freed_eq here)
  have requests : ∀ b r', t.requests b = some r' ↔ b ≠ a ∧ s.requests b = some r' := by
    intro b r'
    rw [state]
    dsimp only
    by_cases same : b = a
    · subst same
      rw [update_self]
      simp
    · rw [update_of_ne same]
      simp [same]
  have serial : ∀ b i, t.serial b = some i ↔ b ≠ a ∧ s.serial b = some i := by
    intro b i
    simp only [State.serial, map_eq_some_iff, requests]
    constructor
    · rintro ⟨r', ⟨ne, at_⟩, eq⟩
      exact ⟨ne, r', at_, eq⟩
    · rintro ⟨ne, r', at_, eq⟩
      exact ⟨r', ⟨ne, at_⟩, eq⟩
  have comms : t.comms = s.comms := by rw [state]
  have links : t.links = s.links.del (.list a) := by rw [state]
  have made : t.made = s.made := by rw [state]
  have released : t.released = r.serial :: s.released := by rw [state]
  have out : a ∉ us ++ vs := by
    have nodup := (nodup_cons.1 circle.nodup).2
    rw [← map_cons, ← map_append] at nodup
    exact (nodup_middle.1 nodup.of_map |> nodup_cons.1).1
  rw [← is_t]
  refine ⟨⟨?_, ?_, ?_, ?_⟩, ?_, ?_⟩
  · exact (congrArg State.fault state).trans K.sound
  · intro d live
    rw [comms] at live
    rw [links]
    by_cases same : d = r.comm
    · subst same
      refine ⟨us ++ vs, ?_, ?_⟩
      · rw [map_append]
        exact circle.del
      · intro b
        have before := mem b
        rw [mem_append, mem_cons] at before
        rw [mem_append]
        simp only [requests]
        constructor
        · intro in_
          have ne : b ≠ a := by
            rintro rfl
            exact out (mem_append.2 in_)
          obtain ⟨r', at_, own⟩ := before.1 (in_.imp_right Or.inr)
          exact ⟨r', ⟨ne, at_⟩, own⟩
        · rintro ⟨r', ⟨ne, at_⟩, own⟩
          rcases before.2 ⟨r', at_, own⟩ with left | same | right
          · exact Or.inl left
          · exact absurd same ne
          · exact Or.inr right
    · obtain ⟨k, circle', mem'⟩ := K.listed d live
      refine ⟨k, circle.del_other circle' ?_, ?_⟩
      · have apart := mem.apart mem' same
        rwa [map_append, map_cons] at apart
      · intro b
        rw [mem' b]
        simp only [requests]
        constructor
        · rintro ⟨r', at_, own⟩
          refine ⟨r', ⟨?_, at_⟩, own⟩
          rintro rfl
          obtain rfl : r = r' := some_inj.1 (here.symm.trans at_)
          exact same own.symm
        · rintro ⟨r', ⟨_, at_⟩, own⟩
          exact ⟨r', at_, own⟩
  · intro b r' at_
    rw [comms]
    exact K.owned b r' ((requests b r').1 at_).2
  · intro i lt
    rw [made] at lt
    have own : s.serial a = some r.serial := map_eq_some_iff.2 ⟨r, here, rfl⟩
    simp only [released, ne_eq, serial]
    by_cases this_one : i = r.serial
    · subst this_one
      rcases K.once r.serial lt with ⟨_, gone⟩ | ⟨none_, b, _, only⟩
      · exact absurd own (gone a)
      · refine Or.inl ⟨?_, ?_⟩
        · rw [count_cons_self, none_]
        · rintro c ⟨ne, at_⟩
          exact ne ((only c at_).trans (only a own).symm)
    · have same : ∀ b, b ≠ a ∧ s.serial b = some i ↔ s.serial b = some i := by
        intro b
        refine and_iff_right_of_imp ?_
        rintro at_ rfl
        exact this_one (some_inj.1 (at_.symm.trans own))
      simp only [same]
      rw [count_cons_of_ne (Ne.symm this_one)]
      exact K.once i lt
  · intro b r' at_
    rw [made]
    exact K.fresh b r' ((requests b r').1 at_).2
  · intro i at_
    rw [released] at at_
    rw [made]
    rcases mem_cons.1 at_ with rfl | old
    · exact K.fresh a r here
    · exact K.past i old

lemma drop (none_left : ∀ a r, s.requests a = some r → r.comm ≠ c) :
    Core { s with comms := update s.comms c none } := by
  refine ⟨⟨K.sound, ?_, ?_, K.once⟩, K.fresh, K.past⟩
  · intro d live
    dsimp only at live
    by_cases same : d = c
    · rw [same, update_self] at live
      cases live
    · rw [update_of_ne same] at live
      exact K.listed d live
  · intro a r here
    dsimp only
    rw [update_of_ne (none_left a r here)]
    exact K.owned a r here

lemma length_le {l : List Nat} (nodup : l.Nodup) (mem : Members s c l) : l.length ≤ s.made := by
  obtain ⟨f, is_f⟩ : ∃ f : Nat → Nat, f = fun a => (s.serial a).getD 0 := ⟨_, rfl⟩
  have serial : ∀ a ∈ l, s.serial a = some (f a) ∧ f a < s.made := by
    intro a in_
    obtain ⟨r, here, _⟩ := (mem a).1 in_
    have own : s.serial a = some r.serial := map_eq_some_iff.2 ⟨r, here, rfl⟩
    have at_ : f a = r.serial := by
      rw [is_f]
      dsimp only
      rw [own, getD_some]
    rw [at_]
    exact ⟨own, K.fresh a r here⟩
  have inj : Set.InjOn f l.toFinset := by
    intro a in_ b in_' same
    obtain ⟨own, lt⟩ := serial a (mem_toFinset.1 in_)
    obtain ⟨own', _⟩ := serial b (mem_toFinset.1 in_')
    rw [← same] at own'
    rcases K.once (f a) lt with ⟨_, gone⟩ | ⟨_, d, _, only⟩
    · exact absurd own (gone a)
    · exact (only a own).trans (only b own').symm
  have card : l.toFinset.card ≤ (Finset.range s.made).card := by
    apply Finset.card_le_card_of_injOn f _ inj
    intro a in_
    exact Finset.mem_coe.2 (Finset.mem_range.2 (serial a (mem_toFinset.1 in_)).2)
  rwa [toFinset_card_of_nodup nodup, Finset.card_range] at card

end

/-! ### Releasing -/

lemma freeWin_eq (live : (s.comms c).isSome) (win : Option Nat) :
    ∃ comms : Nat → Option Comm, s.freeWin c win = { s with comms := comms } ∧
      ∀ d, (comms d).isSome = (s.comms d).isSome := by
  cases win with
  | none => exact ⟨s.comms, rfl, fun _ => rfl⟩
  | some win =>
    refine ⟨(s.setWins c (winFree win)).comms, ?_, isSome_setWins s c _⟩
    rw [State.freeWin, if_pos live]
    rfl

lemma freeWins_eq (live : (s.comms r.comm).isSome) :
    ∃ comms : Nat → Option Comm, freeWins s r = { s with comms := comms } ∧
      ∀ d, (comms d).isSome = (s.comms d).isSome := by
  unfold freeWins
  cases r.args with
  | bcast args =>
    obtain ⟨comms, eq, same⟩ := freeWin_eq live args.notifyRootWin
    obtain ⟨comms', eq', same'⟩ :=
      freeWin_eq (s := { s with comms := comms }) ((same _).trans live) args.notifyOthersWin
    obtain ⟨comms'', eq'', same''⟩ :=
      freeWin_eq (s := { s with comms := comms' }) ((same' _).trans ((same _).trans live)) args.p2pWin
    refine ⟨comms'', ?_, fun d => (same'' d).trans ((same' d).trans (same d))⟩
    dsimp only
    rw [eq, eq', eq'']
  | allreduce | alltoall => exact ⟨s.comms, rfl, fun _ => rfl⟩

lemma requestFree_eq (K : Core s) (here : s.requests a = some r) :
    ∃ comms : Nat → Option Comm, Core (requestFree s a) ∧ (∀ d, (comms d).isSome = (s.comms d).isSome) ∧
      requestFree s a = { s with comms := comms, links := s.links.del (.list a),
                                 requests := update s.requests a none,
                                 released := r.serial :: s.released } := by
  obtain ⟨comms, eq, same⟩ := freeWins_eq (K.owned a r here)
  have K' := K.setComms same
  have freed : requestFree s a = (State.del { s with comms := comms } (.list a)).safeFree a := by
    simp only [requestFree, here, eq]
  rw [freed]
  exact ⟨comms, K'.free here, same, K'.freed_eq here⟩

lemma freeRequests_right {l : List Nat} {n : Nat} (K : Core s)
    (circle : s.links.Circle (.requestList c) (l.map .list)) (mem : Members s c l) (enough : l.length < n) :
    Core (freeRequests c n (s.links.next (.requestList c)) s) ∧
      (∀ a r, (freeRequests c n (s.links.next (.requestList c)) s).requests a = some r ↔
        s.requests a = some r ∧ r.comm ≠ c) ∧
      (∀ d, ((freeRequests c n (s.links.next (.requestList c)) s).comms d).isSome = (s.comms d).isSome) ∧
      (freeRequests c n (s.links.next (.requestList c)) s).held = s.held := by
  induction l generalizing s n with
  | nil =>
    obtain ⟨n, rfl⟩ := Nat.exists_eq_succ_of_ne_zero (Nat.ne_of_gt enough)
    rw [circle.next_nil, freeRequests, if_pos rfl]
    refine ⟨K, ?_, fun _ => rfl, rfl⟩
    intro a r
    refine ⟨fun here => ⟨here, ?_⟩, fun both => both.1⟩
    intro own
    exact absurd ((mem a).2 ⟨r, here, own⟩) not_mem_nil
  | cons a l ih =>
    obtain ⟨n, rfl⟩ := Nat.exists_eq_succ_of_ne_zero (Nat.ne_of_gt (Nat.zero_lt_of_lt enough))
    obtain ⟨r, here, own⟩ := (mem a).1 mem_cons_self
    obtain ⟨comms, K', same, eq⟩ := K.requestFree_eq here
    have next : s.links.next (.requestList c) = .list a := circle.next_cons
    have alive : s.alive (.list a) = true := by
      rw [State.alive, here]
      rfl
    have after : (requestFree s a).links.next (.requestList c) = s.links.next (.list a) := by
      rw [eq]
      exact circle.next_del
    rw [next, freeRequests, if_pos alive, ← after]
    have circle' : (requestFree s a).links.Circle (.requestList c) (l.map .list) := by
      rw [eq]
      show Circle _ _ ([] ++ l.map Node.list)
      exact Circle.del circle
    have live : ((requestFree s a).comms c).isSome := by
      rw [eq]
      exact (same c).trans (own ▸ K.owned a r here)
    have mem' : Members (requestFree s a) c l := by
      obtain ⟨k, circle'', mem'⟩ := K'.listed c live
      have inj : Injective Node.list := by
        rintro a b ⟨⟩
        rfl
      rwa [map_injective_iff.2 inj (circle''.unique circle')] at mem'
    obtain ⟨K'', left, comms'', held⟩ := ih K' circle' mem' (Nat.lt_of_succ_lt_succ enough)
    refine ⟨K'', ?_, ?_, ?_⟩
    · intro b r'
      rw [left, eq]
      dsimp only
      by_cases is_a : b = a
      · subst is_a
        rw [update_self, here]
        constructor
        · rintro ⟨⟨⟩, _⟩
        · rintro ⟨⟨⟩, other⟩
          exact absurd own other
      · rw [update_of_ne is_a]
    · intro d
      rw [comms'', eq]
      exact same d
    · rw [held, eq]

end Core

/-! ### The calls -/

/-- What holds in every run in which no start fails: the program holds the requests that are not released. -/
structure Inv (s : State) : Prop extends Core s where
  holds : ∀ a, s.held a = true ↔ (s.requests a).isSome

lemma insertAfter_held {x y : Node} : (s.insertAfter x y).held = s.held := by
  unfold State.insertAfter
  split <;> rfl

lemma insertAfter_requests {x y : Node} : (s.insertAfter x y).requests = s.requests := by
  unfold State.insertAfter
  split <;> rfl

namespace Inv

section
variable (I : Inv s)
include I

lemma holds_update {own : Bool} {new : Option Request} (same : own = true ↔ new.isSome) (b : Nat) :
    update s.held a own b = true ↔ (update s.requests a new b).isSome := by
  by_cases is_a : b = a
  · subst is_a
    rw [update_self, update_self]
    exact same
  · rw [update_of_ne is_a, update_of_ne is_a]
    exact I.holds b

lemma entered : Inv (entered s up) := ⟨I.toCore.entered, I.holds⟩

lemma setWins (f : List Win → List Win) : Inv (s.setWins c f) := ⟨I.toCore.setWins f, I.holds⟩

lemma commCreate {size rank pid : Int} {args : Bool} {malloc : Option Nat}
    (new : malloc.all fun c => (s.comms c).isNone) : Inv (commCreate s up size rank pid args malloc) := by
  unfold Requests.commCreate
  split
  case isTrue => exact I.entered
  case isFalse =>
    cases malloc with
    | none => exact I.entered
    | some c =>
      dsimp only
      split
      case isTrue => exact I.entered
      case isFalse => exact ⟨I.toCore.entered.create (isNone_iff_eq_none.1 new) _, I.holds⟩

lemma requestInit {call : Call} {malloc : Option Nat} (live : (s.comms c).isSome)
    (new : malloc.all fun a => (s.requests a).isNone) : Inv (requestInit s up call c malloc) := by
  unfold Requests.requestInit
  split
  case isTrue => exact I.entered
  case isFalse =>
    obtain ⟨comm, is_comm⟩ := isSome_iff_exists.1 live
    cases malloc with
    | none =>
      rw [is_comm]
      exact I.entered
    | some a =>
      rw [is_comm]
      dsimp only
      have J : Inv ((Requests.entered s up).setWins c fun _ => (call.args comm).2) := I.entered.setWins _
      cases (call.args comm).1 with
      | none => exact J
      | some args =>
        have live' := (Core.isSome_setWins (Requests.entered s up) c (fun _ => (call.args comm).2) c).trans live
        refine ⟨J.toCore.insert live' (isNone_iff_eq_none.1 new) args, ?_⟩
        intro b
        rw [insertAfter_held, insertAfter_requests]
        exact J.holds_update (by simp) b

lemma requestStart {request : Option Nat} {phases : Bool} (held : request.all s.held)
    (succeeds : ∀ a, request = some a → enters s up → succeeds s a phases) :
    Inv (requestStart s up request phases) := by
  unfold Requests.requestStart
  split
  case isTrue => exact I.entered
  case isFalse inside =>
    cases request with
    | none => exact I.entered
    | some a =>
      obtain ⟨r, here⟩ := isSome_iff_exists.1 ((I.holds a).1 held)
      obtain ⟨checked, collective⟩ := Bool.and_eq_true_iff.1 (succeeds a rfl (not_not.1 inside))
      obtain ⟨comm, is_comm⟩ := isSome_iff_exists.1 (I.owned a r here)
      rw [here, any_some, is_comm, any_some] at checked
      obtain ⟨args, is_args⟩ := isSome_iff_exists.1 checked
      have J : Inv (Requests.entered s up) := I.entered
      simp only [here, is_comm, is_args, collective, if_true]
      refine ⟨J.toCore.setArgs here args, ?_⟩
      intro b
      by_cases same : b = a
      · subst same
        dsimp only
        rw [update_self]
        exact iff_of_true held rfl
      · dsimp only
        rw [update_of_ne same]
        exact I.holds b

lemma requestFree (held : s.held a = true) : Inv { requestFree s a with held := update s.held a false } := by
  obtain ⟨r, here⟩ := isSome_iff_exists.1 ((I.holds a).1 held)
  obtain ⟨comms, K, same, eq⟩ := I.toCore.requestFree_eq here
  refine ⟨⟨⟨K.sound, K.listed, K.owned, K.once⟩, K.fresh, K.past⟩, ?_⟩
  rw [eq]
  exact I.holds_update (by simp)

lemma commDestroy (live : (s.comms c).isSome) :
    Inv { commDestroy s c with held := fun a => s.held a && ¬(s.requests a).any fun r => r.comm = c } := by
  obtain ⟨l, circle, mem⟩ := I.listed c live
  have enough : l.length < s.made + 1 := Nat.lt_succ_of_le (I.toCore.length_le (circle.nodup.of_cons.of_map) mem)
  obtain ⟨K, left, _, _⟩ := I.toCore.freeRequests_right circle mem enough
  have D := K.drop (c := c) fun a r here => ((left a r).1 here).2
  refine ⟨⟨⟨D.sound, D.listed, D.owned, D.once⟩, D.fresh, D.past⟩, ?_⟩
  intro a
  have stays : ((Requests.commDestroy s c).requests a).isSome ↔ ∃ r, s.requests a = some r ∧ r.comm ≠ c := by
    rw [isSome_iff_exists]
    exact exists_congr (left a)
  rw [stays, Bool.and_eq_true, I.holds]
  cases here : s.requests a with
  | none | some r => simp

end

end Inv

variable {s' : State} {act : Action}

lemma Inv.step (I : Inv s) (st : step s act = some s') (starts : Starts s act) : Inv s' := by
  cases act with
  | create up size rank pid args malloc =>
    obtain ⟨new, eq⟩ := ite_none_right_eq_some.1 st
    cases eq
    exact I.commCreate new
  | winAlloc c win | winFree c win =>
    obtain ⟨_, eq⟩ := ite_none_right_eq_some.1 st
    cases eq
    exact I.setWins _
  | init up call comm malloc =>
    cases comm with
    | none =>
      cases st
      exact I.entered
    | some c =>
      obtain ⟨fine, eq⟩ := ite_none_right_eq_some.1 st
      cases eq
      obtain ⟨live, new⟩ := Bool.and_eq_true_iff.1 fine
      exact I.requestInit live new
  | start up request phases =>
    obtain ⟨held, eq⟩ := ite_none_right_eq_some.1 st
    cases eq
    apply I.requestStart held
    rintro a rfl inside
    exact starts inside
  | free request =>
    cases request with
    | none =>
      cases st
      exact I
    | some a =>
      obtain ⟨held, eq⟩ := ite_none_right_eq_some.1 st
      cases eq
      exact I.requestFree held
  | destroy comm =>
    cases comm with
    | none =>
      cases st
      exact I
    | some c =>
      obtain ⟨live, eq⟩ := ite_none_right_eq_some.1 st
      cases eq
      exact I.commDestroy live

lemma inv_init (begin_ : machine.init s) : Inv s := by
  obtain ⟨_, comms, requests, held, made, released, fault⟩ := begin_
  refine ⟨⟨⟨fault, ?_, ?_, ?_⟩, ?_, ?_⟩, ?_⟩
  · intro c live
    rw [comms] at live
    cases live
  · intro a r here
    rw [requests] at here
    cases here
  · intro i lt
    rw [made] at lt
    exact absurd lt (Nat.not_lt_zero i)
  · intro a r here
    rw [requests] at here
    cases here
  · intro i at_
    rw [released] at at_
    exact absurd at_ not_mem_nil
  · intro a
    rw [held, requests]
    simp

lemma reach_inv (h : machine.Reach Starts s) : Inv s :=
  h.inv (fun _ begin_ => inv_init begin_) fun _ _ _ I starts st => I.step st starts

lemma safeFree_frame (here : s.requests a = some r) :
    (s.safeFree a).links = s.links ∧ (s.safeFree a).comms = s.comms ∧ (s.safeFree a).requests a = none := by
  simp only [State.safeFree, here, update_self, and_self]

lemma start_frame (I : Inv s) {phases : Bool} (held : s.held a = true) (inside : enters s up = true)
    (fails : succeeds s a phases = false) :
    (requestStart s up (some a) phases).links = s.links ∧ (requestStart s up (some a) phases).comms = s.comms ∧
      (requestStart s up (some a) phases).requests a = none := by
  obtain ⟨r, here⟩ := isSome_iff_exists.1 ((I.holds a).1 held)
  obtain ⟨comm, is_comm⟩ := isSome_iff_exists.1 (I.owned a r here)
  rw [succeeds, here, any_some, is_comm, any_some] at fails
  unfold requestStart
  rw [if_neg (not_not.2 inside)]
  simp only [here, is_comm]
  cases check : requestCheck comm r.args with
  | none => exact safeFree_frame (s := entered s up) here
  | some args =>
    rw [check, isSome_some, Bool.true_and] at fails
    dsimp only
    rw [if_neg (Bool.eq_false_iff.1 fails)]
    exact safeFree_frame (update_self ..)

lemma start_wrong (I : Inv s) {phases : Bool} (held : s.held a = true) (inside : enters s up = true)
    (fails : succeeds s a phases = false) : ¬Right (requestStart s up (some a) phases) := by
  obtain ⟨links, comms, gone⟩ := start_frame I held inside fails
  intro right
  obtain ⟨r, here⟩ := isSome_iff_exists.1 ((I.holds a).1 held)
  have live := I.owned a r here
  obtain ⟨l, circle, mem⟩ := I.listed r.comm live
  obtain ⟨k, circle', mem'⟩ := right.listed r.comm (comms ▸ live)
  rw [links] at circle'
  have inj : Injective Node.list := by
    rintro a b ⟨⟩
    rfl
  obtain rfl : k = l := map_injective_iff.2 inj (circle'.unique circle)
  obtain ⟨r', here', _⟩ := (mem' a).1 ((mem a).2 ⟨r, here, rfl⟩)
  rw [gone] at here'
  cases here'

/-- In every run in which no start fails, lists and releases are right, and the next call keeps them right if and only
if it is no start that fails. -/
theorem requests_right (h : machine.Reach Starts s) :
    Right s ∧ ∀ act s', machine.step s act = some s' → (Right s' ↔ Starts s act) := by
  have I := reach_inv h
  refine ⟨I.toRight, ?_⟩
  intro act s' st
  refine ⟨?_, fun starts => (I.step st starts).toRight⟩
  intro right
  cases act with
  | start up request phases =>
    cases request with
    | none => trivial
    | some a =>
      obtain ⟨held, eq⟩ := ite_none_right_eq_some.1 st
      cases eq
      intro inside
      by_contra fails
      exact start_wrong I held inside (Bool.eq_false_iff.2 fails) right
  | create | winAlloc | winFree | init | free | destroy => trivial

/-- A program before its first call. -/
def begin_ : State where
  inited := false
  comms _ := none
  requests _ := none
  links := ⟨id, id⟩
  held _ := false
  made := 0
  released := []
  fault := false

lemma win_fits : ((64 : Nat) : Int) ≤ intMax := by decide

/-- A window of a communicator. -/
def win : Win := ⟨7, 64, 0, win_fits⟩

/-- A pointer into the window. -/
def buf : Option Ptr := some ⟨some 7, 0⟩

/-- An initialisation for two of the requests of a run. -/
def reduce : Call := .allreduce buf buf 4 (some .int) .sum .auto

/-- Two requests, one freed and one destroyed with its communicator. -/
theorem requests_right_two : ∃ s, machine.Reach Starts s ∧ s.released = [0, 1] ∧ s.requests 0 = none ∧
    Right s ∧ ∀ act s', machine.step s act = some s' → (Right s' ↔ Starts s act) := by
  obtain ⟨s, h, hs⟩ := Machine.reach_of_run (M := machine) (g := Starts) (s := begin_)
    (w := [.create .ok 1 0 1 true (some 0), .winAlloc 0 win, .init .ok reduce (some 0) (some 0),
      .init .ok reduce (some 0) (some 1), .start .ok (some 1) true, .free (some 1), .destroy (some 0)])
    (P := fun s => decide (s.released = [0, 1]) && (s.requests 0).isNone)
    ⟨rfl, rfl, rfl, rfl, rfl, rfl, rfl⟩ (by decide +kernel)
  obtain ⟨released, gone⟩ := Bool.and_eq_true_iff.1 hs
  exact ⟨s, h, of_decide_eq_true released, isNone_iff_eq_none.1 gone, requests_right h⟩

/-- A message whose size is no `int` is only found out by the start. -/
def tooBig : Call := .alltoall buf (2 ^ 31 - 1) (some .int) buf 1 .int .auto

/-- The start fails and releases the request, and the communicator releases it again. -/
theorem requests_not_right : ∃ s, machine.Reachable s ∧ s.released = [0] ∧ s.fault = true ∧ ¬Right s := by
  obtain ⟨s, h, hs⟩ := Machine.reach_of_run (M := machine) (g := fun _ _ => True) (s := begin_)
    (w := [.create .ok 1 0 1 true (some 0), .winAlloc 0 win, .init .ok tooBig (some 0) (some 0),
      .start .ok (some 0) true, .destroy (some 0)])
    (P := fun s => decide (s.released = [0]) && s.fault) ⟨rfl, rfl, rfl, rfl, rfl, rfl, rfl⟩ (by decide +kernel)
  obtain ⟨released, fault⟩ := Bool.and_eq_true_iff.1 hs
  refine ⟨s, h, of_decide_eq_true released, fault, ?_⟩
  intro right
  rw [right.sound] at fault
  cases fault

end Kupl.Shmc.Requests
