import Kupl.Queue.Known

/-!
# Every move keeps the edges

The predecessors an event waits for are the edges of the graph in every run that does not meet an event
half-way (`Edges.move`). Most moves are about other things (`Edges.congr`); the others set an event up, go through
`kupl_event_submit` step by step, and release the successors of a task.
-/

namespace Kupl.Events
open Dag List
open Function (update update_of_ne update_self)

section Edges
variable {s s' : State} {G G' : Ghost} {a e p q n : Nat} {ps : List Nat}

section
variable (E : Edges s G)
include E

lemma Edges.congr (life : ∀ t, (G'.life t).preds = (G.life t).preds ∧ (G'.life t).link = (G.life t).link ∧
      ((G'.life t).stage = .pending ↔ (G.life t).stage = .pending) ∧
      ((G'.life t).stage = .lost → (G.life t).stage = .lost))
    (free : ∀ t, (G'.life t).author = none → (G.life t).author = none ∨ (G.life t).link.opened = false)
    (event : ∀ t, s.SameLinks s' t)
    (gnode : s'.gnode = s.gnode) : Edges s' G' := by
  constructor
  · intro p t
    rw [(life t).1, (event p).1, gnode]
    exact E.count p t
  · intro t
    rw [(life t).1, (life t).2.1, gnode]
    exact E.number t
  · intro t h
    rw [(life t).1, (life t).2.1]
    exact E.still t fun pending => h ((life t).2.2.1.2 pending)
  · intro t h
    rw [(life t).1, (life t).2.1]
    exact E.single t ((event t).2.1 ▸ h)
  · intro t
    rw [(life t).2.1, (event t).2.2]
    exact E.linking t
  · intro t
    rw [(life t).2.1]
    exact E.closed t
  · intro t h
    rw [(life t).2.1]
    rcases free t h with none | shut
    · exact E.free t none
    · exact shut
  · intro t
    rw [(life t).1, (life t).2.1, (life t).2.2.1]
    exact E.begun t
  · intro t
    rw [(life t).1, (life t).2.1, (life t).2.2.1]
    exact E.held t
  · intro t h lost
    exact E.kept t ((event t).2.1 ▸ h) ((life t).2.2.2 lost)

lemma Edges.same (event : ∀ t, s.SameLinks s' t)
    (gnode : s'.gnode = s.gnode) : Edges s' G :=
  E.congr (fun _ => ⟨rfl, rfl, Iff.rfl, id⟩) (fun _ => .inl) event gnode

lemma Edges.restage {st : Stage} (hG : G'.life = (G.setStage e st).life)
    (old : (G.life e).stage ≠ .pending) (new : st ≠ .pending ∧ st ≠ .lost)
    (event : ∀ t, s.SameLinks s' t)
    (gnode : s'.gnode = s.gnode) : Edges s' G' := by
  refine E.congr (fun t => ?_) (fun t h => .inl ?_) event gnode
  · rw [hG]
    by_cases eq : t = e
    · subst eq
      simp [Ghost.setStage, Ghost.set, old, new]
    · simp [Ghost.setStage, Ghost.set, eq]
  · rw [hG] at h
    by_cases eq : t = e
    · subst eq
      simpa [Ghost.setStage, Ghost.set] using h
    · simpa [Ghost.setStage, Ghost.set, eq] using h

lemma Edges.one {L : Life} (hG : G'.life = (G.set e L).life)
    (event : ∀ t, t ≠ e → s.SameLinks s' t)
    (others : ∀ t, t ≠ e → (s'.gnode t).nPredecessors = (s.gnode t).nPredecessors)
    (edges : ∀ p t, t ≠ e → (G.life t).preds.count p =
      if (s'.event p).live = true then (succs s'.gnode p).count t else 0)
    (count : ∀ p, L.preds.count p = if (s'.event p).live = true then (succs s'.gnode p).count e else 0)
    (number : (s'.gnode e).nPredecessors = (L.preds.length : Int) - L.link.debt)
    (still : L.stage ≠ .pending → L.preds = [] ∧ L.link.rest = [])
    (single : (s'.event e).kind ≠ .wait → L.preds.length + L.link.rest.length ≤ 1)
    (linking : (s'.event e).linking = false ↔ L.link.rest = [] ∧ L.link.debt = 0)
    (closed : L.link.opened = false → L.link.rest = [] ∧ L.link.debt = 0)
    (free : L.author = none → L.link.opened = false)
    (begun : L.link.told = 0 → L.preds = [] ∧ (L.stage = .pending ↔ L.link.opened = true))
    (held : L.stage = .pending → L.link.told ≠ 0 → L.preds ≠ [])
    (kept : (s'.event e).kind = .wait → L.stage ≠ .lost) : Edges s' G' := by
  have life_e : G'.life e = L := by rw [hG]; exact update_self ..
  have life_ne : ∀ t, t ≠ e → G'.life t = G.life t := by
    intro t ne
    rw [hG]
    exact update_of_ne ne ..
  constructor
  · intro p t
    by_cases eq : t = e
    · rw [eq, life_e]
      exact count p
    · rw [life_ne t eq]
      exact edges p t eq
  all_goals
    intro t
    by_cases eq : t = e
    · subst eq
      rw [life_e]
      assumption
    · rw [life_ne t eq]
      first
      | (rw [others t eq]; exact E.number t)
      | exact E.still t
      | (rw [(event t eq).2.1]; exact E.single t)
      | (rw [(event t eq).2.2]; exact E.linking t)
      | exact E.closed t
      | exact E.free t
      | exact E.begun t
      | exact E.held t
      | (rw [(event t eq).2.1]; exact E.kept t)

section
variable (P : Places s G)
include P

lemma Edges.arm {kind : Kind} {wait : Option Nat} (rest : (s.event e).live = false) :
    Edges ((s.eventInit e kind wait q).setPc a (.armed e q))
      (G.arm a e) := by
  obtain ⟨author, out⟩ := (P.live e).1 rest
  have none := (E.still e (by rw [out]; nofun)).1
  have shut := E.closed e (E.free e author)
  have dead : ∀ t, (G.life t).preds.count e = 0 := by
    intro t
    rw [E.count e t, if_neg (by simp [rest])]
  refine E.one rfl ?_ ?_ ?_ ?_ ?_ ?_ ?_ ?_ ?_ ?_ ?_ ?_ ?_
  · intro t ne
    simp [State.SameLinks, State.eventInit, ne]
  · intro t ne
    simp [State.eventInit, ne]
  · intro p t _
    by_cases eq : p = e
    · subst eq
      simpa [State.eventInit, succs, gnodeInit] using dead t
    · simpa [State.eventInit, succs, eq] using E.count p t
  · intro p
    by_cases eq : p = e
    · subst eq
      simp [State.eventInit, succs, gnodeInit, none]
    · simpa [State.eventInit, succs, eq] using E.count p e
  · simp [State.eventInit, gnodeInit, none, Link.blank]
  · exact fun _ => ⟨none, rfl⟩
  · exact fun _ => by simp [none, Link.blank]
  · have same : (s.event e).linking = false := (E.linking e).2 shut
    simpa [State.eventInit, Event.init, Link.blank] using same
  · exact fun _ => ⟨rfl, rfl⟩
  · exact fun _ => rfl
  · exact fun _ => ⟨none, by simp [out, Link.blank]⟩
  · intro pending
    rw [show (G.life e).stage = _ from pending] at out
    cases out
  · intro _ lost
    rw [show (G.life e).stage = _ from lost] at out
    cases out

lemma Edges.enter (hpc : s.pc a = .armed e q) : Edges (s.enter a e q)
      (G.enter s a e q) := by
  obtain ⟨author, out, blank, home⟩ := P.here hpc
  have none := (E.still e (by rw [out]; rintro ⟨⟩)).1
  have number := E.number e
  rw [none, blank] at number
  have live : ∀ p, ((s.enter a e q).event p).live = (s.event p).live := by
    intro p
    by_cases eq : p = e
    · subst eq
      simp [State.enter, State.enqueue, Event.submit]
    · simp [State.enter, State.enqueue, eq]
  refine E.one rfl ?_ (fun _ _ => rfl) ?_ ?_ ?_ (by simp) ?_ ?_ (by rintro ⟨⟩) ?_ ?_ (fun _ h => absurd rfl h)
    (fun _ => by simp)
  · intro t ne
    simp [State.SameLinks, State.enter, State.enqueue, ne]
  · intro p t _
    rw [live]
    exact E.count p t
  · intro p
    rw [live]
    exact E.count p e
  · simpa [State.enter, State.enqueue, none, Link.blank] using number
  · intro kind
    have kind : (s.event e).kind ≠ .wait := by simpa [State.enter, State.enqueue, Event.submit] using kind
    simp only [none, State.sources, if_neg kind, append_nil]
    cases (s.queue q).lastEvent <;> simp
  · simp [State.enter, State.enqueue, Event.submit]
  · intro h
    rw [show (G.life e).author = _ from h] at author
    cases author
  · exact fun _ => ⟨none, by simp⟩

lemma Edges.skip (hpc : s.pc a = .submitting e q (p :: ps) n) :
    Edges ((s.setLinking e ps).setPc a (.submitting e q ps n)) (G.setLink e ⟨ps, 0, n, true⟩) := by
  have here := P.here hpc
  have link := here.link
  have begun := E.begun e
  have held := E.held e
  have number := E.number e
  have single := E.single e
  rw [link] at begun held number single
  have live : ∀ p, ((s.setLinking e ps).event p).live = (s.event p).live :=
    fun p => update_field Event.live rfl
  refine E.one rfl ?_ (fun _ _ => rfl) ?_ ?_ number ?_ ?_ ?_ (by rintro ⟨⟩) ?_ begun held ?_
  · intro t ne
    simp [State.SameLinks, State.setLinking, ne]
  · intro p t _
    rw [show ((s.setLinking e ps).setPc a (.submitting e q ps n)).event = (s.setLinking e ps).event from rfl, live]
    exact E.count p t
  · intro p
    rw [show ((s.setLinking e ps).setPc a (.submitting e q ps n)).event = (s.setLinking e ps).event from rfl, live]
    exact E.count p e
  · intro h
    have none := (E.still e h).2
    rw [link] at none
    cases none
  · intro kind
    have := single (by simpa [State.setLinking] using kind)
    simp only [length_cons] at this ⊢
    omega
  · simp [State.setLinking]
  · exact fun h => absurd (here.author.symm.trans h) (by rintro ⟨⟩)
  · intro kind
    exact E.kept e (by simpa [State.setLinking] using kind)

lemma Edges.insert (K : Known s G)
    (hpc : s.pc a = .submitting e q (p :: ps) n) (unfinished : (s.event p).finished = false) :
    Edges ({ s with gnode := gnodeInsert s.gnode p e }.setPc a (.counting e q p ps n))
      (G.set e { G.life e with preds := p :: (G.life e).preds, link := ⟨ps, 1, n + 1, true⟩ }) := by
  have here := P.here hpc
  have link := here.link
  have number := E.number e
  have single := E.single e
  have linking := E.linking e
  rw [link] at number single linking
  have pending : (G.life e).stage = .pending := by
    by_contra h
    have none := (E.still e h).2
    rw [link] at none
    cases none
  have live : (s.event p).live = true := by
    rcases K.work p (K.rest e p (by rw [link]; simp)) with live | fin
    · exact live
    · rw [unfinished] at fin
      cases fin
  refine E.one rfl (fun _ _ => ⟨rfl, rfl, rfl⟩) ?_ ?_ ?_ ?_ (fun h => absurd pending h) ?_ ?_ nofun ?_ nofun
    (fun _ _ => by simp) (E.kept e)
  · intro t _
    simp
  · intro x t ne
    rw [E.count x t]
    simp only [State.setPc, succs_insert]
    by_cases eq : x = p
    · subst eq
      rw [update_self, count_cons_of_ne (Ne.symm ne)]
    · rw [update_of_ne eq]
  · intro x
    simp only [State.setPc, succs_insert]
    by_cases eq : x = p
    · subst eq
      have old := E.count x e
      rw [if_pos live] at old ⊢
      rw [update_self, count_cons_self, count_cons_self, old]
    · rw [update_of_ne eq, count_cons_of_ne (Ne.symm eq), E.count x e]
  · simp only [State.setPc, nPredecessors_insert, number, length_cons]
    omega
  · intro kind
    have := single kind
    simp only [length_cons] at this ⊢
    omega
  · simp at linking ⊢
    simpa using linking
  · exact fun h => absurd (here.author.symm.trans h) nofun

lemma Edges.counted (hpc : s.pc a = .counting e q p ps n) :
    Edges (({ s with gnode := gnodeCount s.gnode e }.setLinking e ps).setPc a (.submitting e q ps (n + 1)))
      (G.setLink e ⟨ps, 0, n + 1, true⟩) := by
  have here := P.here hpc
  have link := here.link
  have held := E.held e
  have number := E.number e
  have single := E.single e
  have still := E.still e
  rw [link] at held number single still
  have count : ∀ x t, (G.life t).preds.count x =
      if (update s.event e { s.event e with linking := !ps.isEmpty } x).live = true then
        (succs (gnodeCount s.gnode e) x).count t else 0 := by
    intro x t
    have same : (update s.event e { s.event e with linking := !ps.isEmpty } x).live =
        (s.event x).live := update_field Event.live rfl
    rw [same, succs_count]
    exact E.count x t
  refine E.one rfl ?_ ?_ (fun x t _ => count x t) (fun x => count x e) ?_ still ?_ ?_ (by rintro ⟨⟩) ?_
    (by rintro ⟨⟩)
    held ?_
  · intro t ne
    simp [State.SameLinks, State.setLinking, ne]
  · intro t ne
    simp [State.setLinking, nPredecessors_count, Ne.symm ne]
  · simp only [State.setLinking, State.setPc, State.setEvent, nPredecessors_count, if_pos, number]
    omega
  · exact fun kind => single (by simpa [State.setLinking] using kind)
  · simp [State.setLinking]
  · exact fun h => absurd (here.author.symm.trans h) (by rintro ⟨⟩)
  · exact fun kind => E.kept e (by simpa [State.setLinking] using kind)

lemma Edges.schedule (hpc : s.pc a = .submitting e q [] 0) : Edges ((s.schedAddTb e).setPc a (.leaving e q))
      (G.set e { G.life e with stage := .ready, link := ⟨[], 0, 0, false⟩ }) := by
  have here := P.here hpc
  have link := here.link
  have number := E.number e
  have linking := E.linking e
  have none := (E.begun e (by rw [link])).1
  rw [link] at number linking
  rw [State.schedAddTb_eq here.home]
  refine E.one rfl (fun _ _ => ⟨rfl, rfl, rfl⟩) (fun _ _ => rfl) (fun p t _ => E.count p t) (fun p => E.count p e)
    number (fun _ => ⟨none, rfl⟩) (fun _ => by simp [none]) linking (fun _ => ⟨rfl, rfl⟩) ?_
      (fun _ => ⟨none, by simp⟩)
    nofun nofun
  exact fun h => absurd (here.author.symm.trans h) nofun

lemma Edges.submitted (hpc : s.pc a = .submitting e q [] (n + 1)) :
    Edges (s.setPc a (.leaving e q)) (G.setLink e ⟨[], 0, n + 1, false⟩) := by
  have here := P.here hpc
  have link := here.link
  have held := E.held e
  have number := E.number e
  have linking := E.linking e
  have single := E.single e
  have still := E.still e
  rw [link] at held number linking single still
  refine E.one rfl (fun _ _ => ⟨rfl, rfl, rfl⟩) (fun _ _ => rfl) (fun p t _ => E.count p t) (fun p => E.count p e)
    number still single linking (fun _ => ⟨rfl, rfl⟩) ?_ nofun held (E.kept e)
  exact fun h => absurd (here.author.symm.trans h) nofun

lemma Edges.leave (hpc : s.pc a = .leaving e q) :
    Edges ((s.leave e q).setPc a .idle) ((G.set e { G.life e with author := none }).setLock q .free) := by
  obtain ⟨n, here⟩ := P.here hpc
  refine E.congr (fun t => ?_) (fun t h => ?_) (fun _ => ⟨rfl, rfl, rfl⟩) rfl
  · by_cases eq : t = e
    · subst eq
      simp [Ghost.set, Ghost.setLock]
    · simp [Ghost.set, Ghost.setLock, eq]
  · by_cases eq : t = e
    · subst eq
      exact .inr (by rw [here.link])
    · exact .inl (by simpa [Ghost.set, Ghost.setLock, eq] using h)

lemma Edges.release (hpc : s.pc a = .finishing e)
    (ok : ∀ t ∈ succs s.gnode e, (s.event t).kind = .wait → (s.event t).linking = false) :
    Edges (s.finished a e)
      (G.release a e) := by
  have stage : (G.life e).stage = .finishing a := P.here hpc
  have live : (s.event e).live = true := by
    by_contra h
    have out := ((P.live e).1 (by simpa using h)).2
    rw [stage] at out
    cases out
  have author := P.author_none (by rw [stage]; rintro ⟨⟩) (by rw [stage]; exact id)
  have static : ∀ t, (update s.event e { s.event e with live := false } t).kind = (s.event t).kind ∧
      (update s.event e { s.event e with live := false } t).linking = (s.event t).linking :=
    fun t => ⟨update_field Event.kind rfl, update_field Event.linking rfl⟩
  -- a task that is released is behind all its edges
  have paid : ∀ t, e ∈ (G.life t).preds → (G.life t).link.rest = [] ∧
      ((s.event t).kind = .wait → (G.life t).link.debt = 0) := by
    intro t mem
    by_cases kind : (s.event t).kind = .wait
    · have edge : t ∈ succs s.gnode e := by
        have count := E.count e t
        rw [if_pos live] at count
        exact count_pos_iff.1 (count ▸ count_pos_iff.2 mem)
      have shut := (E.linking t).1 (ok t edge kind)
      exact ⟨shut.1, fun _ => shut.2⟩
    · have single := E.single t kind
      have pos := length_pos_of_mem mem
      exact ⟨length_eq_zero_iff.1 (by omega), fun h => absurd h kind⟩
  have stages : ∀ t, t ≠ e → _ := fun t => Ghost.release_cases (G := G) (a := a) (t := t)
  constructor
  · intro p t
    rw [Ghost.release_preds]
    by_cases eq : p = e
    · subst eq
      have none : ((G.life t).preds.filter (· ≠ p)).count p = 0 := by
        apply count_eq_zero.2
        simp
      rw [none]
      simp
    · rw [count_filter (by simpa using eq), E.count p t]
      simp [eq, gnodeReleaseReady]
  · intro t
    rw [Ghost.release_preds, Ghost.release_link]
    have number := E.number t
    have count := E.count e t
    have all := count_add_filter (e := e) (G.life t).preds
    rw [if_pos live] at count
    simp only [State.setPc, State.setEvent, gnodeReleaseReady, releaseWalk_nPredecessors, number]
    rw [show ((s.gnode e).successors.count t) = _ from count.symm]
    omega
  · intro t h
    rw [Ghost.release_preds, Ghost.release_link]
    by_cases eq : t = e
    · subst eq
      obtain ⟨none, rest⟩ := E.still t (by rw [stage]; rintro ⟨⟩)
      exact ⟨by rw [none]; rfl, rest⟩
    · rcases stages t eq with ⟨⟨mem, last⟩, -⟩ | ⟨-, same⟩
      · exact ⟨last, (paid t mem).1⟩
      · rw [same] at h
        obtain ⟨none, rest⟩ := E.still t h
        exact ⟨by rw [none]; rfl, rest⟩
  · intro t h
    rw [Ghost.release_preds, Ghost.release_link]
    have single := E.single t ((static t).1 ▸ h)
    have le := length_filter_le (· ≠ e) (G.life t).preds
    omega
  · intro t
    rw [Ghost.release_link]
    exact (static t).2 ▸ E.linking t
  · intro t
    rw [Ghost.release_link]
    exact E.closed t
  · intro t
    rw [Ghost.release_link, Ghost.release_author]
    exact E.free t
  · intro t h
    rw [Ghost.release_link] at h ⊢
    obtain ⟨none, opened⟩ := E.begun t h
    rw [Ghost.release_preds, none]
    refine ⟨rfl, ?_⟩
    by_cases eq : t = e
    · subst eq
      rw [stage] at opened
      simpa [Ghost.release] using opened
    · rcases stages t eq with ⟨⟨mem, -⟩, -⟩ | ⟨-, same⟩
      · rw [none] at mem
        cases mem
      · rw [same]
        exact opened
  · intro t pending h
    rw [Ghost.release_link] at h
    rw [Ghost.release_preds]
    by_cases eq : t = e
    · subst eq
      simp [Ghost.release] at pending
    · rcases stages t eq with ⟨-, new⟩ | ⟨old, same⟩
      · rcases new with ⟨-, new⟩ | ⟨-, new⟩ <;> (rw [new] at pending; cases pending)
      · rw [same] at pending
        intro last
        apply old ⟨?_, last⟩
        obtain ⟨x, mem⟩ := exists_mem_of_ne_nil _ (E.held t pending h)
        by_cases xe : x = e
        · exact xe ▸ mem
        · have left : x ∈ (G.life t).preds.filter (· ≠ e) := mem_filter.2 ⟨mem, by simpa using xe⟩
          rw [last] at left
          cases left
  · intro t kind
    have kind : (s.event t).kind = .wait := (static t).1 ▸ kind
    by_cases eq : t = e
    · simp [Ghost.release, eq]
    · rcases stages t eq with ⟨⟨mem, -⟩, new⟩ | ⟨-, same⟩
      · rcases new with ⟨-, new⟩ | ⟨owed, -⟩
        · rw [new]
          rintro ⟨⟩
        · exact absurd ((paid t mem).2 kind) owed
      · rw [same]
        exact E.kept t kind

end

end

/-- Every move keeps the edges. -/
theorem Edges.move (E : Edges s G) (P : Places s G) (K : Known s G) (m : Move s G s' G') : Edges s' G' := by
  have ref : ∀ {e : Nat} {F : Event}, F.live = (s.event e).live → F.kind = (s.event e).kind →
      F.linking = (s.event e).linking → ∀ t, (update s.event e F t).live = (s.event t).live ∧
        (update s.event e F t).kind = (s.event t).kind ∧
        (update s.event e F t).linking = (s.event t).linking :=
    fun l k i t => ⟨update_field Event.live l, update_field Event.kind k, update_field Event.linking i⟩
  have linking : ∀ F : Event, F.deref.linking = F.linking := by
    intro F
    unfold Event.deref
    split <;> rfl
  cases m with
  | queue | turn | pass | passed => exact E.same (fun _ => ⟨rfl, rfl, rfl⟩) rfl
  | users | wait | waited | finish | finished => exact E.same (ref rfl rfl rfl) rfl
  | create =>
    have blank := (P.fresh s.created le_rfl).2
    exact E.same (ref (by rw [blank]; rfl) (by rw [blank]; rfl) (by rw [blank]; rfl)) rfl
  | destroy e =>
    have static := Event.deref_static { s.event e with owner := .none }
    exact E.same (ref static.1.2.2.1 static.2.1 (linking _)) rfl
  | arm _ rest => exact E.arm P rest
  | enter hpc => exact E.enter P hpc
  | skip hpc => exact E.skip P hpc
  | insert hpc unfinished => exact E.insert P K hpc unfinished
  | count hpc => exact E.counted P hpc
  | schedule hpc => exact E.schedule P hpc
  | submitted hpc => exact E.submitted P hpc
  | leave hpc => exact E.leave P hpc
  | @run a e q hpc home mem =>
    have stage := (P.ready e).1 mem
    exact E.restage rfl (by rw [stage]; nofun) ⟨nofun, nofun⟩ (fun _ => ⟨rfl, rfl, rfl⟩) rfl
  | @stop a e q k hpc | @dequeue a e q k hpc =>
    have here := P.here hpc
    exact E.restage rfl (by rw [here.1]; nofun) ⟨nofun, nofun⟩ (ref rfl rfl rfl) rfl
  | @deref a e q hpc =>
    have here := P.here hpc
    have static := Event.deref_static (s.event e)
    exact E.restage rfl (by rw [here.1]; nofun) ⟨nofun, nofun⟩
      (ref static.1.2.2.1 static.2.1 (linking _)) rfl
  | @clear a e q hpc =>
    have here := P.here hpc
    exact E.restage rfl (by rw [here.1]; nofun) ⟨nofun, nofun⟩ (fun _ => ⟨rfl, rfl, rfl⟩) rfl
  | release hpc ok => exact E.release P hpc ok
  | @add a e t ts hpc =>
    obtain ⟨q, stage, -, sched⟩ := P.scheduled hpc
    rw [sched]
    exact E.restage rfl (by rw [stage]; nofun) ⟨nofun, nofun⟩ (fun _ => ⟨rfl, rfl, rfl⟩) rfl

end Edges
end Kupl.Events
