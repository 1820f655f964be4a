import Kupl.Queue.Event

/-!
# The life of an event

Where the task of each event is in a run, from the moment the event is enqueued to the release of its
successors, who enqueues it, which predecessors it still waits for, and who has the lock of each queue. All of
it is history of the run: `Ghost` says it, `Places` says that the agents are where it says, and `Move` says what
becomes of it when an agent takes a step.

C++ → Lean naming: where the task of an event is → `Stage`; how far `kupl_event_submit` is → `Link`.
-/

namespace Kupl.Events
open Dag

/-- Where the task of an event is. -/
inductive Stage where
  /-- In no queue, and it has no successors to release. -/
  | out
  /-- Enqueued, before its predecessors have released it. -/
  | pending
  /-- Released before it was counted. -/
  | lost
  | ready
  /-- Among the ready tasks of an executor. -/
  | handed (agent : Nat)
  | item (agent : Nat)
  | flagged (agent : Nat)
  | dequeuing (agent : Nat)
  | clearing (agent : Nat)
  | finishing (agent : Nat)
  deriving DecidableEq, Repr

namespace Stage

/-- The event is in its queue. -/
def Member : Stage → Prop
  | .pending | .lost | .ready | .handed _ | .item _ | .flagged _ => True
  | _ => False

instance : (g : Stage) → Decidable g.Member
  | .pending | .lost | .ready | .handed _ | .item _ | .flagged _ => .isTrue trivial
  | .out | .dequeuing _ | .clearing _ | .finishing _ => .isFalse not_false

/-- The marks of its function. -/
def progress : Stage → Nat
  | .item _ => 1
  | .flagged _ => 2
  | _ => 0

def agent : Stage → Option Nat
  | .handed a | .item a | .flagged a | .dequeuing a | .clearing a | .finishing a => some a
  | _ => none

end Stage

/-- How far C++ `kupl_event_submit` is: the predecessors to come, the edges that are not counted yet and
all edges; `opened` as long as it goes on. -/
structure Link where
  rest : List Nat
  debt : Nat
  told : Nat
  opened : Bool

/-- The task of an event, the agent that enqueues it and the predecessors it waits for. -/
structure Life where
  stage : Stage
  author : Option Nat
  preds : List Nat
  link : Link

/-- The lock of a queue. -/
inductive Hold where
  | free
  | adding (agent event : Nat)
  | removing (agent event : Nat)

def Hold.agent : Hold → Option Nat
  | .free => none
  | .adding a _ | .removing a _ => some a

structure Ghost where
  life : Nat → Life
  lock : Nat → Hold

/-- An event in no queue. -/
def Link.blank : Link := ⟨[], 0, 0, false⟩

/-- An event that was not enqueued. -/
def Life.blank : Life := ⟨.out, none, [], Link.blank⟩

namespace Ghost
variable (G : Ghost)

def set (event : Nat) (l : Life) : Ghost := { G with life := Function.update G.life event l }

def setStage (event : Nat) (stage : Stage) : Ghost :=
  G.set event { G.life event with stage := stage }

def setLink (event : Nat) (link : Link) : Ghost := G.set event { G.life event with link := link }

def setLock (queue : Nat) (l : Hold) : Ghost := { G with lock := Function.update G.lock queue l }

section SetStage
variable {e t : Nat} {st : Stage}

lemma setStage_keeps : ((G.setStage e st).life t).author = (G.life t).author ∧
    ((G.setStage e st).life t).preds = (G.life t).preds ∧
    ((G.setStage e st).life t).link = (G.life t).link := by
  by_cases eq : t = e
  · subst eq
    simp [setStage, set]
  · simp [setStage, set, eq]

@[simp] lemma setStage_author : ((G.setStage e st).life t).author = (G.life t).author := G.setStage_keeps.1

@[simp] lemma setStage_preds : ((G.setStage e st).life t).preds = (G.life t).preds := G.setStage_keeps.2.1

@[simp] lemma setStage_link : ((G.setStage e st).life t).link = (G.life t).link := G.setStage_keeps.2.2

@[simp] lemma setStage_self : ((G.setStage e st).life e).stage = st := by simp [setStage, set]

@[simp] lemma setStage_ne (h : t ≠ e) : ((G.setStage e st).life t).stage = (G.life t).stage := by
  simp [setStage, set, h]

end SetStage
end Ghost

def Life.released (l : Life) (agent event : Nat) : Life :=
  let preds := l.preds.filter (· ≠ event)
  { l with
    preds := preds
    stage := if event ∈ l.preds ∧ preds = [] then
      if l.link.debt = 0 then .handed agent else .lost else l.stage }

def Ghost.release (G : Ghost) (agent event : Nat) : Ghost :=
  { G with life := fun t =>
      if t = event then { (G.life t).released agent event with stage := .out }
      else (G.life t).released agent event }

/-- The ghost once agent `a` is to enqueue event `e`. -/
abbrev Ghost.arm (G : Ghost) (a e : Nat) : Ghost := G.set e { G.life e with author := some a, link := .blank }

/-- The ghost once agent `a` has the lock of queue `q`, to enqueue event `e`. -/
abbrev Ghost.enter (G : Ghost) (s : State) (a e q : Nat) : Ghost :=
  (G.set e { G.life e with stage := .pending, link := ⟨s.sources e q, 0, 0, true⟩ }).setLock q (.adding a e)

/-- What edges depend on. -/
abbrev State.SameLinks (s s' : State) (t : Nat) : Prop :=
  (s'.event t).live = (s.event t).live ∧ (s'.event t).kind = (s.event t).kind ∧
    (s'.event t).linking = (s.event t).linking

abbrev State.SameQueue (s s' : State) (q : Nat) : Prop :=
  (s'.queue q).items = (s.queue q).items ∧ (s'.queue q).dequeued = (s.queue q).dequeued ∧
    (s'.queue q).added = (s.queue q).added

abbrev State.SameItem (s s' : State) (e : Nat) : Prop :=
  (s'.event e).q = (s.event e).q ∧ (s'.event e).item = (s.event e).item ∧ (s'.event e).kind = (s.event e).kind ∧
    (s'.event e).wait = (s.event e).wait

/-- Agent `a` releases the successors of event `e`. -/
abbrev State.finished (s : State) (a e : Nat) : State :=
  ({ s with gnode := (gnodeReleaseReady s.gnode e).1 }.setEvent e { s.event e with live := false }).setPc a
    (.scheduling e (gnodeReleaseReady s.gnode e).2)

/-- The agent has nothing to do with the task of an event. -/
def Pc.Calm : Pc → Prop
  | .idle | .inPlace _ | .checked .. | .awaitOwn _ | .awaiting _ => True
  | _ => False

/-- The agent is on the way to enqueue the event. -/
def Pc.Authors (pc : Pc) (event : Nat) : Prop :=
  match pc with
  | .armed e _ | .submitting e .. | .counting e .. | .leaving e _ => e = event
  | _ => False

def Pc.Locks (pc : Pc) (queue : Nat) : Hold → Prop
  | .free => False
  | .adding _ event =>
    match pc with
    | .submitting e q .. | .counting e q .. | .leaving e q => e = event ∧ q = queue
    | _ => False
  | .removing _ event =>
    match pc with
    | .dequeuing e q | .clearing e q => e = event ∧ q = queue
    | _ => False

/-- The agent enqueues the event in the queue, with its lock. -/
structure Adds (s : State) (G : Ghost) (agent event queue : Nat) (link : Link) : Prop where
  author : (G.life event).author = some agent
  link : (G.life event).link = link
  member : (G.life event).stage.Member
  home : (s.event event).q = some queue
  lock : G.lock queue = .adding agent event

/-- What the history says of an agent. -/
def At (s : State) (G : Ghost) (a : Nat) : Pc → Prop
  | .armed e q => (G.life e).author = some a ∧ (G.life e).stage = .out ∧ (G.life e).link = .blank ∧
      (s.event e).q = some q
  | .submitting e q rest n => Adds s G a e q ⟨rest, 0, n, true⟩
  | .counting e q _ rest n => Adds s G a e q ⟨rest, 1, n + 1, true⟩
  | .leaving e q => ∃ n, Adds s G a e q ⟨[], 0, n, false⟩
  | .item e q k => (G.life e).stage = .item a ∧ (s.event e).q = some q ∧ (s.event e).item = k
  | .flagged e k => (G.life e).stage = .flagged a ∧ (s.event e).item = k
  | .dequeuing e q => (G.life e).stage = .dequeuing a ∧ (s.event e).q = some q ∧ G.lock q = .removing a e
  | .clearing e q => (G.life e).stage = .clearing a ∧ (s.event e).q = some q ∧ G.lock q = .removing a e
  | .dequeued e | .finishing e => (G.life e).stage = .finishing a
  | .scheduling _ ts => ts.Nodup ∧ ∀ t ∈ ts, (G.life t).stage = .handed a
  | _ => True

/-- The event has a reference for what the agent does with it. -/
def Uses (s : State) (a : Nat) : Pc → Prop
  | .checked e _ | .awaiting e => (s.event e).owner = .user ∧ a ∈ (s.event e).users
  | .armed e _ =>
    ((s.event e).owner = .call a ∨ (s.event e).owner = .user ∧ a ∈ (s.event e).users) ∧
      ((s.event e).kind ≠ .record → (s.event e).owner = .call a)
  | .submitting e .. | .counting e .. | .leaving e _ =>
    (s.event e).kind = .wait → (s.event e).owner = .call a
  | .awaitOwn e => (s.event e).owner = .call a
  | _ => True

/-- The agents are where the history says. -/
structure Places (s : State) (G : Ghost) : Prop where
  place : ∀ a, At s G a (s.pc a)
  uses : ∀ a, Uses s a (s.pc a)
  author : ∀ e a, (G.life e).author = some a → (s.pc a).Authors e
  handed : ∀ t a, (G.life t).stage = .handed a → ∃ e ts, s.pc a = .scheduling e ts ∧ t ∈ ts
  locks : ∀ q a, (G.lock q).agent = some a → (s.pc a).Locks q (G.lock q)
  locked : ∀ q, (s.queue q).locked = false ↔ G.lock q = .free
  ready : ∀ e, e ∈ s.ready ↔ (G.life e).stage = .ready
  nodup : s.ready.Nodup
  live : ∀ e, (s.event e).live = false ↔ (G.life e).author = none ∧ (G.life e).stage = .out
  home : ∀ e, (G.life e).stage ≠ .out → ∃ q, (s.event e).q = some q
  done : ∀ e, (s.event e).finished = true → (G.life e).author = none ∧
    ((G.life e).stage = .out ∨ ∃ a, (G.life e).stage = .finishing a)
  waits : ∀ e, (s.event e).kind = .wait → ∃ w, (s.event e).wait = some w
  fresh : ∀ e, s.created ≤ e → G.life e = .blank ∧ s.event e = eventBlank

/-- The agent has a reference of the task of the event. -/
def Pc.Pins (pc : Pc) (event : Nat) : Prop :=
  match pc with
  | .waiting _ (some e) _ | .scheduling e _ => e = event
  | _ => False

/-- The events that queues, agents and other events know were enqueued before, and the task of an event that was
enqueued is at work until it has finished. -/
structure Known (s : State) (G : Ghost) : Prop where
  stage : ∀ e, (G.life e).stage ≠ .out → (s.event e).status ≠ .created
  last : ∀ q e, (s.queue q).lastEvent = some e → (s.event e).status ≠ .created
  pins : ∀ a e, (s.pc a).Pins e → (s.event e).status ≠ .created
  rest : ∀ t p, p ∈ (G.life t).link.rest → (s.event p).status ≠ .created
  wait : ∀ t w, (s.event t).kind = .wait → (s.event t).wait = some w → (s.event w).status ≠ .created
  fin : ∀ a e, s.pc a = .finishing e → (s.event e).finished = true
  work : ∀ e, (s.event e).status ≠ .created → (s.event e).live = true ∨ (s.event e).finished = true

/-- The predecessors an event waits for are the edges of the graph, and its counter is their number, but for
those that are not counted yet. -/
structure Edges (s : State) (G : Ghost) : Prop where
  count : ∀ p t, (G.life t).preds.count p =
    if (s.event p).live = true then (succs s.gnode p).count t else 0
  number : ∀ t, (s.gnode t).nPredecessors = ((G.life t).preds.length : Int) - (G.life t).link.debt
  still : ∀ t, (G.life t).stage ≠ .pending → (G.life t).preds = [] ∧ (G.life t).link.rest = []
  single : ∀ t, (s.event t).kind ≠ .wait → (G.life t).preds.length + (G.life t).link.rest.length ≤ 1
  linking : ∀ t, (s.event t).linking = false ↔ (G.life t).link.rest = [] ∧ (G.life t).link.debt = 0
  closed : ∀ t, (G.life t).link.opened = false → (G.life t).link.rest = [] ∧ (G.life t).link.debt = 0
  free : ∀ t, (G.life t).author = none → (G.life t).link.opened = false
  begun : ∀ t, (G.life t).link.told = 0 → (G.life t).preds = [] ∧
    ((G.life t).stage = .pending ↔ (G.life t).link.opened = true)
  held : ∀ t, (G.life t).stage = .pending → (G.life t).link.told ≠ 0 → (G.life t).preds ≠ []
  kept : ∀ t, (s.event t).kind = .wait → (G.life t).stage ≠ .lost

/-- What an agent does, with the history. -/
inductive Move : State → Ghost → State → Ghost → Prop where
  | queue {s G} (q : Nat) (requests : Bool) (inPlace : List Nat) :
    Move s G (s.setQueue q { s.queue q with requests := requests, inPlace := inPlace }) G
  | users {s G} (e : Nat) (users : List Nat) : e < s.created →
    (∀ b, Uses (s.setEvent e { s.event e with users := users }) b (s.pc b)) →
    Move s G (s.setEvent e { s.event e with users := users }) G
  | create {s G} (o : Owner) : o ≠ .none → Move s G (s.create o) G
  | destroy {s G} (e : Nat) : (s.event e).owner ≠ .none → (∀ b, Uses (s.destroy e) b (s.pc b)) →
    Move s G (s.destroy e) G
  | turn {s G} {a : Nat} {pc : Pc} : (s.pc a).Calm → pc.Calm → Uses s a pc → Move s G (s.setPc a pc) G
  | arm {s G} {a e q : Nat} {kind : Kind} {wait : Option Nat} : (s.pc a).Calm → (s.event e).live = false →
    (s.event e).owner = .call a ∨ (s.event e).owner = .user ∧ a ∈ (s.event e).users →
    (kind ≠ .record → (s.event e).owner = .call a) → e < s.created →
    (kind = .wait → ∃ w, wait = some w ∧ (s.event w).status ≠ .created) →
    (kind ≠ .record → (s.event e).status = .created) →
    Move s G ((s.eventInit e kind wait q).setPc a (.armed e q))
      (G.arm a e)
  | enter {s G} {a e q : Nat} : s.pc a = .armed e q → (s.queue q).locked = false → Move s G (s.enter a e q)
      (G.enter s a e q)
  | skip {s G} {a e q p n : Nat} {ps : List Nat} : s.pc a = .submitting e q (p :: ps) n →
      (s.event p).finished = true →
    Move s G ((s.setLinking e ps).setPc a (.submitting e q ps n)) (G.setLink e ⟨ps, 0, n, true⟩)
  | insert {s G} {a e q p n : Nat} {ps : List Nat} : s.pc a = .submitting e q (p :: ps) n →
    (s.event p).finished = false →
    Move s G ({ s with gnode := gnodeInsert s.gnode p e }.setPc a (.counting e q p ps n))
      (G.set e { G.life e with preds := p :: (G.life e).preds, link := ⟨ps, 1, n + 1, true⟩ })
  | count {s G} {a e q p n : Nat} {ps : List Nat} : s.pc a = .counting e q p ps n →
    Move s G (({ s with gnode := gnodeCount s.gnode e }.setLinking e ps).setPc a
      (.submitting e q ps (n + 1))) (G.setLink e ⟨ps, 0, n + 1, true⟩)
  | schedule {s G} {a e q : Nat} : s.pc a = .submitting e q [] 0 → Move s G ((s.schedAddTb e).setPc a (.leaving e q))
      (G.set e { G.life e with stage := .ready, link := ⟨[], 0, 0, false⟩ })
  | submitted {s G} {a e q n : Nat} : s.pc a = .submitting e q [] (n + 1) →
    Move s G (s.setPc a (.leaving e q)) (G.setLink e ⟨[], 0, n + 1, false⟩)
  | leave {s G} {a e q : Nat} : s.pc a = .leaving e q → Move s G ((s.leave e q).setPc a .idle)
      ((G.set e { G.life e with author := none }).setLock q .free)
  | wait {s G} {a q e : Nat} : s.pc a = .idle → (s.queue q).locked = false → (s.queue q).eventCount ≠ 0 →
    (s.queue q).lastEvent = some e →
    Move s G ((s.setEvent e { s.event e with taskRef := (s.event e).taskRef + 1 }).setPc a
      (.waiting q (some e) (s.queue q).items.length)) G
  | pass {s G} {a q : Nat} : s.pc a = .idle → (s.queue q).locked = false →
    (s.queue q).eventCount = 0 ∨ (s.queue q).lastEvent = none →
    Move s G (s.setPc a (.waiting q none (s.queue q).items.length)) G
  | waited {s G} {a q e b : Nat} : s.pc a = .waiting q (some e) b → (s.event e).finished = true →
    Move s G ((s.setEvent e (s.event e).taskDeref).setPc a .idle) G
  | passed {s G} {a q b : Nat} : s.pc a = .waiting q none b → Move s G (s.setPc a .idle) G
  | run {s G} {a e q : Nat} : s.pc a = .idle → (s.event e).q = some q → e ∈ s.ready →
    Move s G (({ s with ready := s.ready.erase e }.note q (.start (s.event e).item)).setPc a
      (.item e q (s.event e).item)) (G.setStage e (.item a))
  | stop {s G} {a e q k : Nat} : s.pc a = .item e q k →
    Move s G ((s.stop e q k).setPc a (.flagged e k)) (G.setStage e (.flagged a))
  | dequeue {s G} {a e q k : Nat} : s.pc a = .flagged e k → (s.event e).q = some q → (s.queue q).locked = false →
    Move s G ((s.dequeue e q k).setPc a (.dequeuing e q))
      ((G.setStage e (.dequeuing a)).setLock q (.removing a e))
  | deref {s G} {a e q : Nat} : s.pc a = .dequeuing e q →
    Move s G ((s.setEvent e (s.event e).deref).setPc a (.clearing e q)) (G.setStage e (.clearing a))
  | clear {s G} {a e q : Nat} : s.pc a = .clearing e q →
    Move s G ((s.clear e q).setPc a (.dequeued e)) ((G.setStage e (.finishing a)).setLock q .free)
  | finish {s G} {a e : Nat} : s.pc a = .dequeued e →
    Move s G ((s.setEvent e { s.event e with finished := true }).setPc a (.finishing e)) G
  | release {s G} {a e : Nat} : s.pc a = .finishing e →
    (∀ t ∈ succs s.gnode e, (s.event t).kind = .wait → (s.event t).linking = false) →
    Move s G (s.finished a e)
      (G.release a e)
  | add {s G} {a e t : Nat} {ts : List Nat} : s.pc a = .scheduling e (t :: ts) →
    Move s G ((s.schedAddTb t).setPc a (.scheduling e ts)) (G.setStage t .ready)
  | finished {s G} {a e : Nat} : s.pc a = .scheduling e [] →
    Move s G ((s.setEvent e (s.event e).taskDeref).setPc a .idle) G

/-- One after the other. -/
def Moves (s : State) (G : Ghost) (s' : State) (G' : Ghost) : Prop :=
  Relation.ReflTransGen (fun x y : State × Ghost => Move x.1 x.2 y.1 y.2) (s, G) (s', G')

end Kupl.Events
