import SnapshotDeque.Session.Answer

/-!
The state of a session: a deque with its observers, the event buffers waiting for delivery, and the
tables of what was given out. Every change of the deque goes through `change`, which queues the
events of the change and has the queue delivered, unless a batch is under way: its events wait for
its end.
-/

namespace SnapshotDeque

/-- A snapshot in the table, with what keeps others from closing or using it. -/
structure Session.Entry where
  snapshot : Snapshot
  /-- How many calls and walks that look into the snapshot are under way. -/
  uses : Nat := 0
  /-- Whether the snapshot is just being closed. -/
  closing : Bool := false

structure Session where
  store : Store Session.Element
  /-- Buffers of events, the one to deliver first in front. -/
  outbox : List (List (Event Session.Element)) := []
  /-- In the order of registration. -/
  registered : List ObserverId := []
  /-- Every observer that was ever registered, in the order of its number, the first of which is
  one. -/
  observers : Array Session.Observer := #[]
  /-- The observers whose registration is done, the latest first. While events queued earlier are
  delivered to a new observer, nobody knows its number yet. -/
  known : List ObserverId := []
  handles : Array Handle := #[]
  /-- Every snapshot ever opened; none in the place of one that was dropped. -/
  snapshots : Array (Option Session.Entry) := #[]
  /-- In order. -/
  heard : List Session.Heard := []

namespace Session

def init (config : Config) : Session := { store := .init config }

/-- Queues the events recorded since the last time. -/
def post (s : Session) : Session :=
  match s.store.events with
  | [] => s
  | events => { s with outbox := s.outbox ++ [events], store := { s.store with events := [] } }

/-- The circumstances under which a command runs. -/
structure Mode where
  /-- Whether a batch is under way. -/
  batch : Bool
  /-- Delivers what is queued. -/
  deliver : Session → Session

variable {ρ : Type}

def change (s : Session) (m : Mode) (c : Mutation Element ρ) : Except Error ρ × Session :=
  let (r, store) := c.run s.store
  let s := { s with store }
  if m.batch then (r, s) else (r, m.deliver s.post)

def observer? (s : Session) (id : ObserverId) : Option Observer :=
  if id.val = 0 then none else s.observers[id.val - 1]?

def setObserver (s : Session) (id : ObserverId) (o : Observer) : Session :=
  { s with observers := s.observers.setIfInBounds (id.val - 1) o }

def handle? (s : Session) : NodeRef → Option Handle
  | .handle h => some h
  | .recorded k => s.handles[k]?

def held? (s : Session) (k : Nat) : Option Entry := s.snapshots[k]?.join

def setEntry (s : Session) (k : Nat) (f : Entry → Entry) : Session :=
  { s with snapshots := s.snapshots.modify k (·.map f) }

def addHandles (s : Session) (hs : List Handle) : Session :=
  { s with handles := s.handles ++ hs.toArray }

def addUse (s : Session) (k : Nat) : Session :=
  s.setEntry k fun e => { e with uses := e.uses + 1 }

def endUse (s : Session) (k : Nat) : Session :=
  s.setEntry k fun e => { e with uses := e.uses - 1 }

/-- Puts a snapshot that was just opened into the table. -/
def addSnapshot (s : Session) (v : View) : Answer × Session :=
  (.opened v.id v.version s.snapshots.size,
    { s with snapshots := s.snapshots.push (some { snapshot := { view := v } }) })

def report (s : Session) : Report :=
  { stats := s.store.stats
    first := s.store.peek .first
    last := s.store.peek .last
    observers := s.registered.length }

/-- The pinned versions; of the holders, those numbered up to 64 are named. -/
def holders (s : Session) : List Holders :=
  s.store.timeline.markers.map fun m =>
    { version := m.version
      count := m.snapshots.length
      ids := m.snapshots.filter fun id => id.val ≤ 64 }

end Session

end SnapshotDeque
