import SnapshotDeque.Session.Element

/-!
What a session can be told to do. Nodes are named by handle or by their place among the handles
given out so far, snapshots by their place among the snapshots opened so far.
-/

namespace SnapshotDeque.Session

inductive NodeRef
  | handle (h : Handle)
  | recorded (k : Nat)

/-- What the deque can be asked. -/
inductive Call
  | insert (e : Element) (side : End)
  | insertAll (es : List Element) (side : End)
  /-- As `insert`, but a full deque is no failure. -/
  | offer (e : Element) (side : End)
  | unlink (node : NodeRef)
  | poll (side : End)
  /-- As `poll`, but an empty deque is a failure. -/
  | remove (side : End)
  | peek (side : End)
  /-- As `peek`, but an empty deque is a failure. -/
  | get (side : End)
  | clear
  | len
  | room
  | capacity
  | isEmpty
  | isDisposed
  | isLinked (node : NodeRef)
  | element (node : NodeRef)
  | nodeInfo (node : NodeRef)
  | contains (e : Element)
  | name
  | stats
  | markers
  | debug
  /-- The elements, seen through a snapshot that is closed again at once. -/
  | live
  | reclaim
  | dispose
  | openSnapshot
  | openPolled (limit : Option Nat)
  | unregister (id : Nat)
  | counts (id : Nat)
  | report
  /-- A call that cannot be understood. -/
  | malformed (reason : String)

/-- What a snapshot can be asked. -/
inductive SnapshotCall
  | id
  | version
  | size
  | isClosed
  | isEmpty
  | elements
  | elementsReversed
  | nodes
  | nodesReversed
  | links
  | first
  | last
  | firstNode
  | lastNode
  | find (p : Predicate)
  | contains (e : Element)
  | position (e : Element)
  | debug
  | unlink (node : NodeRef)
  | remove (e : Element)
  | removeAll (es : List Element)
  | removeIf (p : Predicate)
  | retainOnly (p : Predicate)
  /-- A call that cannot be understood. -/
  | malformed (reason : String)

/-- How a batch ends when its commands are done. -/
inductive Ending
  | succeed
  | fail
  | panic
deriving DecidableEq

/-- How an observer's callback comes back. Nobody else learns of it. -/
inductive Verdict
  | ok
  | error
  | panic
deriving DecidableEq

/-- What a walk shows of each node. -/
inductive WalkForm
  | elements
  | nodes
  | links
deriving DecidableEq

mutual

inductive Command
  | call (c : Call)
  /-- A call on the transaction of the batch under way. -/
  | txn (c : Call)
  | snapshot (k : Nat) (c : SnapshotCall)
  | close (k : Nat)
  /-- Takes a snapshot from the table and closes it. -/
  | drop (k : Nat)
  | register (o : Observer)
  /-- A batch. With `stop`, the first failure of a command ends it. -/
  | compute (commands : List Command) (stop : Bool) (ending : Ending)
  | walk (k : Nat) (form : WalkForm) (steps : List WalkStep)

inductive WalkStep
  | front
  | back
  | hint
  | command (c : Command)

/-- What a callback does. -/
inductive Behaviour
  | silent
  /-- Notes what it hears. -/
  | note (verdict : Verdict)
  /-- Notes what it hears; in each of the first `times` calls it also gives commands. After that it
  does as `after`. -/
  | react (times : Nat) (commands : List Command) (after : Behaviour)

inductive Observer
  | silent
  /-- Counts what it hears and keeps the disposed elements, the latest first. -/
  | counting (links unlinks : Nat) (disposed : List Element)
  | scripted (tag : String) (onLink onUnlink onDispose : Behaviour)

end

instance : Inhabited Command := ⟨.call .report⟩
instance : Inhabited WalkStep := ⟨.hint⟩
instance : Inhabited Behaviour := ⟨.silent⟩
instance : Inhabited Observer := ⟨.silent⟩

/-- What the callbacks of a fresh counting observer know. -/
def Observer.counter : Observer := .counting 0 0 []

end SnapshotDeque.Session
