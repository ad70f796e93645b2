import SnapshotDeque.Cursor
import SnapshotDeque.Mutation

/-!
Snapshots as their holders see them. Every look inside is refused once the snapshot is closed or,
that aside, the deque disposed. Removal through a snapshot picks nodes among those that the snapshot
shows and takes them from the live deque.
-/

namespace SnapshotDeque

structure Snapshot where
  view : View
  closed : Bool := false

/-- A test that may remember what it was asked before. -/
structure Test (α : Type) where
  State : Type
  start : State
  ask : State → α → Bool × State

namespace Test

variable {α : Type}

/-- A test without memory. -/
def ofPredicate (p : α → Bool) : Test α := ⟨Unit, (), fun _ a => (p a, ())⟩

def not (p : Test α) : Test α :=
  ⟨p.State, p.start, fun s a => ((!(p.ask s a).1), (p.ask s a).2)⟩

/-- Asks of each item in turn and keeps those for which the answer is yes. -/
def select {β : Type} (p : Test α) (value : β → α) : p.State → List β → List β
  | _, [] => []
  | s, b :: bs =>
    let (yes, s) := p.ask s (value b)
    if yes then b :: p.select value s bs else p.select value s bs

/-- Asks of each item in turn until the answer is yes. -/
def first? {β : Type} (p : Test α) (value : β → α) : p.State → List β → Option β
  | _, [] => none
  | s, b :: bs =>
    let (yes, s) := p.ask s (value b)
    if yes then some b else p.first? value s bs

end Test

namespace Snapshot

variable {α : Type}

def checkOpen (s : Snapshot) (d : Store α) : Except Error Unit :=
  if s.closed then .error (.snapshotClosed s.view.id)
  else if d.disposed then .error .disposed
  else .ok ()

def size (s : Snapshot) (d : Store α) : Except Error Nat := do
  s.checkOpen d
  return s.view.size

def cursor (s : Snapshot) (d : Store α) : Except Error Cursor := do
  s.checkOpen d
  return .ofView d.links s.view

/-- The nodes shown, with their elements, front to back. -/
def nodes (s : Snapshot) (d : Store α) : Except Error (List (Handle × α)) := do
  return ((← s.cursor d).forward d.links).map fun (i, a) => (d.owner i, a)

/-- The nodes shown, with their elements, back to front. -/
def nodesReversed (s : Snapshot) (d : Store α) : Except Error (List (Handle × α)) := do
  return ((← s.cursor d).backward d.links).map fun (i, a) => (d.owner i, a)

def elements (s : Snapshot) (d : Store α) : Except Error (List α) := do
  return (← s.nodes d).map (·.2)

def elementsReversed (s : Snapshot) (d : Store α) : Except Error (List α) := do
  return (← s.nodesReversed d).map (·.2)

/-- The links that the snapshot sees, front to back. -/
def links (s : Snapshot) (d : Store α) : Except Error (List LinkInfo) := do
  return ((← s.cursor d).forward d.links).map fun (i, _) => (d.links.get i).info

def firstNode (s : Snapshot) (d : Store α) : Except Error (Option (Handle × α)) := do
  return ((← s.cursor d).nextFront d.links).1.map fun (i, a) => (d.owner i, a)

def lastNode (s : Snapshot) (d : Store α) : Except Error (Option (Handle × α)) := do
  return ((← s.cursor d).nextBack d.links).1.map fun (i, a) => (d.owner i, a)

def find? (s : Snapshot) (d : Store α) (p : Test α) : Except Error (Option (Handle × α)) := do
  return p.first? (·.2) p.start (← s.nodes d)

def contains [DecidableEq α] (s : Snapshot) (d : Store α) (a : α) : Except Error Bool := do
  return a ∈ (← s.elements d)

def position? [DecidableEq α] (s : Snapshot) (d : Store α) (a : α) :
    Except Error (Option Nat) := do
  return (← s.elements d).findIdx? (· = a)

/-- The shown nodes that `p` picks. -/
def picked (s : Snapshot) (d : Store α) (p : Test α) : Except Error (List Handle) := do
  return (p.select (·.2) p.start (← s.nodes d)).map (·.1)

/-- As in `Snapshot { id: SnapshotId(1), version: Version(1), size: 2, closed: false }`. -/
def debug (s : Snapshot) : String :=
  "Snapshot \x7b id: " ++ s.view.id.debug ++ ", version: " ++ s.view.version.debug ++
    ", size: " ++ toString s.view.size ++ ", closed: " ++ toString s.closed ++ " \x7d"

end Snapshot

end SnapshotDeque
