import SnapshotDeque.Store.Release

/-!
What can be read off a deque. After disposal there is nothing left to see but the statistics.
-/

namespace SnapshotDeque

structure NodeInfo where
  handle : Handle
  id : NodeId
  linked : Bool
  /-- The version on which the current link was created. -/
  linkedOn : Option Version
  sequence : Option Nat
deriving DecidableEq

/-- The figures of a deque at one moment. -/
structure Stats where
  name : String
  len : Nat
  capacity : Option Nat
  modification : Version
  baseline : Option Version
  pinned : List Version
  openSnapshots : Nat
  obsoleteLinks : Nat
  arenaNodes : Nat
  totals : Totals

namespace Store

variable {α : Type}

/-- Reads a deque that is not disposed. -/
def read {ρ : Type} (s : Store α) (otherwise : ρ) (f : Store α → ρ) : ρ :=
  if s.disposed then otherwise else f s

def len (s : Store α) : Nat := s.read 0 length

/-- How many more elements fit. -/
def room (s : Store α) : Nat := s.read 0 remainingCapacity

def peek (s : Store α) (side : End) : Option α :=
  s.read none fun s =>
    match s.outermost side with
    | .ok i => (s.links.get i).shown?
    | .error _ => none

def isLinked (s : Store α) (node : Handle) : Bool :=
  s.read false fun s => (s.arena.head? node).isSome

/-- The element of a node that is not disposed, linked or not. -/
def element? (s : Store α) (node : Handle) : Option α :=
  s.read none fun s => (s.arena.get? node).map (·.element)

def nodeInfo? (s : Store α) (node : Handle) : Option NodeInfo :=
  s.read none fun s =>
    (s.arena.get? node).map fun n =>
      { handle := node
        id := n.id
        linked := n.head.isSome
        linkedOn := n.head.map fun i => (s.links.get i).createdOn
        sequence := n.sequence }

/-- The linked nodes with their elements, front to back. -/
def entries (s : Store α) : List (Handle × α) :=
  match s.liveLinks with
  | .ok links => links.filterMap fun i => (s.links.get i).element.map (s.owner i, ·)
  | .error _ => []

def contains [DecidableEq α] (s : Store α) (a : α) : Bool :=
  s.read false fun s => s.entries.any fun (_, b) => b = a

def stats (s : Store α) : Stats :=
  { name := s.config.name
    len := s.length
    capacity := s.config.capacity
    modification := s.timeline.modification
    baseline := s.timeline.baseline
    pinned := s.timeline.pinned
    openSnapshots := s.timeline.openSnapshots
    obsoleteLinks := s.obsolete.length
    arenaNodes := s.arena.size
    totals := s.totals }

/-- As in `VersionedDeque { name: "deque", len: 0, .. }`. -/
def debug (s : Store α) : String :=
  "VersionedDeque \x7b name: " ++ Text.quoted s.config.name ++ ", len: " ++ toString s.len ++
    ", .. \x7d"

end Store

end SnapshotDeque
