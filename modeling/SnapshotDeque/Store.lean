import SnapshotDeque.Config
import SnapshotDeque.Link
import SnapshotDeque.Arena
import SnapshotDeque.Timeline
import SnapshotDeque.Reclamation
import SnapshotDeque.Event

/-!
The state of a deque, and the edits that all its operations are made of. The deque is a chain of
nodes between two sentinels. A link names its neighbours by links of theirs that may have been
superseded since: only the owner of such a link counts, and the neighbour is that owner's current
link.
-/

namespace SnapshotDeque

structure Store (α : Type) where
  config : Config
  links : LinkTable α
  /-- The current link of the begin sentinel. -/
  beginLink : Nat
  /-- The current link of the end sentinel. -/
  endLink : Nat
  arena : Arena α
  timeline : Timeline := {}
  /-- The links that only snapshots may still need, the one retired first in front. -/
  obsolete : List Nat := []
  totals : Totals := {}
  snapshotsOpened : Nat := 0
  /-- Whether events are recorded, which they are while there is an observer. -/
  emitting : Bool := false
  /-- The events that are not queued for delivery yet, in order. -/
  events : List (Event α) := []
  disposed : Bool := false

/-- A change of the store that may fail; what was done before a failure stays done. -/
abbrev Edit (α ρ : Type) := EStateM Error (Store α) ρ

namespace Store

variable {α : Type}

def init (config : Config) : Store α :=
  { config
    links := (LinkTable.push {} { owner := .atBegin, createdOn := .initial, next := some 1 }).push
      { owner := .atEnd, createdOn := .initial, previous := some 0 }
    beginLink := 0
    endLink := 1
    arena := { recordSequence := config.nodeMetadata } }

def capacity (s : Store α) : Nat := s.config.effectiveCapacity

def length (s : Store α) : Nat := (s.links.get s.beginLink).count

def remainingCapacity (s : Store α) : Nat := s.capacity - s.length

def owner (s : Store α) (i : Nat) : Handle := (s.links.get i).owner

/-- The current link of a node. -/
def head (s : Store α) (node : Handle) : Except Error Nat :=
  if node = .atBegin then .ok s.beginLink
  else if node = .atEnd then .ok s.endLink
  else match s.arena.head? node with
    | some i => .ok i
    | none => .error (.internal ("neighbor " ++ node.text ++ " is not linked"))

def nextOf (s : Store α) (i : Nat) : Except Error Nat :=
  match (s.links.get i).next with
  | some j => s.head (s.owner j)
  | none => .error (.internal ("link of " ++ (s.owner i).text ++ " has no next"))

def previousOf (s : Store α) (i : Nat) : Except Error Nat :=
  match (s.links.get i).previous with
  | some j => s.head (s.owner j)
  | none => .error (.internal ("link of " ++ (s.owner i).text ++ " has no previous"))

/-- The link next to a sentinel; that of the other sentinel if the deque is empty. -/
def outermost (s : Store α) : End → Except Error Nat
  | .first => s.nextOf s.beginLink
  | .last => s.previousOf s.endLink

/-- The links from `i` to the end, as long as there are no more than `n`. -/
def linksFrom (s : Store α) (n i : Nat) : Except Error (List Nat) :=
  if (s.links.get i).isSentinel then .ok []
  else match n with
    | 0 => .error (.internal "live deque is longer than its count")
    | n + 1 => do
      let j ← s.nextOf i
      return i :: (← s.linksFrom n j)

/-- The current links of the linked nodes, front to back. -/
def liveLinks (s : Store α) : Except Error (List Nat) := do
  s.linksFrom s.length (← s.outermost .first)

def emit (e : Event α) (s : Store α) : Store α :=
  if s.emitting then { s with events := s.events ++ [e] } else s

end Store

namespace Edit

variable {α ρ : Type}

/-- Looks something up. -/
def ask (f : Store α → Except Error ρ) : Edit α ρ := fun s =>
  match f s with
  | .ok a => .ok a s
  | .error e => .error e s

def fault (message : String) : Edit α ρ := throw (.internal message)

def editLinks (f : LinkTable α → LinkTable α) : Edit α Unit :=
  modify fun s => { s with links := f s.links }

/-- Puts a link into the table. -/
def newLink (l : Link α) : Edit α Nat :=
  modifyGet fun s => (s.links.size, { s with links := s.links.push l })

/-- The version to stamp a change with that starts now. -/
def mint : Edit α Version :=
  modifyGet fun s => let (v, t) := s.timeline.advance; (v, { s with timeline := t })

/-- Puts a superseded link behind those retired before it. -/
def retire (i : Nat) : Edit α Unit :=
  modify fun s => { s with obsolete := s.obsolete ++ [i] }

/-- Makes `i` the current link of its node. -/
def install (i : Nat) : Edit α Unit := do
  let node := (← get).owner i
  if node = .atBegin then modify fun s => { s with beginLink := i }
  else if node = .atEnd then modify fun s => { s with endLink := i }
  else if ((← get).arena.get? node).isSome then
    modify fun s => { s with
      arena := s.arena.modify node fun n =>
        { n with head := some i, liveLinks := n.liveLinks + 1 } }
  else fault ("node " ++ node.text ++ " is not allocated")

/-- The link of the same node that may be changed at `v`: the link itself unless an open snapshot
may see it, and else a fork of it, which becomes the current link. -/
def writable (i : Nat) (v : Version) : Edit α Nat := do
  let s ← get
  let created := (s.links.get i).createdOn
  if v ≤ created || !s.timeline.isObserved created then return i
  let (j, links) ← ask fun s => s.links.fork i v
  modify fun s => { s with links }
  install j
  retire i
  return j

/-- Makes two links neighbours. -/
def join (left right : Nat) : Edit α Unit :=
  editLinks fun t => (t.setNext left right).setPrevious right left

/-- Refuses to go on unless the two links are current and lead to each other. -/
def checkSplice (left right : Nat) : Edit α Unit := do
  let s ← get
  let leadsTo (j : Option Nat) (i : Nat) := j.any fun j => s.owner j = s.owner i
  let current (i : Nat) := match s.head (s.owner i) with | .ok j => j = i | .error _ => false
  unless leadsTo (s.links.get left).next right && leadsTo (s.links.get right).previous left
      && current left && current right do
    fault ("splice of " ++ (s.owner left).text ++ " and " ++ (s.owner right).text ++
      " left the neighbors disagreeing")

/-- Applies `f` to the count at both ends. -/
def recount (f : Nat → Nat) (v : Version) : Edit α Unit := do
  let b ← writable (← get).beginLink v
  let e ← writable (← get).endLink v
  let apply (l : Link α) := { l with count := f l.count }
  editLinks fun t => (t.modify b apply).modify e apply

end Edit

end SnapshotDeque
