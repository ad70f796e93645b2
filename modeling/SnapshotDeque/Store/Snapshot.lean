import SnapshotDeque.Store.Remove

/-!
Opening and closing snapshots. A snapshot holds a version and remembers the outermost links and the
length at that version, which is all it takes to see the deque as it was.
-/

namespace SnapshotDeque

/-- What a snapshot captured when it was opened. -/
structure View where
  id : SnapshotId
  version : Version
  first : Nat
  last : Nat
  size : Nat

namespace Edit

variable {α : Type}

def openSnapshot : Edit α View := do
  let id : SnapshotId := ⟨(← get).snapshotsOpened + 1⟩
  modify fun s => { s with snapshotsOpened := id.val }
  let version ← modifyGet fun s =>
    let (v, t) := s.timeline.pin id
    (v, { s with timeline := t })
  let first ← ask fun s => s.outermost .first
  let last ← ask fun s => s.outermost .last
  return { id, version, first, last, size := (← get).length }

/-- Unlinks `n` nodes from the front, and gives the link that `seen` shows for the last of them. -/
def unlinkSeen (seen v : Version) : (n last : Nat) → Edit α Nat
  | 0, last => pure last
  | n + 1, _ => do
    let i ← ask fun s => s.outermost .first
    match (← get).links.resolve seen i with
    | none => fault "polled link is not visible to its snapshot"
    | some j =>
      unlinkAt i v
      unlinkSeen seen v n j

/-- Opens a snapshot and unlinks up to `limit` nodes from the front, or all of them; the snapshot
shows just these. -/
def openPolled (limit : Option Nat) : Edit α View := do
  let view ← openSnapshot
  let taken := (limit.map (min · view.size)).getD view.size
  if taken = 0 then return { view with size := 0 }
  let v ← mint
  if taken = view.size then
    let _ ← unlinkEverything v
    return view
  let last ← unlinkSeen view.version v taken view.last
  return { view with last, size := taken }

end Edit

namespace Store

variable {α : Type}

/-- Gives up a snapshot's hold on its version. If it was the last one there, a pass follows. -/
def closeSnapshot (s : Store α) (id : SnapshotId) (v : Version) : Pass × Store α :=
  let (wasLast, timeline) := s.timeline.unpin v id
  let s := { s with timeline }
  if wasLast then s.reclaim s.config.reclaimBatch
  else ({ remaining := s.obsolete.length }, s)

/-- Releases every link and node, for good. -/
def dispose (s : Store α) : Store α :=
  let (nodes, arena) := s.arena.drain
  let released := s.obsolete ++ nodes.filterMap (·.head) ++ [s.beginLink, s.endLink]
  let links := released.foldl (fun t i => t.modify i Link.release) s.links
  { s with
    disposed := true
    arena
    obsolete := []
    links := links.modify s.beginLink fun l => { l with count := 0 }
    events := if s.emitting then s.events ++ nodes.map (.dispose ·.element) else s.events
    timeline := s.timeline.clear }

end Store

end SnapshotDeque
