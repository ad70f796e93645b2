import SnapshotDeque.Store.Release

/-!
Removal of nodes. The link of an unlinked node is kept for the snapshots that may see it, and
released at once if there is none.
-/

namespace SnapshotDeque.Edit

variable {α : Type}

/-- Takes the current link from a node that its neighbours no longer lead to. -/
def detach (node : Handle) (v : Version) : Edit α Unit := do
  match (← get).arena.head? node with
  | none => fault ("node " ++ node.text ++ " has no link to detach")
  | some i =>
    modify fun s =>
      { s with arena := s.arena.modify node fun n => { n with head := none } }
    modify (Store.emit (.unlink node v))
    let s ← get
    if s.timeline.isObserved (s.links.get i).createdOn then
      editLinks fun t => t.modify i (·.markObsolete v)
      retire i
    else
      modify fun s =>
        let (s, p) := s.release {} i
        { s with totals := s.totals.recordReleased p }

/-- Unlinks the node whose current link is `i`. -/
def unlinkAt (i : Nat) (v : Version) : Edit α Unit := do
  let next ← ask fun s => s.nextOf i
  let previous ← ask fun s => s.previousOf i
  let next ← writable next v
  let previous ← writable previous v
  join previous next
  checkSplice previous next
  recount (· - 1) v
  detach ((← get).owner i) v

/-- Whether the node was linked. -/
def unlink (node : Handle) : Edit α Bool := do
  if node.isSentinel then throw (.nodeNotPayload node)
  match (← get).arena.head? node with
  | none => return false
  | some i =>
    unlinkAt i (← mint)
    return true

/-- How many of the nodes were linked. -/
def unlinkEach (nodes : List Handle) : Edit α Nat :=
  nodes.foldlM (fun n node => return if ← unlink node then n + 1 else n) 0

/-- Unlinks the node at one end and gives its element. -/
def poll (side : End) : Edit α (Option α) := do
  let i ← ask fun s => s.outermost side
  let s ← get
  if (s.links.get i).isSentinel then return none
  let element := (s.arena.get? (s.owner i)).map (·.element)
  unlinkAt i (← mint)
  return element

/-- Unlinks every node: the sentinels become neighbours, and each node is detached in turn. -/
def unlinkEverything (v : Version) : Edit α Nat := do
  let links ← ask Store.liveLinks
  let s ← get
  let nodes := links.map s.owner
  if nodes.isEmpty then return 0
  let e ← writable s.endLink v
  let b ← writable (← get).beginLink v
  join b e
  editLinks fun t =>
    (t.modify b fun l => { l with count := 0 }).modify e fun l => { l with count := 0 }
  checkSplice b e
  nodes.forM (detach · v)
  return nodes.length

/-- How many nodes were linked. -/
def clear : Edit α Nat := do
  unlinkEverything (← mint)

end SnapshotDeque.Edit
