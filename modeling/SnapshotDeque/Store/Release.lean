import SnapshotDeque.Store

/-!
Giving links and nodes back. A link that no open snapshot can reach is released, and with the last
link of an unlinked node the node itself is disposed. Obsolete links are released in the order in
which they were retired; a pass stops at the first one that a snapshot may still reach, and after
as many as it is allowed.
-/

namespace SnapshotDeque.Store

variable {α : Type}

/-- Disposes a node if it is unlinked and has no links left. -/
def disposeNode (node : Handle) (s : Store α) (p : Pass) : Store α × Pass :=
  match s.arena.get? node with
  | some n =>
    if n.isDisposable then
      match s.arena.remove node with
      | some (n, arena) =>
        (emit (.dispose n.element) { s with arena }, { p with nodes := p.nodes + 1 })
      | none => (s, p)
    else (s, p)
  | none => (s, p)

/-- Releases a link, and with the last link of an unlinked node the node. -/
def release (s : Store α) (p : Pass) (i : Nat) : Store α × Pass :=
  let node := s.owner i
  let s := { s with
    links := s.links.release i
    arena := s.arena.modify node fun n => { n with liveLinks := n.liveLinks - 1 } }
  s.disposeNode node { p with links := p.links + 1 }

/-- Whether no open snapshot can reach an obsolete link. -/
def isReclaimable (s : Store α) (i : Nat) : Bool :=
  match (s.links.get i).obsoleteOn with
  | some v => v < s.timeline.oldestPinned
  | none => false

/-- The obsolete links that a pass may release. -/
def due (s : Store α) (budget : Nat) : List Nat :=
  (s.obsolete.takeWhile s.isReclaimable).take budget

/-- One pass over the obsolete links, releasing at most `budget`. -/
def reclaim (s : Store α) (budget : Nat) : Pass × Store α :=
  if s.obsolete.isEmpty then ({}, s)
  else
    let due := s.due budget
    let rest := s.obsolete.drop due.length
    let start : Store α × Pass := ({ s with obsolete := rest }, {})
    let (s, p) := due.foldl (fun (s, p) i => s.release p i) start
    let p := { p with remaining := rest.length }
    (p, { s with totals := s.totals.recordRun p })

/-- The pass before every change: none if the first obsolete link has to stay. -/
def reclaimPending (s : Store α) : Store α :=
  if s.obsolete.head?.any s.isReclaimable then (s.reclaim s.config.reclaimBatch).2 else s

end SnapshotDeque.Store
