import SnapshotDeque.Store

/-!
Insertion at the ends. The capacity is judged before anything else happens, for all the elements of
one call together.
-/

namespace SnapshotDeque.Edit

variable {α : Type}

def checkCapacity (additional : Nat) : Edit α Unit := do
  let s ← get
  if s.length + additional > s.capacity then throw (.capacityExceeded s.capacity)

/-- Links a new node between two links whose nodes are neighbours, stamped with `v`. -/
def spliceBetween (element : α) (side : End) (v : Version) (previous next : Nat) :
    Edit α Handle := do
  let (node, arena) ← ask fun s => s.arena.insert element
  modify fun s => { s with arena }
  let next ← writable next v
  let previous ← writable previous v
  let link ← newLink
    { owner := node, createdOn := v, element := some element
      previous := some previous, next := some next }
  join previous link
  join link next
  install link
  checkSplice previous link
  checkSplice link next
  recount (· + 1) v
  modify (Store.emit (.link node side v))
  return node

/-- Links a new node at one end, stamped with `v`. -/
def splice (element : α) (side : End) (v : Version) : Edit α Handle := do
  match side with
  | .first =>
    let b := (← get).beginLink
    let next ← ask fun s => s.nextOf b
    spliceBetween element side v b next
  | .last =>
    let e := (← get).endLink
    let previous ← ask fun s => s.previousOf e
    spliceBetween element side v previous e

def insert (element : α) (side : End) : Edit α Handle := do
  checkCapacity 1
  splice element side (← mint)

/-- The elements end up in the order given, at either end. -/
def insertAll (elements : List α) (side : End) : Edit α (List Handle) := do
  checkCapacity elements.length
  if elements.isEmpty then return []
  let v ← mint
  match side with
  | .last => elements.mapM (splice · side v)
  | .first => return (← elements.reverse.mapM (splice · side v)).reverse

end SnapshotDeque.Edit
