import SnapshotDeque.Version
import SnapshotDeque.Error
import SnapshotDeque.Link

/-!
The arena of nodes. A node sits in a slot; the slot of a node that is gone gets a new generation and
is handed out again, the one freed last before the others. The first two slots belong to the
sentinels and are never handed out.
-/

namespace SnapshotDeque

structure Node (α : Type) where
  id : NodeId
  element : α
  /-- The current link; none once the node is unlinked, and never set again after that. -/
  head : Option Nat := none
  /-- The links of the node that are not released yet, the current one included. -/
  liveLinks : Nat := 0
  /-- The place in the order of creation, if the deque records it. -/
  sequence : Option Nat := none

/-- Whether nothing can lead to the node any more. -/
def Node.isDisposable {α : Type} (n : Node α) : Bool := n.head.isNone && n.liveLinks == 0

structure Slot (α : Type) where
  generation : UInt32 := 0
  node : Option (Node α) := none

structure Arena (α : Type) where
  slots : Array (Slot α) := Array.replicate Handle.reservedSlots {}
  /-- The vacant slots, the one freed last in front. -/
  free : List UInt32 := []
  /-- The identity of the next node. It is not bounded by 2^64. -/
  nextId : Nat := 1
  size : Nat := 0
  recordSequence : Bool := false

namespace Arena

variable {α : Type}

/-- How many slots a handle's index can tell apart. -/
def slotLimit : Nat := 4294967296

/-- The node at a place, whatever its generation. -/
def slot (a : Arena α) (index : UInt32) : Slot α := a.slots[index.toNat]?.getD {}

def get? (a : Arena α) (h : Handle) : Option (Node α) :=
  if h.isSentinel then none
  else if (a.slot h.index).generation = h.generation then (a.slot h.index).node
  else none

def head? (a : Arena α) (h : Handle) : Option Nat := (a.get? h).bind (·.head)

def modify (a : Arena α) (h : Handle) (f : Node α → Node α) : Arena α :=
  if (a.get? h).isSome then
    { a with slots := a.slots.modify h.index.toNat fun s => { s with node := s.node.map f } }
  else a

/-- A node for `element`, not linked yet, in the slot freed last or else in a new one. -/
def insert (a : Arena α) (element : α) : Except Error (Handle × Arena α) :=
  let node : Node α :=
    { id := ⟨a.nextId⟩, element, sequence := if a.recordSequence then some a.nextId else none }
  let a' := { a with nextId := a.nextId + 1, size := a.size + 1 }
  match a.free with
  | index :: free =>
    .ok (⟨index, (a.slot index).generation⟩,
      { a' with free, slots := a.slots.modify index.toNat fun s => { s with node := some node } })
  | [] =>
    let taken := a.slots.size
    if taken < slotLimit then
      .ok (⟨UInt32.ofNat taken, 0⟩, { a' with slots := a.slots.push { node := some node } })
    else .error (.internal ("node arena index space exhausted at " ++ toString taken ++ " slots"))

/-- Takes the node out and gives its slot a new generation. -/
def remove (a : Arena α) (h : Handle) : Option (Node α × Arena α) :=
  (a.get? h).map fun n =>
    (n, { a with
      slots := a.slots.modify h.index.toNat fun s =>
        { generation := s.generation + 1, node := none }
      free := h.index :: a.free
      size := a.size - 1 })

/-- Every node, by slot. -/
def nodes (a : Arena α) : List (Node α) := a.slots.toList.filterMap (·.node)

/-- Takes every node out, as `remove` would, slot by slot in ascending order. -/
def drain (a : Arena α) : List (Node α) × Arena α :=
  let vacated := a.slots.toList.zipIdx.filterMap fun (s, i) => s.node.map fun _ => UInt32.ofNat i
  (a.nodes, { a with
    slots := a.slots.map fun s =>
      if s.node.isSome then { generation := s.generation + 1, node := none } else s
    free := vacated.reverse ++ a.free
    size := 0 })

end Arena

end SnapshotDeque
