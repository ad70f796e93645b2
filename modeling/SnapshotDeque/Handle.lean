/-!
How nodes, snapshots and observers are named from outside. A node is named by a handle: the index
of its arena slot and the generation that the slot had when the node was made. The slot gets its
next generation with every node that goes, and generations are 32-bit numbers: a handle whose node
is gone names no later tenant of the slot until 2^32 nodes are gone from there.

The other names are numbers that are given once, counted from 1. They are counted without a bound
here, and are the same as in 64 bits as long as fewer than 2^64 of them were given.
-/

namespace SnapshotDeque

structure Handle where
  index : UInt32
  generation : UInt32
deriving DecidableEq

/-- What a handle's slot is for: the first two slots belong to the two ends of the deque. -/
inductive Role
  | beginSentinel
  | endSentinel
  | payload
deriving DecidableEq

namespace Role

def isSentinel (r : Role) : Bool := r ≠ .payload

def debug : Role → String
  | .beginSentinel => "Begin"
  | .endSentinel => "End"
  | .payload => "Payload"

end Role

namespace Handle

def atBegin : Handle := ⟨0, 0⟩

def atEnd : Handle := ⟨1, 0⟩

def reservedSlots : Nat := 2

/-- Decided by the index alone, whatever the generation. -/
def role (h : Handle) : Role :=
  if h.index = 0 then .beginSentinel else if h.index = 1 then .endSentinel else .payload

def isSentinel (h : Handle) : Bool := h.index < 2

instance : Inhabited Handle := ⟨atBegin⟩

/-- By index, then by generation. -/
instance : Ord Handle :=
  ⟨fun a b => (compare a.index.toNat b.index.toNat).then
    (compare a.generation.toNat b.generation.toNat)⟩

/-- As in `2@0`. -/
def text (h : Handle) : String := toString h.index.toNat ++ "@" ++ toString h.generation.toNat

def debug (h : Handle) : String :=
  if h = atBegin then "NodeHandle(BEGIN)"
  else if h = atEnd then "NodeHandle(END)"
  else "NodeHandle(" ++ h.text ++ ")"

end Handle

/-- The identity of a node, drawn from its deque's sequence; in 64 bits as long as there are fewer
than 2^64 nodes. -/
structure NodeId where
  val : Nat
deriving DecidableEq

def NodeId.debug (n : NodeId) : String := "NodeId(" ++ toString n.val ++ ")"

/-- Counted as node identities are, without a bound. -/
structure SnapshotId where
  val : Nat
deriving DecidableEq

def SnapshotId.debug (n : SnapshotId) : String := "SnapshotId(" ++ toString n.val ++ ")"

/-- Counted as node identities are, without a bound. -/
structure ObserverId where
  val : Nat
deriving DecidableEq

def ObserverId.debug (n : ObserverId) : String := "ObserverId(" ++ toString n.val ++ ")"

end SnapshotDeque
