import SnapshotDeque.Version
import SnapshotDeque.Error

/-!
Links: the position of a node among its neighbours, as of one modification version. A link that an
open snapshot may still need is never changed; it is superseded by a newer link of the same node,
and the two point at each other. The links of a deque live in one table, and a link is named by its
place in the table, which is never given again. `LinkTable.resolve` finds, from any link of a node,
the one that was current at a given version.
-/

namespace SnapshotDeque

structure Link (α : Type) where
  owner : Handle
  createdOn : Version
  /-- The version on which the link was superseded or its node unlinked. -/
  obsoleteOn : Option Version := none
  older : Option Nat := none
  newer : Option Nat := none
  previous : Option Nat := none
  next : Option Nat := none
  /-- Missing in the links of the two sentinels, and once the link is released. -/
  element : Option α := none
  /-- How many nodes are linked; kept in the links of the two sentinels only. -/
  count : Nat := 0

/-- What a snapshot's reader may learn of a link. -/
structure LinkInfo where
  node : Handle
  createdOn : Version
  obsoleteOn : Option Version
deriving DecidableEq

/-- As in `LinkInfo { node: NodeHandle(2@0), created_on: Version(1), obsolete_on: None }`. -/
def LinkInfo.debug (l : LinkInfo) : String :=
  let obsoleteOn := match l.obsoleteOn with
    | some v => "Some(" ++ v.debug ++ ")"
    | none => "None"
  "LinkInfo \x7b node: " ++ l.node.debug ++ ", created_on: " ++ l.createdOn.debug ++
    ", obsolete_on: " ++ obsoleteOn ++ " \x7d"

namespace Link

variable {α : Type}

/-- What stands for the links outside a table: one that holds nothing. -/
def blank : Link α := { owner := .atBegin, createdOn := .zero }

def isSentinel (l : Link α) : Bool := l.owner.isSentinel

/-- The first tag stays. -/
def markObsolete (l : Link α) (v : Version) : Link α :=
  { l with obsoleteOn := l.obsoleteOn.or (some v) }

/-- Gives up all that the link leads to, except its successor: a neighbour that still points here
finds its way through that. -/
def release (l : Link α) : Link α :=
  { l with element := none, previous := none, next := none, older := none }

/-- Cuts the way back to `i`. -/
def forgetOlder (l : Link α) (i : Nat) : Link α :=
  if l.older = some i then { l with older := none } else l

/-- The element to show for the link; none for a sentinel and for a released link. -/
def shown? (l : Link α) : Option α := if l.isSentinel then none else l.element

def info (l : Link α) : LinkInfo := ⟨l.owner, l.createdOn, l.obsoleteOn⟩

end Link

structure LinkTable (α : Type) where
  cells : Array (Link α) := #[]

namespace LinkTable

variable {α : Type}

def size (t : LinkTable α) : Nat := t.cells.size

def get (t : LinkTable α) (i : Nat) : Link α := t.cells[i]?.getD .blank

def push (t : LinkTable α) (l : Link α) : LinkTable α := ⟨t.cells.push l⟩

def modify (t : LinkTable α) (i : Nat) (f : Link α → Link α) : LinkTable α :=
  ⟨t.cells.modify i f⟩

@[simp] theorem size_push (t : LinkTable α) (l : Link α) : (t.push l).size = t.size + 1 := by
  simp [size, push]

@[simp] theorem size_modify (t : LinkTable α) (i : Nat) (f : Link α → Link α) :
    (t.modify i f).size = t.size := by
  simp [size, modify]

theorem get_push (t : LinkTable α) (l : Link α) (i : Nat) :
    (t.push l).get i = if i = t.size then l else t.get i := by
  by_cases h : i = t.cells.size <;> simp [get, push, size, Array.getElem?_push, h]

theorem get_modify (t : LinkTable α) (i j : Nat) (f : Link α → Link α) :
    (t.modify i f).get j = if i = j ∧ j < t.size then f (t.get j) else t.get j := by
  simp only [get, modify, size, Array.getElem?_modify]
  by_cases hij : i = j
  · by_cases hj : j < t.cells.size <;> simp [hij, hj]
  · simp [hij]

theorem get_of_size_le {t : LinkTable α} {i : Nat} (h : t.size ≤ i) : t.get i = .blank := by
  simp [get, Array.getElem?_eq_none h]

def setPrevious (t : LinkTable α) (i j : Nat) : LinkTable α :=
  t.modify i fun l => { l with previous := some j }

def setNext (t : LinkTable α) (i j : Nat) : LinkTable α :=
  t.modify i fun l => { l with next := some j }

/-- Supersedes link `i` by a new link of the same node, created on `v`, with the same neighbours,
element and count. -/
def fork (t : LinkTable α) (i : Nat) (v : Version) : Except Error (Nat × LinkTable α) :=
  let l := t.get i
  if v ≤ l.createdOn then
    .error (.internal ("fork of " ++ l.owner.text ++ " at " ++ v.text ++
      " does not advance past " ++ l.createdOn.text))
  else if l.newer.isSome then
    .error (.internal ("link of " ++ l.owner.text ++ " created on " ++ l.createdOn.text ++
      " was forked twice"))
  else
    let j := t.size
    let forked := { l with createdOn := v, obsoleteOn := none, older := some i, newer := none }
    .ok (j, (t.push forked).modify i fun l => ({ l with newer := some j }).markObsolete v)

/-- Releases link `i`, after its successor has forgotten the way back to it. -/
def release (t : LinkTable α) (i : Nat) : LinkTable α :=
  let t := match (t.get i).newer with
    | some j => t.modify j (·.forgetOlder i)
    | none => t
  t.modify i Link.release

/-- From link `i` back to a link that is no younger than `v`. Predecessors have smaller places. -/
def resolveBack (t : LinkTable α) (v : Version) (i : Nat) : Option Nat :=
  if (t.get i).createdOn ≤ v then some i
  else match (t.get i).older with
    | some j => if j < i then resolveBack t v j else none
    | none => none
termination_by i

/-- From link `i` forward, as long as the successor is no younger than `v`. Successors have larger
places. -/
def resolveForward (t : LinkTable α) (v : Version) (i : Nat) : Nat :=
  match (t.get i).newer with
  | some j =>
    if i < j ∧ j < t.size ∧ (t.get j).createdOn ≤ v then resolveForward t v j else i
  | none => i
termination_by t.size - i

/-- The link of the same node that was current at `v`; none if the way back to it was cut. -/
def resolve (t : LinkTable α) (v : Version) (i : Nat) : Option Nat :=
  (t.resolveBack v i).map (t.resolveForward v)

end LinkTable

end SnapshotDeque
