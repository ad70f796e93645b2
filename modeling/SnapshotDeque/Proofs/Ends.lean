import SnapshotDeque.Event

/-!
Lists taken from and added to at their two ends.
-/

namespace SnapshotDeque.End

variable {β : Type}

/-- The item at one end. -/
def outermost? : End → List β → Option β
  | first, l => l.head?
  | last, l => l.getLast?

/-- What is left without the item at one end. -/
def rest : End → List β → List β
  | first, l => l.tail
  | last, l => l.dropLast

/-- A list with more items at one end. -/
def add : End → List β → List β → List β
  | first, xs, l => xs ++ l
  | last, xs, l => l ++ xs

/-- A list with more items at one end, put there one after the other. -/
def pushAll : End → List β → List β → List β
  | first, xs, l => xs.reverse ++ l
  | last, xs, l => l ++ xs

theorem outermost?_eq_none {side : End} {l : List β} (h : side.outermost? l = none) : l = [] := by
  cases side with
  | first => exact List.head?_eq_none_iff.1 h
  | last => exact List.getLast?_eq_none_iff.1 h

theorem pushAll_nil (side : End) (l : List β) : side.pushAll [] l = l := by
  cases side <;> simp [pushAll]

theorem pushAll_cons (side : End) (x : β) (xs l : List β) :
    side.pushAll (x :: xs) l = side.pushAll xs (side.add [x] l) := by
  cases side <;> simp [pushAll, add]

theorem length_add (side : End) (xs l : List β) :
    (side.add xs l).length = l.length + xs.length := by
  cases side <;> simp [add, Nat.add_comm]

theorem length_rest (side : End) (l : List β) : (side.rest l).length = l.length - 1 := by
  cases side <;> simp [rest]

theorem outermost?_add (side : End) (x : β) (l : List β) :
    side.outermost? (side.add [x] l) = some x := by
  cases side <;> simp [outermost?, add]

theorem outermost?_map {γ : Type} (side : End) (f : β → γ) (l : List β) :
    side.outermost? (l.map f) = (side.outermost? l).map f := by
  cases side with
  | first => exact List.head?_map
  | last => exact List.getLast?_map

end SnapshotDeque.End
