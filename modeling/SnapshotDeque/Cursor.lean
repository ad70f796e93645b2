import SnapshotDeque.Store.Snapshot

/-!
Walking a snapshot from both ends. Every step follows the recorded neighbour and resolves it at the
snapshot's version, so a walk is not disturbed by what happens to the deque in the meantime. The two
ends together give no more than the size of the snapshot, and so never cross.
-/

namespace SnapshotDeque

structure Cursor where
  version : Version
  front : Option Nat
  back : Option Nat
  remaining : Nat

namespace Cursor

variable {α : Type}

/-- At both ends of a snapshot. -/
def ofView (t : LinkTable α) (w : View) : Cursor :=
  if w.size = 0 then { version := w.version, front := none, back := none, remaining := 0 }
  else
    { version := w.version, remaining := w.size
      front := t.resolve w.version w.first
      back := t.resolve w.version w.last }

/-- One step from the front. A link without an element ends the walk. -/
def nextFront (t : LinkTable α) (c : Cursor) : Option (Nat × α) × Cursor :=
  if c.remaining = 0 then (none, c)
  else match c.front with
    | none => (none, c)
    | some i =>
      match (t.get i).shown? with
      | none => (none, { c with front := none, remaining := 0 })
      | some a =>
        let remaining := c.remaining - 1
        let front := if remaining = 0 then none else (t.get i).next.bind (t.resolve c.version)
        (some (i, a), { c with front, remaining })

/-- One step from the back. A link without an element ends the walk. -/
def nextBack (t : LinkTable α) (c : Cursor) : Option (Nat × α) × Cursor :=
  if c.remaining = 0 then (none, c)
  else match c.back with
    | none => (none, c)
    | some i =>
      match (t.get i).shown? with
      | none => (none, { c with back := none, remaining := 0 })
      | some a =>
        let remaining := c.remaining - 1
        let back := if remaining = 0 then none else (t.get i).previous.bind (t.resolve c.version)
        (some (i, a), { c with back, remaining })

/-- Up to `n` steps in one direction, until one gives nothing. -/
def collect (step : Cursor → Option (Nat × α) × Cursor) : Nat → Cursor → List (Nat × α)
  | 0, _ => []
  | n + 1, c =>
    match step c with
    | (some x, c) => x :: collect step n c
    | (none, _) => []

/-- All that is left, from the front. -/
def forward (t : LinkTable α) (c : Cursor) : List (Nat × α) :=
  collect (nextFront t) c.remaining c

/-- All that is left, from the back. -/
def backward (t : LinkTable α) (c : Cursor) : List (Nat × α) :=
  collect (nextBack t) c.remaining c

end Cursor

end SnapshotDeque
