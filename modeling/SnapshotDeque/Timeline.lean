import SnapshotDeque.Version
import SnapshotDeque.Handle

/-!
The modification timeline: the version that changes are stamped with, and the versions that open
snapshots hold. Snapshots opened without a change between them share a version, the baseline. A
change that would fall on the baseline moves on to the following version first, so that whatever it
creates is younger than everything a snapshot can see.
-/

namespace SnapshotDeque

/-- A version and the snapshots that hold it, in ascending order. -/
structure Marker where
  version : Version
  snapshots : List SnapshotId
deriving DecidableEq

structure Timeline where
  modification : Version := .initial
  baseline : Option Version := none
  /-- In ascending order of version, each with a snapshot. -/
  markers : List Marker := []

namespace Timeline

/-- The version that a change starting now is stamped with, and the timeline from then on. -/
def advance (t : Timeline) : Version × Timeline :=
  match t.baseline with
  | some b =>
    if t.modification ≤ b then (b.next, { t with modification := b.next, baseline := none })
    else (t.modification, t)
  | none => (t.modification, t)

/-- Inserts into an ascending list, unless it is there. -/
def insertId (id : SnapshotId) : List SnapshotId → List SnapshotId
  | [] => [id]
  | x :: xs =>
    if id.val < x.val then id :: x :: xs
    else if id = x then x :: xs
    else x :: insertId id xs

/-- Adds a holder to the marker of `v`, which is made if there is none. -/
def hold (v : Version) (id : SnapshotId) : List Marker → List Marker
  | [] => [⟨v, [id]⟩]
  | m :: ms =>
    if v < m.version then ⟨v, [id]⟩ :: m :: ms
    else if v = m.version then { m with snapshots := insertId id m.snapshots } :: ms
    else m :: hold v id ms

/-- Makes `id` a holder of the baseline; the modification version becomes the baseline if there is
none. -/
def pin (t : Timeline) (id : SnapshotId) : Version × Timeline :=
  let v := t.baseline.getD t.modification
  (v, { t with baseline := some v, markers := hold v id t.markers })

def marker? (t : Timeline) (v : Version) : Option Marker :=
  t.markers.find? (·.version = v)

/-- Takes `id` from the holders of `v`. The answer tells whether it was the last one, and with it
the marker is gone. -/
def unpin (t : Timeline) (v : Version) (id : SnapshotId) : Bool × Timeline :=
  match t.marker? v with
  | none => (false, t)
  | some m =>
    let rest := m.snapshots.erase id
    if rest.isEmpty then
      (true, { t with
        markers := t.markers.filter (·.version ≠ v)
        baseline := if t.baseline = some v then none else t.baseline })
    else
      (false, { t with
        markers := t.markers.map fun m => if m.version = v then { m with snapshots := rest } else m })

def pinned (t : Timeline) : List Version := t.markers.map (·.version)

def oldestPinned (t : Timeline) : Version := t.pinned.head?.getD .max

/-- Whether some open snapshot may see a link created on `v`. -/
def isObserved (t : Timeline) (v : Version) : Bool :=
  match t.pinned.getLast? with
  | some w => v ≤ w
  | none => false

def openSnapshots (t : Timeline) : Nat :=
  t.markers.foldr (fun m n => m.snapshots.length + n) 0

def clear (t : Timeline) : Timeline := { t with markers := [], baseline := none }

end Timeline

end SnapshotDeque
