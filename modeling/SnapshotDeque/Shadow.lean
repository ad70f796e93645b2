import SnapshotDeque.Snapshot
import SnapshotDeque.Store.Read

/-!
A deque of numbers with a plain list at its side. Every operation is done on both; `verify` compares
the deque and its open snapshots with what the list says they hold. A mismatch is put into words.
-/

namespace SnapshotDeque

/-- An open snapshot and the elements it has to show. -/
structure Expectation where
  snapshot : Snapshot
  elements : List Nat

structure Shadow where
  store : Store Nat
  live : List (Nat × Handle) := []
  snapshots : List Expectation := []

namespace Shadow

inductive Op
  | append (n : Nat)
  | prepend (n : Nat)
  | pollFirst
  | pollLast
  /-- Unlinks the node at a position, counted around the list. -/
  | unlinkAt (i : Nat)
  | openSnapshot
  | openPolled (limit : Option Nat)
  /-- Closes the snapshot at a position, counted around the open ones; the last one takes its
  place. -/
  | closeSnapshot (i : Nat)
deriving DecidableEq

abbrev Check := Except String Unit

def init (config : Config) : Shadow := { store := .init config }

def values (m : Shadow) : List Nat := m.live.map (·.1)

def isFull (m : Shadow) : Bool :=
  match m.store.config.capacity with
  | some n => n ≤ m.live.length
  | none => false

def optionText : Option Nat → String
  | some n => "Some(" ++ toString n ++ ")"
  | none => "None"

def listText (ns : List Nat) : String := "[" ++ ", ".intercalate (ns.map toString) ++ "]"

def insert (m : Shadow) (n : Nat) (side : End) : Check × Shadow :=
  let full := m.isFull
  let (r, store) := Mutation.run (.insert n side) m.store
  let m := { m with store }
  match r with
  | .ok node =>
    if full then (.error ("insert of " ++ toString n ++ " succeeded past capacity"), m)
    else
      (.ok (), { m with
        live := match side with
          | .first => (n, node) :: m.live
          | .last => m.live ++ [(n, node)] })
  | .error e =>
    if full && e.isCapacityExceeded then (.ok (), m)
    else (.error ("insert of " ++ toString n ++ " failed: " ++ e.message), m)

def poll (m : Shadow) (side : End) : Check × Shadow :=
  let (r, store) := Mutation.run (.poll side) m.store
  let m := { m with store }
  match r with
  | .error e => (.error e.message, m)
  | .ok got =>
    let (expected, live) := match side with
      | .first => (m.live.head?, m.live.tail)
      | .last => (m.live.getLast?, m.live.dropLast)
    let expected := expected.map (·.1)
    let m := { m with live }
    if got = expected then (.ok (), m)
    else
      (.error ("poll_" ++ side.text ++ " returned " ++ optionText got ++ ", expected " ++
        optionText expected), m)

def unlinkAt (m : Shadow) (i : Nat) : Check × Shadow :=
  let i := i % m.live.length
  match m.live[i]? with
  | none => (.ok (), m)
  | some (n, node) =>
    let (r, store) := Mutation.run (.unlink node) m.store
    let m := { m with store, live := m.live.eraseIdx i }
    match r with
    | .error e => (.error e.message, m)
    | .ok true => (.ok (), m)
    | .ok false =>
      (.error ("node " ++ node.text ++ " holding " ++ toString n ++ " was not linked"), m)

def openSnapshot (m : Shadow) : Check × Shadow :=
  let (r, store) := Mutation.run .openSnapshot m.store
  let m := { m with store }
  match r with
  | .error e => (.error e.message, m)
  | .ok view =>
    (.ok (), { m with snapshots := m.snapshots ++ [⟨{ view }, m.values⟩] })

def openPolled (m : Shadow) (limit : Option Nat) : Check × Shadow :=
  let (r, store) := Mutation.run (.openPolled limit) m.store
  let m := { m with store }
  match r with
  | .error e => (.error e.message, m)
  | .ok view =>
    let taken := (limit.map (min · m.live.length)).getD m.live.length
    (.ok (), { m with
      snapshots := m.snapshots ++ [⟨{ view }, m.values.take taken⟩]
      live := m.live.drop taken })

/-- Takes the item at a position out; the last item takes its place. -/
def swapRemove {β : Type} (xs : List β) (i : Nat) : List β :=
  match xs.getLast? with
  | some last => (xs.set i last).dropLast
  | none => []

def close (x : Expectation) (store : Store Nat) : Store Nat :=
  (Mutation.run (.closeSnapshot x.snapshot.view.id x.snapshot.view.version) store).2

def closeSnapshot (m : Shadow) (i : Nat) : Check × Shadow :=
  let i := i % m.snapshots.length
  match m.snapshots[i]? with
  | none => (.ok (), m)
  | some x =>
    (.ok (), { m with store := close x m.store, snapshots := swapRemove m.snapshots i })

/-- Does an operation on both sides. -/
def apply (m : Shadow) : Op → Check × Shadow
  | .append n => m.insert n .last
  | .prepend n => m.insert n .first
  | .pollFirst => m.poll .first
  | .pollLast => m.poll .last
  | .unlinkAt i => m.unlinkAt i
  | .openSnapshot => m.openSnapshot
  | .openPolled limit => m.openPolled limit
  | .closeSnapshot i => m.closeSnapshot i

/-- The result of a call, with a failure in words. -/
def worded {ρ : Type} : Except Error ρ → Except String ρ
  | .ok a => .ok a
  | .error e => .error e.message

/-- Compares a snapshot with what it has to show: the length, then forward, then backward. -/
def checkSnapshot (store : Store Nat) (x : Expectation) : Check := do
  let name := "snapshot " ++ toString x.snapshot.view.id.val
  let size ← worded (x.snapshot.size store)
  if size ≠ x.elements.length then
    throw (name ++ " reports " ++ toString size ++ " elements, expected " ++
      toString x.elements.length)
  let forward ← worded (x.snapshot.elements store)
  if forward ≠ x.elements then
    throw (name ++ " at " ++ x.snapshot.view.version.text ++ " shows " ++ listText forward ++
      ", expected " ++ listText x.elements)
  let backward := (← worded (x.snapshot.elementsReversed store)).reverse
  if backward ≠ x.elements then
    throw (name ++ " backward shows " ++ listText backward ++ ", expected " ++
      listText x.elements)

/-- What can be compared without a snapshot of the live deque. -/
def checkLive (m : Shadow) : Check := do
  if m.store.len ≠ m.live.length then
    throw ("deque has " ++ toString m.store.len ++ " elements, model has " ++
      toString m.live.length)
  m.live.forM fun (n, node) => do
    unless m.store.isLinked node do
      throw ("node " ++ node.text ++ " holding " ++ toString n ++ " is not linked")

/-- Compares both sides. For that a snapshot is opened, and closed again however it ends. -/
def verify (m : Shadow) : Check × Shadow :=
  match m.checkLive with
  | .error e => (.error e, m)
  | .ok () =>
    let (r, store) := Mutation.run .openSnapshot m.store
    let m := { m with store }
    match r with
    | .error e => (.error e.message, m)
    | .ok view =>
      let live : Expectation := ⟨{ view }, m.values⟩
      ((live :: m.snapshots).forM (checkSnapshot m.store), { m with store := close live m.store })

/-- Reclaims until a pass finds nothing to do. -/
def reclaimAll (store : Store Nat) : Except Error Unit × Store Nat :=
  match Mutation.run .reclaim store with
  | (.error e, next) => (.error e, next)
  | (.ok p, next) =>
    if p.didWork ∧ next.obsolete.length < store.obsolete.length then reclaimAll next
    else (.ok (), next)
termination_by store.obsolete.length

/-- Closes every snapshot, reclaims what is left and gives the final figures. -/
def finish (m : Shadow) : Except String Stats :=
  let (r, store) := reclaimAll (m.snapshots.foldl (fun store x => close x store) m.store)
  match r with
  | .error e => .error e.message
  | .ok () =>
    let stats := store.stats
    if stats.obsoleteLinks ≠ 0 then
      .error (toString stats.obsoleteLinks ++ " obsolete links left")
    else if stats.arenaNodes ≠ m.live.length then
      .error (toString stats.arenaNodes ++ " nodes in the arena, " ++ toString m.live.length ++
        " linked")
    else .ok stats

end Shadow

end SnapshotDeque
