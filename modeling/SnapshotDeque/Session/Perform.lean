import SnapshotDeque.Session.State

/-!
The single calls of a session, on its deque and on its snapshots. A call that names a node or a
snapshot which is not there, or a snapshot in use, is not carried out.
-/

namespace SnapshotDeque.Session

/-- Makes a change and goes on with what it gave. -/
def changing {ρ : Type} (s : Session) (m : Mode) (c : Mutation Element ρ)
    (f : ρ → Session → Answer × Session) : Answer × Session :=
  match s.change m c with
  | (.ok a, s) => f a s
  | (.error e, s) => (.failed e, s)

/-- Carries a call out on the node that is meant, if there is one. -/
def onNode (s : Session) (node : NodeRef) (f : Handle → Answer × Session) : Answer × Session :=
  match s.handle? node with
  | some h => f h
  | none => (.misuse .noSuchHandle, s)

/-- What a fallible call comes to when an empty deque is a failure. -/
def elementOrEmpty : Option Element → Answer
  | some e => .element (some e)
  | none => .failed .empty

/-- Registers an observer under the next number. -/
def register (s : Session) (m : Mode) (o : Observer) : Answer × Session :=
  let id : ObserverId := ⟨s.observers.size + 1⟩
  let s := { s with observers := s.observers.push o, registered := s.registered ++ [id] }
  let (_, s) := s.change m (.observe true)
  (.number id.val, { s with known := id :: s.known })

/-- Whether the observer was registered. -/
def unregister (s : Session) (m : Mode) (id : ObserverId) : Answer × Session :=
  let removed := s.registered.contains id
  let s := { s with registered := s.registered.filter (· ≠ id) }
  (.flag removed, (s.change m (.observe !s.registered.isEmpty)).2)

/-- The elements of the live deque, through a snapshot of its own. An observer that hears of the
opening and disposes of the deque leaves nothing to read, which is a panic. In a batch and during a
delivery nobody hears of the opening before the elements are read. -/
def live (s : Session) (m : Mode) : Answer × Session :=
  if s.store.disposed then (.failed .disposed, s)
  else s.changing m .openSnapshot fun v s =>
    let answer := match ({ view := v } : Snapshot).elements s.store with
      | .ok es => .elements es
      | .error _ => .panicked
    (answer, (s.change m (.closeSnapshot v.id v.version)).2)

def perform (s : Session) (m : Mode) : Call → Answer × Session
  | .insert e side => s.changing m (.insert e side) fun h s => (.handle h, s.addHandles [h])
  | .insertAll es side => s.changing m (.insertAll es side) fun hs s => (.handles hs, s.addHandles hs)
  | .offer e side =>
    match s.change m (.insert e side) with
    | (.ok _, s) => (.flag true, s)
    | (.error (.capacityExceeded _), s) => (.flag false, s)
    | (.error e, s) => (.failed e, s)
  | .unlink node => s.onNode node fun h => s.changing m (.unlink h) fun b s => (.flag b, s)
  | .poll side => s.changing m (.poll side) fun e s => (.element e, s)
  | .remove side => s.changing m (.poll side) fun e s => (elementOrEmpty e, s)
  | .peek side => (.element (s.store.peek side), s)
  | .get side => (elementOrEmpty (s.store.peek side), s)
  | .clear => s.changing m .clear fun n s => (.number n, s)
  | .len => (.number s.store.len, s)
  | .room => (.number s.store.room, s)
  | .capacity => (.numberOrNone s.store.config.capacity, s)
  | .isEmpty => (.flag (s.store.len = 0), s)
  | .isDisposed => (.flag s.store.disposed, s)
  | .isLinked node => s.onNode node fun h => (.flag (s.store.isLinked h), s)
  | .element node => s.onNode node fun h => (.element (s.store.element? h), s)
  | .nodeInfo node => s.onNode node fun h => (.nodeInfo (s.store.nodeInfo? h), s)
  | .contains e => (.flag (s.store.contains e), s)
  | .name => (.text s.store.config.name, s)
  | .stats => (.stats s.report, s)
  | .markers => (.holders s.holders, s)
  | .debug => (.text s.store.debug, s)
  | .live => s.live m
  | .reclaim => s.changing m .reclaim fun p s => (.pass p, s)
  | .dispose => s.changing m .dispose fun _ s => (.done, s)
  | .openSnapshot => s.changing m .openSnapshot fun v s => s.addSnapshot v
  | .openPolled limit => s.changing m (.openPolled limit) fun v s => s.addSnapshot v
  | .unregister id => s.unregister m ⟨id⟩
  | .counts id =>
    match s.known.contains ⟨id⟩, s.observer? ⟨id⟩ with
    | true, some (.counting links unlinks disposed) => (.counts links unlinks disposed.reverse, s)
    | _, _ => (.misuse .noSuchCounter, s)
  | .report => (.report s.report, s)
  | .malformed reason => (.misuse (.malformed reason), s)

/-- Unlinks what a snapshot picked; nothing picked needs no change. -/
def unlinkPicked (s : Session) (m : Mode) : Except Error (List Handle) → Answer × Session
  | .error e => (.failed e, s)
  | .ok [] => (.number 0, s)
  | .ok nodes => s.changing m (.unlinkEach nodes) fun n s => (.number n, s)

/-- A call that looks into a snapshot. -/
def consult (s : Session) (m : Mode) (snapshot : Snapshot) : SnapshotCall → Answer × Session
  | .id => (.number snapshot.view.id.val, s)
  | .version => (.number snapshot.view.version.val, s)
  | .size => (.ofExcept .number (snapshot.size s.store), s)
  | .isClosed => (.flag snapshot.closed, s)
  | .isEmpty => (.ofExcept (fun n => .flag (n = 0)) (snapshot.size s.store), s)
  | .elements => (.ofExcept .elements (snapshot.elements s.store), s)
  | .elementsReversed => (.ofExcept .elements (snapshot.elementsReversed s.store), s)
  | .nodes => (.ofExcept .nodes (snapshot.nodes s.store), s)
  | .nodesReversed => (.ofExcept .nodes (snapshot.nodesReversed s.store), s)
  | .links => (.ofExcept .links (snapshot.links s.store), s)
  | .first => (.ofExcept (fun n => .element (n.map (·.2))) (snapshot.firstNode s.store), s)
  | .last => (.ofExcept (fun n => .element (n.map (·.2))) (snapshot.lastNode s.store), s)
  | .firstNode => (.ofExcept .node (snapshot.firstNode s.store), s)
  | .lastNode => (.ofExcept .node (snapshot.lastNode s.store), s)
  | .find p => (.ofExcept .node (snapshot.find? s.store p.test), s)
  | .contains a => (.ofExcept .flag (snapshot.contains s.store a), s)
  | .position a => (.ofExcept .numberOrNone (snapshot.position? s.store a), s)
  | .debug => (.text snapshot.debug, s)
  | .unlink node => s.onNode node fun h =>
    match snapshot.checkOpen s.store with
    | .error e => (.failed e, s)
    | .ok () => s.changing m (.unlink h) fun b s => (.flag b, s)
  | .remove a =>
    match snapshot.find? s.store (.ofPredicate (· = a)) with
    | .error e => (.failed e, s)
    | .ok none => (.flag false, s)
    | .ok (some (h, _)) => s.changing m (.unlink h) fun b s => (.flag b, s)
  | .removeAll as =>
    s.unlinkPicked m (snapshot.picked s.store (.ofPredicate (· ∈ as)))
  | .removeIf p => s.unlinkPicked m (snapshot.picked s.store p.test)
  | .retainOnly p => s.unlinkPicked m (snapshot.picked s.store p.test.not)
  | .malformed reason => (.misuse (.malformed reason), s)

/-- The snapshot in place `k`, if it is there and not being closed; to end it, nobody else may be
looking into it. -/
def claim (s : Session) (k : Nat) (toEnd : Bool) : Except Misuse Snapshot :=
  match s.held? k with
  | none => .error .noSuchSnapshot
  | some e =>
    if e.closing || (toEnd && e.uses > 0) then .error .snapshotBusy else .ok e.snapshot

def onSnapshot (s : Session) (m : Mode) (k : Nat) (c : SnapshotCall) : Answer × Session :=
  match s.claim k false with
  | .error x => (.misuse x, s)
  | .ok snapshot =>
    let (a, s) := (s.addUse k).consult m snapshot c
    (a, s.endUse k)

/-- Closes the snapshot in place `k`, which nobody else can use meanwhile. -/
def close (s : Session) (m : Mode) (k : Nat) : Answer × Session :=
  match s.claim k true with
  | .error x => (.misuse x, s)
  | .ok snapshot =>
    if snapshot.closed then (.pass {}, s)
    else
      let s := s.setEntry k fun e =>
        { e with snapshot := { e.snapshot with closed := true }, closing := true }
      let (r, s) := s.change m (.closeSnapshot snapshot.view.id snapshot.view.version)
      let s := s.setEntry k fun e => { e with closing := false }
      (.pass (match r with | .ok p => p | .error _ => {}), s)

/-- Takes the snapshot in place `k` from the table and closes it. -/
def drop (s : Session) (m : Mode) (k : Nat) : Answer × Session :=
  match s.claim k true with
  | .error x => (.misuse x, s)
  | .ok snapshot =>
    let s := { s with snapshots := s.snapshots.setIfInBounds k none }
    if snapshot.closed then (.done, s)
    else (.done, (s.change m (.closeSnapshot snapshot.view.id snapshot.view.version)).2)

end SnapshotDeque.Session
