import SnapshotDeque.Session.Perform

/-!
Running commands. A batch outside any other reclaims what is pending, runs its commands without
delivering anything, and queues the events of all of them when it ends; delivery follows unless the
batch panicked. A batch inside another one is part of that. A walk goes through its steps until one
of them panics.
-/

namespace SnapshotDeque.Session

/-- What a walk shows of a node. -/
def shownAs (t : LinkTable Element) (form : WalkForm) : Nat × Element → Shown
  | (i, a) =>
    match form with
    | .elements => .element a
    | .nodes => .node (t.get i).owner a
    | .links => .link (t.get i).info

def batchEnd (failure : Option Error) (ending : Ending) : BatchEnd :=
  match failure with
  | some e => .failed e
  | none =>
    match ending with
    | .succeed => .ok
    | .fail => .failed .empty
    | .panic => .panic

def BatchEnd.isPanic : BatchEnd → Bool
  | panic => true
  | _ => false

mutual

def execute (m : Mode) : Command → Session → Answer × Session
  | .call c, s => s.perform m c
  | .txn c, s => if m.batch then s.perform m c else (.misuse .txnOutsideCompute, s)
  | .snapshot k c, s => s.onSnapshot m k c
  | .close k, s => s.close m k
  | .drop k, s => s.drop m k
  | .register o, s => s.register m o
  | .compute cs stop ending, s =>
    if m.batch then
      let (answers, failure, s) := executeBatch m stop cs s
      (.batch answers (batchEnd failure ending), s)
    else
      match Mutation.settle.run s.store with
      | (.error e, _) => (.batch [] (.failed e), s)
      | (.ok (), store) =>
        let (answers, failure, s) :=
          executeBatch { m with batch := true } stop cs { s with store }
        let result := batchEnd failure ending
        (.batch answers result, if result.isPanic then s.post else m.deliver s.post)
  | .walk k form steps, s =>
    match s.claim k false with
    | .error x => (.misuse x, s)
    | .ok snapshot =>
      match snapshot.cursor s.store with
      | .error e => (.failed e, s)
      | .ok c =>
        let (answers, s) := executeWalk m form steps c (s.addUse k)
        (answers.elim .panicked .walk, s.endUse k)

/-- Runs the commands of a batch in turn; with `stop`, only up to the first that fails. -/
def executeBatch (m : Mode) (stop : Bool) :
    List Command → Session → List Answer × Option Error × Session
  | [], s => ([], none, s)
  | c :: cs, s =>
    let (a, s) := execute m c s
    match if stop then a.failure? else none with
    | some e => ([a], some e, s)
    | none =>
      let (answers, failure, s) := executeBatch m stop cs s
      (a :: answers, failure, s)

/-- Goes through the steps of a walk; no answers if one of them panics, which ends the walk. -/
def executeWalk (m : Mode) (form : WalkForm) :
    List WalkStep → Cursor → Session → Option (List WalkAnswer) × Session
  | [], _, s => (some [], s)
  | .front :: steps, c, s =>
    let (x, c) := c.nextFront s.store.links
    let a := .step (x.map (shownAs s.store.links form)) c.remaining
    let (answers, s) := executeWalk m form steps c s
    (answers.map (a :: ·), s)
  | .back :: steps, c, s =>
    let (x, c) := c.nextBack s.store.links
    let a := .step (x.map (shownAs s.store.links form)) c.remaining
    let (answers, s) := executeWalk m form steps c s
    (answers.map (a :: ·), s)
  | .hint :: steps, c, s =>
    let (answers, s) := executeWalk m form steps c s
    (answers.map (.hint c.remaining :: ·), s)
  | .command d :: steps, c, s =>
    match execute m d s with
    | (.panicked, s) => (none, s)
    | (a, s) =>
      let (answers, s) := executeWalk m form steps c s
      (answers.map (.answer a :: ·), s)

end

/-- Runs commands one after the other, whatever they come to. -/
def executeAll (m : Mode) : List Command → Session → List Answer × Session
  | [], s => ([], s)
  | c :: cs, s =>
    let (a, s) := execute m c s
    let (answers, s) := executeAll m cs s
    (a :: answers, s)

end SnapshotDeque.Session
