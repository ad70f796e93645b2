import SnapshotDeque.Session.Command
import SnapshotDeque.Store.Read

/-!
What a session answers.
-/

namespace SnapshotDeque.Session

/-- Commands that the deque is never asked to carry out. -/
inductive Misuse
  | noSuchHandle
  | noSuchSnapshot
  /-- The snapshot is being walked or closed. -/
  | snapshotBusy
  | noSuchCounter
  | txnOutsideCompute
  | malformed (reason : String)
deriving DecidableEq

def Misuse.message : Misuse → String
  | noSuchHandle => "no such handle"
  | noSuchSnapshot => "no such snapshot"
  | snapshotBusy => "snapshot busy"
  | noSuchCounter => "no such counter"
  | txnOutsideCompute => "txn op outside compute"
  | malformed reason => reason

/-- A pinned version: how many snapshots hold it, and which of the first ones. -/
structure Holders where
  version : Version
  count : Nat
  ids : List SnapshotId

/-- The state of a session's deque after a command. -/
structure Report where
  stats : Stats
  first : Option Element
  last : Option Element
  observers : Nat

inductive BatchEnd
  | ok
  | panic
  | failed (e : Error)

/-- One position of a walk. -/
inductive Shown
  | element (e : Element)
  | node (h : Handle) (e : Element)
  | link (l : LinkInfo)

mutual

inductive Answer
  | done
  | flag (b : Bool)
  | number (n : Nat)
  | numberOrNone (n : Option Nat)
  | text (s : String)
  | handle (h : Handle)
  | handles (hs : List Handle)
  | element (e : Option Element)
  | elements (es : List Element)
  | node (n : Option (Handle × Element))
  | nodes (ns : List (Handle × Element))
  | links (ls : List LinkInfo)
  | nodeInfo (i : Option NodeInfo)
  | stats (r : Report)
  | holders (hs : List Holders)
  | pass (p : Pass)
  /-- A snapshot and its place in the table. -/
  | opened (id : SnapshotId) (version : Version) (place : Nat)
  | counts (links unlinks : Nat) (disposed : List Element)
  | report (r : Report)
  | failed (e : Error)
  /-- The command gave up in the middle, and with it every walk that it was a step of. -/
  | panicked
  | misuse (m : Misuse)
  | batch (answers : List Answer) (ending : BatchEnd)
  | walk (answers : List WalkAnswer)

inductive WalkAnswer
  /-- What a step came to, and how many positions are left after it. -/
  | step (shown : Option Shown) (remaining : Nat)
  | hint (remaining : Nat)
  | answer (a : Answer)

end

/-- The answer to a call that may fail. -/
def Answer.ofExcept {ρ : Type} (f : ρ → Answer) : Except Error ρ → Answer
  | .ok a => f a
  | .error e => .failed e

/-- The failure of the deque that an answer is. -/
def Answer.failure? : Answer → Option Error
  | failed e => some e
  | _ => none

/-- What observers heard and did about it. -/
inductive Heard
  /-- A call of an observer, and the tag under which the observer noted it, if it did. -/
  | call (observer : ObserverId) (event : Event Element) (tag : Option String)
  /-- The answers to the commands that an observer gave. -/
  | reaction (tag : String) (answers : List Answer)

/-- A line of the log that observers keep. -/
inductive LogEntry
  | note (text : String)
  | reaction (tag : String) (answers : List Answer)

/-- An event as observers note it; `deque` is the name of the deque. -/
def eventText (deque : String) : Event Element → String
  | .link node side v => "link " ++ node.text ++ " " ++ side.text ++ " " ++ v.text
  | .unlink node v => "unlink " ++ node.text ++ " " ++ v.text
  | .dispose e => "dispose " ++ deque ++ " " ++ e.json

def Heard.logged? (deque : String) : Heard → Option LogEntry
  | call _ e tag => tag.map fun tag => .note (tag ++ " " ++ eventText deque e)
  | reaction tag answers => some (.reaction tag answers)

end SnapshotDeque.Session
