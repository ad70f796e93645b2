import SnapshotDeque.Handle
import SnapshotDeque.Text.Quoted

/-!
Why a call fails, and how a failure is worded.
-/

namespace SnapshotDeque

inductive Error
  /-- An insertion would link more elements than the configured capacity. -/
  | capacityExceeded (capacity : Nat)
  | empty
  /-- The two sentinels cannot be unlinked. -/
  | nodeNotPayload (node : Handle)
  | snapshotClosed (snapshot : SnapshotId)
  | disposed
  /-- An invariant of the deque does not hold; the deque cannot be trusted any more. -/
  | internal (message : String)
  | invalidConfig (message : String)
deriving DecidableEq

/-- The stable classification of failures. -/
inductive ErrorCode
  | unknown
  | internal
  | invalidArgument
  | capacityExceeded
  | empty
  | nodeNotPayload
  | disposed
  | snapshotClosed
deriving DecidableEq

namespace ErrorCode

/-- The high byte is the category. -/
def number : ErrorCode → Nat
  | unknown => 0x000
  | internal => 0x001
  | invalidArgument => 0x003
  | capacityExceeded => 0x100
  | empty => 0x101
  | nodeNotPayload => 0x102
  | disposed => 0x103
  | snapshotClosed => 0x200

def category (c : ErrorCode) : String :=
  match c.number / 256 with
  | 0 => "General"
  | 1 => "Deque"
  | 2 => "Snapshot"
  | _ => "Unknown"

def name : ErrorCode → String
  | unknown => "Unknown"
  | internal => "Internal"
  | invalidArgument => "InvalidArgument"
  | capacityExceeded => "CapacityExceeded"
  | empty => "Empty"
  | nodeNotPayload => "NodeNotPayload"
  | disposed => "Disposed"
  | snapshotClosed => "SnapshotClosed"

end ErrorCode

namespace Error

def name : Error → String
  | capacityExceeded _ => "CapacityExceeded"
  | empty => "Empty"
  | nodeNotPayload _ => "NodeNotPayload"
  | snapshotClosed _ => "SnapshotClosed"
  | disposed => "Disposed"
  | internal _ => "Internal"
  | invalidConfig _ => "InvalidConfig"

def message : Error → String
  | capacityExceeded c => "deque capacity of " ++ toString c ++ " elements exceeded"
  | empty => "deque is empty"
  | nodeNotPayload h => "node " ++ h.text ++ " is a sentinel and cannot be unlinked"
  | snapshotClosed s => "snapshot " ++ toString s.val ++ " is closed"
  | disposed => "deque has been disposed"
  | internal m => "internal error: " ++ m
  | invalidConfig m => "invalid configuration: " ++ m

/-- The name, with the data of the failure between braces if it has any. -/
def debug (e : Error) : String :=
  let detailed (field value : String) := e.name ++ " \x7b " ++ field ++ ": " ++ value ++ " \x7d"
  match e with
  | capacityExceeded c => detailed "capacity" (toString c)
  | nodeNotPayload h => detailed "node" h.debug
  | snapshotClosed s => detailed "snapshot" s.debug
  | internal m => detailed "message" (Text.quoted m)
  | invalidConfig m => detailed "message" (Text.quoted m)
  | empty => e.name
  | disposed => e.name

def code : Error → ErrorCode
  | capacityExceeded _ => .capacityExceeded
  | empty => .empty
  | nodeNotPayload _ => .nodeNotPayload
  | snapshotClosed _ => .snapshotClosed
  | disposed => .disposed
  | internal _ => .internal
  | invalidConfig _ => .invalidArgument

def isCapacityExceeded : Error → Bool
  | capacityExceeded _ => true
  | _ => false

def isSnapshotClosed : Error → Bool
  | snapshotClosed _ => true
  | _ => false

/-- Whether the deque is of no further use after this failure. -/
def isFatal : Error → Bool
  | internal _ => true
  | disposed => true
  | _ => false

end Error

end SnapshotDeque
