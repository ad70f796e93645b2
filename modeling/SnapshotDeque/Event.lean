import SnapshotDeque.Version
import SnapshotDeque.Handle

/-!
The two ends of a deque, and what observers are told about its nodes.
-/

namespace SnapshotDeque

inductive End
  | first
  | last
deriving DecidableEq

def End.text : End → String
  | .first => "first"
  | .last => "last"

inductive Event (α : Type)
  | link (node : Handle) (side : End) (version : Version)
  | unlink (node : Handle) (version : Version)
  /-- No snapshot can reach the unlinked node any more. -/
  | dispose (element : α)
deriving DecidableEq

end SnapshotDeque
