/-!
The account of reclamation: what one pass gave back, and the running totals, which count in 64 bits
and wrap around.
-/

namespace SnapshotDeque

/-- What a reclamation pass did, and how many obsolete links it left. -/
structure Pass where
  links : Nat := 0
  nodes : Nat := 0
  remaining : Nat := 0
deriving DecidableEq, Inhabited

def Pass.didWork (p : Pass) : Bool := p.links > 0 || p.nodes > 0

structure Totals where
  runs : UInt64 := 0
  links : UInt64 := 0
  nodes : UInt64 := 0
deriving DecidableEq

namespace Totals

/-- Counts what was given back outside of any pass. -/
def recordReleased (t : Totals) (p : Pass) : Totals :=
  { t with links := t.links + UInt64.ofNat p.links, nodes := t.nodes + UInt64.ofNat p.nodes }

/-- Counts a pass, unless it found nothing to do. -/
def recordRun (t : Totals) (p : Pass) : Totals :=
  if p.didWork then { t.recordReleased p with runs := t.runs + 1 } else t

end Totals

end SnapshotDeque
