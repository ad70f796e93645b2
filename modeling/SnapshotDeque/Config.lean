import SnapshotDeque.Error

/-!
What a deque is built from, and which choices are accepted.
-/

namespace SnapshotDeque

structure Config where
  name : String := "deque"
  /-- The most elements that may be linked at a time; `none` means that only the number of
  handles bounds them. -/
  capacity : Option Nat := none
  /-- Whether each node remembers its place in the order of creation. -/
  nodeMetadata : Bool := false
  /-- The most links that one reclamation pass releases. -/
  reclaimBatch : Nat := 1024
deriving DecidableEq, Inhabited

namespace Config

/-- A handle's index has 32 bits, and two indices belong to the sentinels. -/
def maxCapacity : Nat := 4294967293

def minReclaimBatch : Nat := 1

def bounded (capacity : Nat) : Config := { capacity := some capacity }

def effectiveCapacity (c : Config) : Nat := c.capacity.getD maxCapacity

/-- The capacity is judged before the reclamation batch. -/
def validate (c : Config) : Except Error Unit := do
  if let some n := c.capacity then
    if n = 0 then
      throw (.invalidConfig "capacity must be at least 1")
    if n > maxCapacity then
      throw (.invalidConfig
        ("capacity " ++ toString n ++ " exceeds maximum " ++ toString maxCapacity))
  if c.reclaimBatch < minReclaimBatch then
    throw (.invalidConfig ("reclaim_batch must be at least " ++ toString minReclaimBatch))

end Config

end SnapshotDeque
