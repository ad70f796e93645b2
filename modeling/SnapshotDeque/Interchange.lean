import SnapshotDeque.Version
import SnapshotDeque.Config
import SnapshotDeque.Link
import SnapshotDeque.Text.Json
import SnapshotDeque.Text.JsonString

/-!
The JSON form of versions, names and configurations: how each is written, and what is accepted for
it. Identifiers are bare numbers, a handle is a record of two, and a configuration is a record in
which every field may be missing.
-/

namespace SnapshotDeque

open Text (Json)

def Version.json (v : Version) : String := toString v.val

def Version.ofJson? (s : String) : Option Version :=
  (Json.parse? s).bind fun j => (j.nat? wordLimit).bind Version.ofNat?

def NodeId.json (n : NodeId) : String := toString n.val

def NodeId.ofJson? (s : String) : Option NodeId :=
  (Json.parse? s).bind fun j => (j.nat? wordLimit).map NodeId.mk

def SnapshotId.json (n : SnapshotId) : String := toString n.val

def SnapshotId.ofJson? (s : String) : Option SnapshotId :=
  (Json.parse? s).bind fun j => (j.nat? wordLimit).map SnapshotId.mk

/-- A number written in decimal; a plus sign and leading zeros are accepted. -/
def decimal? (cs : List Char) : Option Nat :=
  let digits := if cs.head? = some '+' then cs.tail else cs
  if Text.JsonToken.allDigits digits then some (Text.JsonToken.digitsValue digits) else none

/-- An object with its members already in written form. -/
def jsonObject (members : List (String × String)) : String :=
  "\x7b" ++ ",".intercalate (members.map fun (k, v) => Text.jsonString k ++ ":" ++ v) ++ "\x7d"

namespace Handle

def json (h : Handle) : String :=
  jsonObject [("index", toString h.index.toNat), ("generation", toString h.generation.toNat)]

/-- Both fields are needed, and each has 32 bits. -/
def ofJson? (s : String) : Option Handle := do
  let word (f : Option Json) : Option UInt32 := do
    return UInt32.ofNat (← (← f).nat? 4294967295)
  match ← (← Json.parse? s).fields? ["index", "generation"] with
  | [index, generation] => return ⟨← word index, ← word generation⟩
  | _ => none

/-- A decimal number of at most 32 bits. -/
def ofDigits? (cs : List Char) : Option UInt32 :=
  (decimal? cs).bind fun n => if n < 4294967296 then some (UInt32.ofNat n) else none

/-- Reads what `text` writes. -/
def ofText? (s : String) : Option Handle :=
  let index := s.toList.takeWhile (· ≠ '@')
  match s.toList.dropWhile (· ≠ '@') with
  | _ :: generation => do return ⟨← ofDigits? index, ← ofDigits? generation⟩
  | [] => none

end Handle

def LinkInfo.json (l : LinkInfo) : String :=
  jsonObject [
    ("node", l.node.json),
    ("created_on", l.createdOn.json),
    ("obsolete_on", match l.obsoleteOn with | some v => v.json | none => "null")]

namespace Config

def json (c : Config) : String :=
  jsonObject [
    ("name", Text.jsonString c.name),
    ("capacity", match c.capacity with | some n => toString n | none => "null"),
    ("node_metadata", if c.nodeMetadata then "true" else "false"),
    ("reclaim_batch", toString c.reclaimBatch)]

/-- Missing fields keep their defaults; of the fields only the capacity may be null. -/
def ofJson? (s : String) : Option Config := do
  let base : Config := {}
  match ← (← Json.parse? s).fields? ["name", "capacity", "node_metadata", "reclaim_batch"] with
  | [name, capacity, nodeMetadata, reclaimBatch] =>
    return {
      name := ← name.elim (some base.name) Json.string?
      capacity := ← capacity.elim (some base.capacity) fun
        | .null => some none
        | j => (j.nat? wordLimit).map some
      nodeMetadata := ← nodeMetadata.elim (some base.nodeMetadata) Json.bool?
      reclaimBatch := ← reclaimBatch.elim (some base.reclaimBatch) (Json.nat? wordLimit) }
  | _ => none

end Config

end SnapshotDeque
