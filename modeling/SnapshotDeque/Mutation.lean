import SnapshotDeque.Store.Insert
import SnapshotDeque.Store.Snapshot

/-!
The changes that can be asked of a deque, each with the type of its answer. A deque that was
disposed refuses them all, and every change first reclaims what an earlier pass left over.
-/

namespace SnapshotDeque

inductive Mutation (α : Type) : Type → Type
  | insert (element : α) (side : End) : Mutation α Handle
  | insertAll (elements : List α) (side : End) : Mutation α (List Handle)
  | unlink (node : Handle) : Mutation α Bool
  | unlinkEach (nodes : List Handle) : Mutation α Nat
  | poll (side : End) : Mutation α (Option α)
  | clear : Mutation α Nat
  | openSnapshot : Mutation α View
  | openPolled (limit : Option Nat) : Mutation α View
  | closeSnapshot (id : SnapshotId) (version : Version) : Mutation α Pass
  | reclaim : Mutation α Pass
  /-- Does nothing more than every change does first. -/
  | settle : Mutation α Unit
  | dispose : Mutation α Unit
  /-- Turns the recording of events on or off, also after disposal. -/
  | observe (on : Bool) : Mutation α Unit

namespace Mutation

variable {α ρ : Type}

/-- What the change does by itself. -/
def effect : Mutation α ρ → Edit α ρ
  | insert element side => Edit.insert element side
  | insertAll elements side => Edit.insertAll elements side
  | unlink node => Edit.unlink node
  | unlinkEach nodes => Edit.unlinkEach nodes
  | poll side => Edit.poll side
  | clear => Edit.clear
  | openSnapshot => Edit.openSnapshot
  | openPolled limit => Edit.openPolled limit
  | closeSnapshot id v => modifyGet fun s => s.closeSnapshot id v
  | reclaim => modifyGet fun s => s.reclaim s.config.reclaimBatch
  | settle => pure ()
  | dispose => modify Store.dispose
  | observe on => modify fun s => { s with emitting := on }

/-- Disposal and the switch for events do not reclaim first. -/
def reclaimsFirst : Mutation α ρ → Bool
  | dispose => false
  | observe _ => false
  | _ => true

def needsDeque : Mutation α ρ → Bool
  | observe _ => false
  | _ => true

def run (m : Mutation α ρ) (s : Store α) : Except Error ρ × Store α :=
  if m.needsDeque && s.disposed then (.error .disposed, s)
  else
    let s := if m.reclaimsFirst then s.reclaimPending else s
    match m.effect s with
    | .ok a s => (.ok a, s)
    | .error e s => (.error e, s)

end Mutation

end SnapshotDeque
