import SnapshotDeque.Interchange
import SnapshotDeque.Session.Run
import SnapshotDeque.Shadow
import SnapshotDeque.Proofs.Arena
import SnapshotDeque.Proofs.Timeline
import SnapshotDeque.Proofs.Chain
import SnapshotDeque.Proofs.Edit
import SnapshotDeque.Proofs.Invariant
import SnapshotDeque.Proofs.Spares
import SnapshotDeque.Proofs.Init
import SnapshotDeque.Proofs.Release
import SnapshotDeque.Proofs.Detach
import SnapshotDeque.Proofs.Writable
import SnapshotDeque.Proofs.Splice
import SnapshotDeque.Proofs.Enlist
import SnapshotDeque.Proofs.Regime
import SnapshotDeque.Proofs.Ends
import SnapshotDeque.Proofs.Shape
import SnapshotDeque.Proofs.Unlinking
import SnapshotDeque.Proofs.Linking
import SnapshotDeque.Proofs.Removal
import SnapshotDeque.Proofs.Insertion
import SnapshotDeque.Proofs.Display
import SnapshotDeque.Proofs.Opening
import SnapshotDeque.Proofs.Obeying
import SnapshotDeque.Proofs.Rising
import SnapshotDeque.Proofs.Outcome
import SnapshotDeque.Proofs.Reading
import SnapshotDeque.Proofs.World
import SnapshotDeque.Proofs.Isolation
import SnapshotDeque.Proofs.Refinement
import SnapshotDeque.Proofs.Safety
import SnapshotDeque.Proofs.Faultless
import SnapshotDeque.Proofs.Sharing
import SnapshotDeque.Proofs.Stamping
import SnapshotDeque.Proofs.Backed
import SnapshotDeque.Proofs.Sessions
import SnapshotDeque.Proofs.Calls
import SnapshotDeque.Proofs.Moves
import SnapshotDeque.Proofs.Pins
import SnapshotDeque.Proofs.Tale
import SnapshotDeque.Proofs.Telling
import SnapshotDeque.Proofs.Retelling
import SnapshotDeque.Proofs.Chronicle
import SnapshotDeque.Proofs.Lowering
import SnapshotDeque.Proofs.Accounting
import SnapshotDeque.Proofs.Circuit
import SnapshotDeque.Proofs.Lifecycle
import SnapshotDeque.Proofs.Moments
import SnapshotDeque.Proofs.Hearing
import SnapshotDeque.Proofs.Draining
import SnapshotDeque.Proofs.Tenancy
import SnapshotDeque.Proofs.Traffic
import SnapshotDeque.Proofs.Stock
import SnapshotDeque.Proofs.Staleness
import SnapshotDeque.Proofs.Handles
import SnapshotDeque.Proofs.Heedless
import SnapshotDeque.Proofs.Batches
import SnapshotDeque.Proofs.Delivery
import SnapshotDeque.Proofs.Refusals
import SnapshotDeque.Proofs.Failures
import SnapshotDeque.Proofs.Exhausting
import SnapshotDeque.Proofs.Mirroring
import SnapshotDeque.Proofs.Staying
import SnapshotDeque.Proofs.Sweeping
import SnapshotDeque.Proofs.Disposal
import SnapshotDeque.Proofs.Lockstep
import SnapshotDeque.Proofs.Duet
import SnapshotDeque.Proofs.Bystanders
import SnapshotDeque.Proofs.Neighbours
import SnapshotDeque.Proofs.Resolution
import SnapshotDeque.Proofs.Retiring
import SnapshotDeque.Proofs.Passes
import SnapshotDeque.Proofs.Versions
import SnapshotDeque.Proofs.Picking
import SnapshotDeque.Proofs.Filling
import SnapshotDeque.Proofs.Copying
import SnapshotDeque.Proofs.Alarms
import SnapshotDeque.Proofs.Slots
