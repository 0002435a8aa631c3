import HostRouting.Intent.Wire
import HostRouting.Ledger.Forgetful
import HostRouting.LinkStore.Faulty
import HostRouting.Node.Requests
import HostRouting.Proofs.Binary64.RoundTrip
import HostRouting.Proofs.Binary64.Addition
import HostRouting.Proofs.Contribution.Share
import HostRouting.Proofs.Contribution.Repetition
import HostRouting.Proofs.Reservation.Reserve
import HostRouting.Proofs.Routing.Revision
import HostRouting.Proofs.Routing.Completeness
import HostRouting.Proofs.Routing.Exactness
import HostRouting.Proofs.Routing.Disjointness
import HostRouting.Proofs.Compiler.Conservation
import HostRouting.Proofs.Compiler.Bandwidth
import HostRouting.Proofs.Compiler.BandwidthRecompilation
import HostRouting.Proofs.Compiler.Stickiness
import HostRouting.Proofs.Compiler.Failure
import HostRouting.Proofs.Compiler.Safety
import HostRouting.Proofs.Routing.Fingerprint
import HostRouting.Proofs.Routing.Multiplicity
import HostRouting.Proofs.Routing.Duplicates
import HostRouting.Proofs.Intent.RoundTrip
import HostRouting.Proofs.Reservation.Booking
import HostRouting.Proofs.Node.Identity
import HostRouting.Proofs.Reservation.Migration
import HostRouting.Proofs.Compiler.Retention
import HostRouting.Proofs.Compiler.Directions
import HostRouting.Proofs.Compiler.Geometry
import HostRouting.Proofs.Reservation.Effect
import HostRouting.Proofs.Contribution.InPlace
import HostRouting.Proofs.Contribution.Limits
import HostRouting.Proofs.Contribution.Validation
import HostRouting.Proofs.Contribution.Retry
import HostRouting.Proofs.Contribution.Effect
import HostRouting.Proofs.Contribution.Restoration
import HostRouting.Proofs.Compiler.Withdrawal
import HostRouting.Proofs.Reservation.Subtraction
import HostRouting.Proofs.LinkStore.History
import HostRouting.Proofs.Intent.Identity
import HostRouting.Proofs.Routing.Unrounded
import HostRouting.Proofs.Network.Path
import HostRouting.Proofs.Address.Grammar
import HostRouting.Proofs.Routing.Attachment
import HostRouting.Proofs.Flow.Representation
