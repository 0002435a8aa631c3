import HostRouting.Digest
import HostRouting.Intent.Basic
import HostRouting.Ledger.Basic
import HostRouting.Routing.Service

/-!
# Selection of a path

Of the candidates that satisfy every constraint of an intent, the fingerprint of its flow picks
one, so the same flow takes the same path as long as the candidates are the same.

Main definitions: `fingerprint`, `selectPath` and `selectPair`.
-/

namespace HostRouting

/-! ## Fingerprints -/

/-- The hash of the addresses of a host. -/
def addressHash (h : Host) : Int32 :=
  stableHash (",".intercalate (h.addresses.toList.map IpAddress.text))

/-- The hash of the criterion of a type, zero when there is none. -/
def criterionHash (s : Selector) (t : CriterionType) : Int32 :=
  match s.criterion? t with
  | some c => stableHash c.text
  | none => 0

/-- The types of the ports of the protocol that a selector asks for. -/
def portTypes (s : Selector) : List CriterionType :=
  match s.ipProtocol? with
  | some p => [CriterionType.transportSrc p, CriterionType.transportDst p].filterMap id
  | none => []

/-- The known hosts at the ends of an intent. -/
def knownEnds (hosts : HostDirectory) (i : FlowIntent) : List Host :=
  match i.hosts with
  | some (one, two) => [one, two].filterMap hosts.host?
  | none => []

/-- The hashes of what tells a flow apart: addresses, protocol and ports. -/
def flowHashes (hosts : HostDirectory) (i : FlowIntent) : List Int32 :=
  let s := i.connectivity.selector
  (knownEnds hosts i).map addressHash ++ criterionHash s .ipProto ::
    (portTypes s).map (criterionHash s)

/-- The hashes of a flow, folded into one. -/
def fingerprint (hosts : HostDirectory) (i : FlowIntent) : Int32 :=
  (flowHashes hosts i).foldl (fun acc hash => acc * 31 + hash) 0

/-! ## Selection -/

/-- What constraints see of stored links and of a ledger. -/
def Context.ofStores {σ ρ : Type} [LinkStore σ] [Reservations ρ] (links : σ) (resources : ρ) :
    Context where
  isAvailable := Reservations.isAvailable resources
  liveLink? := LinkStore.link? links

/-- Whether a path satisfies every constraint. -/
def satisfies (ctx : Context) (constraints : List Constraint) (p : Path) : Bool :=
  constraints.all fun c => c.validates p ctx

/-- The item that a fingerprint picks from a list: its remainder by the length is the place. -/
def pick {α : Type} (print : Int32) (items : List α) : Option α :=
  items[(print.toInt % items.length).toNat]?

/-- The picked item, or the error that there is no path. -/
def pickOr {α : Type} (print : Int32) (src dst : ElementId) (items : List α) : Except Error α :=
  match pick print items with
  | some a => .ok a
  | none => .error (.pathNotFound src dst)

section

variable {σ ρ : Type} [LinkStore σ] [Reservations ρ]

/-- A path that satisfies every constraint of an intent. -/
def selectPath (service : PathService σ) (links : σ) (hosts : HostDirectory) (resources : ρ)
    (i : FlowIntent) (src dst : ElementId) : Except Error Path :=
  let ctx := Context.ofStores links resources
  let constraints := i.connectivity.constraints
  let candidates := service.paths links hosts (ctx.weigher constraints) src dst
  pickOr (fingerprint hosts i) src dst (candidates.filter (satisfies ctx constraints))

/-- A pair of disjoint paths that both satisfy every constraint of an intent. -/
def selectPair (service : PathService σ) (links : σ) (hosts : HostDirectory) (resources : ρ)
    (i : FlowIntent) (src dst : ElementId) : Except Error DisjointPaths :=
  let ctx := Context.ofStores links resources
  let constraints := i.connectivity.constraints
  let candidates := service.disjointPaths links hosts (ctx.weigher constraints) src dst
  pickOr (fingerprint hosts i) src dst <| candidates.filter fun pair =>
    satisfies ctx constraints pair.primary && satisfies ctx constraints pair.backup

end

end HostRouting
