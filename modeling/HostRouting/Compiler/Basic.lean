import HostRouting.Compiler.Config
import HostRouting.Compiler.Contribution
import HostRouting.Compiler.Reservation
import HostRouting.Routing.Selection

/-!
# Compilation of intents between hosts

Compiling an intent takes its old contribution off the links of its old paths, selects new paths,
adds the contribution to their links, reserves bandwidth and gives one installable intent for each
direction. The way back is the way there inverted, unless the intent asks for independent
directions. Withdrawing an intent takes its contribution and its reservations away.

Main definitions: `compile` and `withdraw`.
-/

namespace HostRouting

/-! ## State -/

/-- What intents are compiled against. -/
structure Stores (σ ρ : Type) where
  links : σ
  hosts : HostDirectory
  resources : ρ

/-- How intents are compiled. -/
structure Compiler (σ : Type) where
  paths : PathService σ
  config : CompilerConfig

/-- What a call leaves: its result, the stores and the intent. -/
structure Outcome (σ ρ α : Type) where
  result : Except Error α
  stores : Stores σ ρ
  intent : HostIntent

section

variable {σ ρ : Type} [LinkStore σ] [Reservations ρ]

/-! ## Contributions -/

/-- Adds the contribution of an intent to the links of its paths, or removes it. -/
def contribute (config : CompilerConfig) (links : σ) (i : HostIntent) (d : Direction) :
    Except Error σ :=
  (applyContribution config.writer config.writeAttempts links i.base.constraints i.routedLinks
    d).map (·.2)

/-- Removes the contribution of an intent and forgets its paths; an intent without paths has no
contribution. -/
def retract (config : CompilerConfig) (links : σ) (i : HostIntent) :
    Except Error (σ × HostIntent) :=
  if i.paths.isSome then
    (contribute config links i .remove).map fun links => (links, { i with paths := none })
  else .ok (links, i)

/-! ## Routes -/

/-- The hosts at the ends of an intent. -/
def endHosts (hosts : HostDirectory) (i : HostIntent) : Except Error (Host × Host) :=
  match hosts.host? i.one, hosts.host? i.two with
  | none, _ => .error (.hostNotFound i.one)
  | _, none => .error (.hostNotFound i.two)
  | some one, some two => .ok (one, two)

/-- The paths from the first host to the second and back. -/
def selectRoutes (service : PathService σ) (s : Stores σ ρ) (i : HostIntent) :
    Except Error (Path × Path) := do
  let one := ElementId.host i.one
  let two := ElementId.host i.two
  let there ← selectPath service s.links s.hosts s.resources i.flow one two
  if i.base.hasConstraint .asymmetricPath then
    let back ← selectPath service s.links s.hosts s.resources i.flow two one
    .ok (there, back)
  else .ok (there, there.inverted)

/-! ## Installable intents -/

/-- The device end of a link. -/
def devicePoint (l : Link) : Except Error FilteredPoint :=
  match [l.src, l.dst].find? (·.element.isDevice) with
  | some p => .ok (.plain p)
  | none => .error (.compilation ("link " ++ l.text ++ " has no device endpoint"))

/-- The selector of the traffic from one host to the other. -/
def directedSelector (flavor : InstallableFlavor) (i : HostIntent) (src dst : Host) : Selector :=
  let s := i.base.selector.add (.ethSrc src.mac)
  let s := if flavor = .path then s.add (.ethDst dst.mac) else s
  if i.one = dst.id ∧ i.two = src.id then s.withPortsExchanged else s

/-- The installable intent for the traffic along a path. -/
def installable (flavor : InstallableFlavor) (i : HostIntent) (p : Path) (src dst : Host) :
    Except Error Installable := do
  let base := i.base.derive (directedSelector flavor i src dst)
  match flavor with
  | .linkCollection =>
    let ingress ← devicePoint p.first
    let egress ← devicePoint p.last
    .ok (.linkCollection base (p.links.filter (!·.isEdge)) [ingress] [egress] true)
  | .path => .ok (.path base p)

/-- Reserves bandwidth along a path and gives the installable intent for it. The reservation stays
when there is none. -/
def install (flavor : InstallableFlavor) (resources : ρ) (i : HostIntent) (p : Path)
    (src dst : Host) : Except Error Installable × ρ :=
  (installable flavor i p src dst, (reserve resources i.base p.connectPoints).1)

/-- Installs both directions; the second is left alone when the first fails. -/
def installBoth (flavor : InstallableFlavor) (resources : ρ) (i : HostIntent) (there back : Path)
    (one two : Host) : Except Error (List Installable) × ρ :=
  match install flavor resources i there one two with
  | (.error e, resources) => (.error e, resources)
  | (.ok forward, resources) =>
    match install flavor resources i back two one with
    | (.error e, resources) => (.error e, resources)
    | (.ok reverse, resources) => (.ok [forward, reverse], resources)

/-! ## Compilation -/

/-- Compiles an intent that has no paths. -/
def compileFresh (c : Compiler σ) (s : Stores σ ρ) (i : HostIntent) :
    Outcome σ ρ (List Installable) :=
  let routes := do
    let (there, back) ← selectRoutes c.paths s i
    let (one, two) ← endHosts s.hosts i
    .ok (there, back, one, two)
  match routes with
  | .error e => ⟨.error e, s, i⟩
  | .ok (there, back, one, two) =>
    let routed := { i with paths := some (there, back) }
    match contribute c.config s.links routed .add with
    | .error e => ⟨.error e, s, i⟩
    | .ok links =>
      let (result, resources) :=
        installBoth c.config.flavor s.resources routed there back one two
      ⟨result, { s with links := links, resources := resources }, routed⟩

/-- Compiles an intent. The traffic of a host to itself needs nothing. -/
def compile (c : Compiler σ) (s : Stores σ ρ) (i : HostIntent) :
    Outcome σ ρ (List Installable) :=
  if i.one = i.two then ⟨.ok [], s, i⟩
  else
    match retract c.config s.links i with
    | .error e => ⟨.error e, s, i⟩
    | .ok (links, i) => compileFresh c { s with links := links } i

/-- Takes the contribution of an intent and the reservations under its key away. What its group
holds stays. -/
def withdraw (config : CompilerConfig) (s : Stores σ ρ) (i : HostIntent) : Outcome σ ρ Unit :=
  match retract config s.links i with
  | .error e => ⟨.error e, s, i⟩
  | .ok (links, i) =>
    let own := Reservations.held s.resources (.intent i.base.key)
    ⟨.ok (), { s with links := links, resources := giveBack s.resources own }, i⟩

end

end HostRouting
