import HostRouting.Compiler.Basic
import HostRouting.Ledger.Basic
import HostRouting.LinkStore.Table
import HostRouting.Node.Config

/-!
# Nodes

A node holds a topology, a ledger and the submitted intents, each under the text of its key with
the outcome of its last compilation. A topology is a list of hosts, links and capacities.

Main definitions: `Node.start`, `Topology.load` and `Node.install`.
-/

namespace HostRouting

/-! ## Topologies -/

/-- The bandwidth of a device port. -/
structure PortCapacity where
  device : DeviceId
  port : PortNumber
  bandwidth : Bandwidth

structure Topology where
  hosts : List Host
  links : List Link
  capacities : List PortCapacity

/-- Why a topology cannot be loaded. -/
inductive TopologyError where
  | unreadable (file : String)
  | malformed (file : String)
deriving DecidableEq

def TopologyError.message : TopologyError → String
  | .unreadable file => "reading topology " ++ file
  | .malformed file => "parsing topology " ++ file

def PortCapacity.fields : Json.Fields PortCapacity :=
  PortCapacity.mk <$> .required "device" <*> .required "port" <*> .required "bandwidth"

instance : Json.Decode PortCapacity := ⟨PortCapacity.fields.decode⟩

instance : Json.Encode PortCapacity where
  encode c := .object
    [("device", Json.encode c.device), ("port", Json.encode c.port),
     ("bandwidth", Json.encode c.bandwidth)]

def Topology.fields : Json.Fields Topology :=
  Topology.mk <$> .defaulted "hosts" [] <*> .defaulted "links" [] <*> .defaulted "capacities" []

instance : Json.Decode Topology := ⟨Topology.fields.decode⟩

instance : Json.Encode Topology where
  encode t := .object
    [("hosts", Json.encode t.hosts), ("links", Json.encode t.links),
     ("capacities", Json.encode t.capacities)]

/-- The topology in a file. -/
def Topology.load (read : String → Option String) (file : String) :
    Except TopologyError Topology :=
  match read file with
  | none => .error (.unreadable file)
  | some text =>
    match decodeFile? text with
    | none => .error (.malformed file)
    | some topology => .ok topology

/-! ## Nodes -/

/-- A submitted intent and the outcome of its last compilation. -/
structure IntentRecord where
  intent : HostIntent
  installables : List Installable
  error : Option String

structure Node where
  intents : SortedMap String IntentRecord
  stores : Stores LinkTable Ledger
  config : NodeConfig

namespace Node

/-- A node without intents and topology. -/
def start (config : NodeConfig) : Node := ⟨.empty, ⟨.empty, .empty, .empty⟩, config⟩

def compiler (n : Node) : Compiler LinkTable := ⟨topologyPaths n.config.planner, n.config.compiler⟩

def installCapacity (l : Ledger) (c : PortCapacity) : Ledger :=
  l.setCapacity ⟨c.device, c.port⟩ c.bandwidth.bps

/-- Adds the hosts, links and capacities of a topology to what the node has. -/
def install (n : Node) (t : Topology) : Node :=
  { n with
    stores := {
      links := t.links.foldl LinkTable.insert n.stores.links
      hosts := t.hosts.foldl HostDirectory.add n.stores.hosts
      resources := t.capacities.foldl installCapacity n.stores.resources } }

end Node

end HostRouting
