import HostRouting.Address.Ip
import HostRouting.Compiler.Config
import HostRouting.Json.Reader
import HostRouting.Routing.Service
import HostRouting.Text.Quoted

/-!
# Settings of a node

A node is set up by three values of its environment: the address it listens at, the file of its
topology and the file of its configuration. Files are read through a function from their names to
their contents.

Main definition: `Settings.load`.
-/

namespace HostRouting

structure NodeConfig where
  compiler : CompilerConfig
  planner : PlannerConfig
deriving DecidableEq

def NodeConfig.default : NodeConfig := ⟨.default, .default⟩

structure Settings where
  address : SocketAddress
  topology : Option String
  config : NodeConfig
deriving DecidableEq

/-- Why a node cannot be set up from its environment. -/
inductive SettingsError where
  | invalidAddress (text : String)
  | unreadableConfig (file : String)
  | malformedConfig (file : String)
deriving DecidableEq

def SettingsError.message : SettingsError → String
  | .invalidAddress text => "invalid MERIDIAN_ADDR " ++ quoted text
  | .unreadableConfig file => "reading config " ++ file
  | .malformedConfig file => "parsing config " ++ file

/-- The address to listen at when none is given. -/
def defaultAddress : String := "0.0.0.0:3000"

/-! ## JSON form -/

def NodeConfig.fields : Json.Fields NodeConfig :=
  NodeConfig.mk <$> .defaulted "compiler" .default <*> .defaulted "planner" .default

instance : Json.Decode NodeConfig := ⟨NodeConfig.fields.decode⟩

instance : Json.Encode NodeConfig where
  encode c := .object [("compiler", Json.encode c.compiler), ("planner", Json.encode c.planner)]

/-- The value that a file's text describes. -/
def decodeFile? {α : Type} [Json.Decode α] (text : String) : Option α :=
  (Json.ofText? text).bind fun v => (Json.decode v : Except Json.Fault α).toOption

/-! ## Loading -/

namespace Settings

/-- The configuration in a file, the default one when no file is named. -/
def loadConfig (read : String → Option String) : Option String → Except SettingsError NodeConfig
  | none => .ok .default
  | some file =>
    match read file with
    | none => .error (.unreadableConfig file)
    | some text =>
      match decodeFile? text with
      | none => .error (.malformedConfig file)
      | some config => .ok config

/-- The settings that an environment gives. -/
def load (read : String → Option String) (address topology config : Option String) :
    Except SettingsError Settings := do
  let text := address.getD defaultAddress
  match SocketAddress.ofText? text with
  | none => .error (.invalidAddress text)
  | some address =>
    let config ← loadConfig read config
    .ok ⟨address, topology, config⟩

end Settings

end HostRouting
