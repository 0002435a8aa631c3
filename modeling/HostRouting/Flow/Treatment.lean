import HostRouting.Flow.Criterion

/-!
# Traffic treatments

What is done with selected traffic: instructions, applied in order.
-/

namespace HostRouting

/-- A forwarding action. -/
inductive Instruction where
  | output (port : PortNumber)
  | setEthSrc (mac : MacAddress)
  | setEthDst (mac : MacAddress)
  | setVlan (value : UInt16)
  | drop
deriving DecidableEq

/-- Instructions in order; none leave forwarding to whoever installs the flow. -/
structure Treatment where
  instructions : List Instruction
deriving DecidableEq

def Treatment.empty : Treatment := ⟨[]⟩

/-! ## JSON form -/

namespace Instruction

inductive Tag where
  | output | setEthSrc | setEthDst | setVlan | drop
deriving DecidableEq

def tags : List (String × Tag) :=
  [("output", .output), ("set_eth_src", .setEthSrc), ("set_eth_dst", .setEthDst),
   ("set_vlan", .setVlan), ("drop", .drop)]

def decodeValue : Tag → Json → Except Json.Fault Instruction
  | .output, v => .output <$> Json.decode v
  | .setEthSrc, v => .setEthSrc <$> Json.decode v
  | .setEthDst, v => .setEthDst <$> Json.decode v
  | .setVlan, v => .setVlan <$> Json.decode v
  | .drop, .null => .ok .drop
  | .drop, _ => .error (.expected "null")

end Instruction

instance : Json.Decode Instruction where
  decode := Json.decodeTagged Instruction.tags fun
    | .drop, none => .ok .drop
    | tag, some v => Instruction.decodeValue tag v
    | _, none => .error (.missing "value")

instance : Json.Encode Instruction where
  encode
    | .output p => .object [("type", .text "output"), ("value", Json.encode p)]
    | .setEthSrc mac => .object [("type", .text "set_eth_src"), ("value", Json.encode mac)]
    | .setEthDst mac => .object [("type", .text "set_eth_dst"), ("value", Json.encode mac)]
    | .setVlan v => .object [("type", .text "set_vlan"), ("value", Json.encode v)]
    | .drop => .object [("type", .text "drop")]

instance : Json.Decode Treatment := ⟨fun v => (Json.decode v).map Treatment.mk⟩
instance : Json.Encode Treatment := ⟨fun t => Json.encode t.instructions⟩

end HostRouting
