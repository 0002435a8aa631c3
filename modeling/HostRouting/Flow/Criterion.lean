import HostRouting.Address.Ip
import HostRouting.Address.Mac

/-!
# Criteria

A criterion is one condition on a header field of a packet. Its type says which field.
-/

namespace HostRouting

open Std

/-! ## Protocols and types -/

/-- Protocol numbers with transport ports. -/
def tcpProtocol : UInt8 := 6
def udpProtocol : UInt8 := 17
def sctpProtocol : UInt8 := 132

/-- The field that a criterion is about. -/
inductive CriterionType where
  | inPort | ethSrc | ethDst | ethType | vlanVid | ipProto | ipv4Src | ipv4Dst
  | tcpSrc | tcpDst | udpSrc | udpDst | sctpSrc | sctpDst
deriving DecidableEq

namespace CriterionType

def all : List CriterionType :=
  [.inPort, .ethSrc, .ethDst, .ethType, .vlanVid, .ipProto, .ipv4Src, .ipv4Dst, .tcpSrc, .tcpDst,
   .udpSrc, .udpDst, .sctpSrc, .sctpDst]

def label : CriterionType → String
  | .inPort => "IN_PORT"
  | .ethSrc => "ETH_SRC"
  | .ethDst => "ETH_DST"
  | .ethType => "ETH_TYPE"
  | .vlanVid => "VLAN_VID"
  | .ipProto => "IP_PROTO"
  | .ipv4Src => "IPV4_SRC"
  | .ipv4Dst => "IPV4_DST"
  | .tcpSrc => "TCP_SRC"
  | .tcpDst => "TCP_DST"
  | .udpSrc => "UDP_SRC"
  | .udpDst => "UDP_DST"
  | .sctpSrc => "SCTP_SRC"
  | .sctpDst => "SCTP_DST"

def labels : List (String × CriterionType) := all.map fun t => (t.label, t)

/-- The type of the source ports of a protocol. -/
def transportSrc (protocol : UInt8) : Option CriterionType :=
  if protocol = tcpProtocol then some .tcpSrc
  else if protocol = udpProtocol then some .udpSrc
  else if protocol = sctpProtocol then some .sctpSrc
  else none

/-- The type of the destination ports of a protocol. -/
def transportDst (protocol : UInt8) : Option CriterionType :=
  if protocol = tcpProtocol then some .tcpDst
  else if protocol = udpProtocol then some .udpDst
  else if protocol = sctpProtocol then some .sctpDst
  else none

end CriterionType

instance : Ord CriterionType := ⟨compareOn CriterionType.ctorIdx⟩

instance : TransOrd CriterionType := inferInstanceAs (TransCmp (compareOn _))

theorem CriterionType.ctorIdx_injective {a b : CriterionType} (h : a.ctorIdx = b.ctorIdx) :
    a = b := by
  cases a <;> cases b <;> first | rfl | exact absurd h (by decide)

instance : LawfulEqOrd CriterionType where
  compare_self := by
    intro a
    exact compareOn_eq_iff.2 rfl
  eq_of_compare := by
    intro a b h
    exact CriterionType.ctorIdx_injective (compareOn_eq_iff.1 h)

/-! ## Criteria -/

/-- A version 4 address with the length of its significant part. -/
structure Ipv4Prefix where
  address : Ipv4Address
  length : UInt8
deriving DecidableEq

namespace Ipv4Prefix

/-- The block of a single address. -/
def ofHost (address : Ipv4Address) : Ipv4Prefix := ⟨address, 32⟩

def text (p : Ipv4Prefix) : String := p.address.text ++ "/" ++ toString p.length.toNat

end Ipv4Prefix

/-- A condition on one header field. -/
inductive Criterion where
  | inPort (port : PortNumber)
  | ethSrc (mac : MacAddress)
  | ethDst (mac : MacAddress)
  | ethType (value : UInt16)
  | vlanVid (value : UInt16)
  | ipProto (protocol : UInt8)
  | ipv4Src (block : Ipv4Prefix)
  | ipv4Dst (block : Ipv4Prefix)
  | tcpSrc (port : UInt16)
  | tcpDst (port : UInt16)
  | udpSrc (port : UInt16)
  | udpDst (port : UInt16)
  | sctpSrc (port : UInt16)
  | sctpDst (port : UInt16)
deriving DecidableEq

namespace Criterion

def type : Criterion → CriterionType
  | .inPort _ => .inPort
  | .ethSrc _ => .ethSrc
  | .ethDst _ => .ethDst
  | .ethType _ => .ethType
  | .vlanVid _ => .vlanVid
  | .ipProto _ => .ipProto
  | .ipv4Src _ => .ipv4Src
  | .ipv4Dst _ => .ipv4Dst
  | .tcpSrc _ => .tcpSrc
  | .tcpDst _ => .tcpDst
  | .udpSrc _ => .udpSrc
  | .udpDst _ => .udpDst
  | .sctpSrc _ => .sctpSrc
  | .sctpDst _ => .sctpDst

/-- The port of a transport protocol that the criterion asks for. -/
def transportPort? : Criterion → Option UInt16
  | .tcpSrc p | .tcpDst p | .udpSrc p | .udpDst p | .sctpSrc p | .sctpDst p => some p
  | _ => none

/-- At least four lower-case hexadecimal digits after `0x`. -/
def hexText (n : UInt16) : String :=
  let digits := Nat.toDigits 16 n.toNat
  "0x" ++ String.ofList (List.replicate (4 - digits.length) '0' ++ digits)

/-- What the criterion asks of the field. -/
def valueText : Criterion → String
  | .inPort p => toString p.toNat
  | .ethSrc mac | .ethDst mac => mac.text
  | .ethType t => hexText t
  | .vlanVid v => toString v.toNat
  | .ipProto p => toString p.toNat
  | .ipv4Src p | .ipv4Dst p => p.text
  | .tcpSrc p | .tcpDst p | .udpSrc p | .udpDst p | .sctpSrc p | .sctpDst p => toString p.toNat

/-- The label of the type, a colon and the value. -/
def text (c : Criterion) : String := c.type.label ++ ":" ++ c.valueText

/-- The form of a criterion in the key of an intent: TCP and UDP ports are bare numbers. -/
def keyText (c : Criterion) : String :=
  match c with
  | .tcpSrc _ | .tcpDst _ | .udpSrc _ | .udpDst _ => c.valueText
  | _ => c.text

end Criterion

/-! ## JSON form -/

instance : Json.Decode CriterionType := ⟨Json.decodeTag CriterionType.labels⟩
instance : Json.Encode CriterionType := ⟨fun t => .text t.label⟩

def Ipv4Prefix.fields : Json.Fields Ipv4Prefix :=
  Ipv4Prefix.mk <$> .required "address" <*> .required "prefix_len"

instance : Json.Decode Ipv4Prefix := ⟨Ipv4Prefix.fields.decode⟩

instance : Json.Encode Ipv4Prefix where
  encode p := .object [("address", Json.encode p.address), ("prefix_len", Json.encode p.length)]

namespace Criterion

/-- The criterion of a type with the given value. -/
def decodeValue (t : CriterionType) (v : Json) : Except Json.Fault Criterion :=
  match t with
  | .inPort => .inPort <$> Json.decode v
  | .ethSrc => .ethSrc <$> Json.decode v
  | .ethDst => .ethDst <$> Json.decode v
  | .ethType => .ethType <$> Json.decode v
  | .vlanVid => .vlanVid <$> Json.decode v
  | .ipProto => .ipProto <$> Json.decode v
  | .ipv4Src => .ipv4Src <$> Json.decode v
  | .ipv4Dst => .ipv4Dst <$> Json.decode v
  | .tcpSrc => .tcpSrc <$> Json.decode v
  | .tcpDst => .tcpDst <$> Json.decode v
  | .udpSrc => .udpSrc <$> Json.decode v
  | .udpDst => .udpDst <$> Json.decode v
  | .sctpSrc => .sctpSrc <$> Json.decode v
  | .sctpDst => .sctpDst <$> Json.decode v

def encodeValue : Criterion → Json
  | .inPort p => Json.encode p
  | .ethSrc mac | .ethDst mac => Json.encode mac
  | .ethType n | .vlanVid n => Json.encode n
  | .ipProto p => Json.encode p
  | .ipv4Src p | .ipv4Dst p => Json.encode p
  | .tcpSrc p | .tcpDst p | .udpSrc p | .udpDst p | .sctpSrc p | .sctpDst p => Json.encode p

end Criterion

instance : Json.Decode Criterion where
  decode := Json.decodeTagged CriterionType.labels fun
    | t, some v => Criterion.decodeValue t v
    | _, none => .error (.missing "value")

instance : Json.Encode Criterion where
  encode c := .object [("type", Json.encode c.type), ("value", c.encodeValue)]

end HostRouting
