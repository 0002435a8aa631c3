import HostRouting.Address.Ip
import HostRouting.Address.Mac
import HostRouting.Network.Element

/-!
# Hosts

A host has an Ethernet address, the points it is attached at and its Internet addresses. Its first
location is the one that routes use.
-/

namespace HostRouting

structure Host where
  id : HostId
  mac : MacAddress
  vlan : Option UInt16
  locations : List ConnectPoint
  addresses : SortedSet IpAddress
deriving DecidableEq

namespace Host

/-- A host without locations and addresses. -/
def named (id : HostId) (mac : MacAddress) : Host := ⟨id, mac, none, [], .empty⟩

/-- Adds a location after the others. -/
def locatedAt (h : Host) (p : ConnectPoint) : Host := { h with locations := h.locations ++ [p] }

def withAddress (h : Host) (a : IpAddress) : Host := { h with addresses := h.addresses.add a }

/-- The point that routes attach the host at. -/
def location? (h : Host) : Option ConnectPoint := h.locations.head?

end Host

/-! ## JSON form -/

instance : Json.Decode (SortedSet IpAddress) where
  decode v := (Json.decode v).map SortedSet.ofList

instance : Json.Encode (SortedSet IpAddress) := ⟨fun s => Json.encode s.toList⟩

def Host.fields : Json.Fields Host :=
  Host.mk <$> .required "id" <*> .required "mac" <*> .defaulted "vlan" none <*>
    .defaulted "locations" [] <*> .defaulted "ip_addresses" .empty

instance : Json.Decode Host := ⟨Host.fields.decode⟩

instance : Json.Encode Host where
  encode h := .object
    [("id", Json.encode h.id), ("mac", Json.encode h.mac), ("vlan", Json.encode h.vlan),
     ("locations", Json.encode h.locations), ("ip_addresses", Json.encode h.addresses)]

end HostRouting
