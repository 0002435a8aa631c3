import HostRouting.Network.Host
import HostRouting.SortedMap.Catalog

/-!
# The directory of hosts

The known hosts, each under its identifier and listed in the order of identifiers.

Main facts: `id_of_host?` (a host is found under its own identifier), `host?_add_self` and
`host?_remove_self`.
-/

namespace HostRouting

structure HostDirectory where
  byId : Catalog Host.id
deriving DecidableEq

namespace HostDirectory

def empty : HostDirectory := ⟨.empty⟩

def host? (d : HostDirectory) (id : HostId) : Option Host := d.byId.get? id

def hosts (d : HostDirectory) : List Host := d.byId.toList

/-- Adds a host, in place of the one with the same identifier. -/
def add (d : HostDirectory) (h : Host) : HostDirectory := ⟨d.byId.insert h⟩

def remove (d : HostDirectory) (id : HostId) : HostDirectory := ⟨d.byId.erase id⟩

theorem id_of_host? {d : HostDirectory} {id : HostId} {h : Host} (hd : d.host? id = some h) :
    h.id = id := Catalog.key_of_get? hd

theorem mem_hosts_iff {d : HostDirectory} {h : Host} : h ∈ d.hosts ↔ d.host? h.id = some h :=
  Catalog.mem_toList_iff

@[simp] theorem host?_add_self (d : HostDirectory) (h : Host) :
    (d.add h).host? h.id = some h := Catalog.get?_insert_self d.byId h

theorem host?_add_of_ne (d : HostDirectory) {h : Host} {id : HostId} (hn : id ≠ h.id) :
    (d.add h).host? id = d.host? id := Catalog.get?_insert_of_ne _ hn

@[simp] theorem host?_remove_self (d : HostDirectory) (id : HostId) :
    (d.remove id).host? id = none := Catalog.get?_erase_self _ _

end HostDirectory

end HostRouting
