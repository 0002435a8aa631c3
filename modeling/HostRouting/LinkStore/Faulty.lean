import HostRouting.LinkStore.Table

/-!
# A table of links whose writes fail

A table that counts its writes and for a number of them does something else than it is asked.
-/

namespace HostRouting

/-- What a failing write does instead. -/
inductive WriteFault where
  /-- Stores the description with an annotation overwritten. -/
  | overwrite (key value : String)
  /-- Removes the link. -/
  | vanish
  /-- Does nothing. -/
  | ignore
deriving DecidableEq

structure FaultyLinks where
  table : LinkTable
  /-- The number of writes so far. -/
  writes : Nat
  /-- The fault and the number of writes that it still affects. -/
  fault : Option (WriteFault × Nat)

namespace FaultyLinks

def ofTable (table : LinkTable) : FaultyLinks := ⟨table, 0, none⟩

/-- Updates the table. -/
def withTable (s : FaultyLinks) (result : LinkTable × Option LinkChange) :
    FaultyLinks × Option LinkChange := ({ s with table := result.1 }, result.2)

def createOrUpdate (s : FaultyLinks) (provider : ProviderId) (d : LinkDescription) :
    FaultyLinks × Option LinkChange :=
  let s := { s with writes := s.writes + 1 }
  match s.fault with
  | some (fault, remaining + 1) =>
    let s := { s with fault := some (fault, remaining) }
    match fault with
    | .overwrite key value =>
      let d := { d with annotations := d.annotations.insert key value }
      s.withTable (s.table.createOrUpdate provider d)
    | .vanish => ({ s with table := (s.table.remove d.src d.dst).1 }, none)
    | .ignore => (s, none)
  | _ => s.withTable (s.table.createOrUpdate provider d)

end FaultyLinks

instance : LinkStore FaultyLinks where
  link? s := s.table.link?
  links s := s.table.links
  createOrUpdate := FaultyLinks.createOrUpdate
  remove s src dst := s.withTable (s.table.remove src dst)

end HostRouting
