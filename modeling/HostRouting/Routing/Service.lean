import HostRouting.HostDirectory
import HostRouting.LinkStore.Basic
import HostRouting.Routing.Search
import HostRouting.Routing.Weight

/-!
# Path services

A path service lists candidate paths, and candidate pairs of disjoint paths, between two elements
in the current state of the links and hosts. The service of the topology lists the cheapest paths;
for a pair it takes a cheapest path and the first cheapest path in what is left without it.

Main definitions: `PathService` and `topologyPaths`.
-/

namespace HostRouting

structure PathService (σ : Type) where
  paths : σ → HostDirectory → Weigher → ElementId → ElementId → List Path
  disjointPaths : σ → HostDirectory → Weigher → ElementId → ElementId → List DisjointPaths

/-- How many equally cheap paths are listed. -/
structure PlannerConfig where
  maxPaths : Nat
deriving DecidableEq

def PlannerConfig.default : PlannerConfig := ⟨16⟩

/-- The paths that routes of the same cost make. -/
def pathsOfRoutes (cost : Binary64) (routes : List (List Link)) : List Path :=
  routes.filterMap fun links => (Path.ofLinks .core links cost).toOption

/-- The cheapest paths that avoid what is excluded. -/
def cheapestPaths (maxPaths : Nat) (candidates : List Link) (weigher : Weigher) (x : Exclusions)
    (src dst : ElementId) : List Path :=
  let g := Graph.ofCandidates (fun l => (weigher l).value?) x candidates
  match g.cheapestRoutes maxPaths src dst with
  | some (cost, routes) => pathsOfRoutes cost routes
  | none => []

/-- Every cheapest path that has a backup, with the first backup. -/
def disjointPairs (maxPaths : Nat) (candidates : List Link) (weigher : Weigher)
    (src dst : ElementId) : List DisjointPaths :=
  (cheapestPaths maxPaths candidates weigher .none src dst).filterMap fun primary =>
    (cheapestPaths maxPaths candidates weigher (.disjointFrom primary) src dst).head?.map
      fun backup => ⟨primary, backup⟩

/-- The service of the topology that the stored links and the known hosts make. -/
def topologyPaths {σ : Type} [LinkStore σ] (config : PlannerConfig) : PathService σ where
  paths links hosts weigher src dst :=
    cheapestPaths config.maxPaths (candidateLinks (LinkStore.links links) hosts.hosts) weigher
      .none src dst
  disjointPaths links hosts weigher src dst :=
    disjointPairs config.maxPaths (candidateLinks (LinkStore.links links) hosts.hosts) weigher
      src dst

/-! ## JSON form -/

def PlannerConfig.fields : Json.Fields PlannerConfig :=
  PlannerConfig.mk <$> .defaulted "max_paths" PlannerConfig.default.maxPaths

instance : Json.Decode PlannerConfig := ⟨PlannerConfig.fields.decode⟩

instance : Json.Encode PlannerConfig where
  encode c := .object [("max_paths", Json.encode c.maxPaths)]

end HostRouting
