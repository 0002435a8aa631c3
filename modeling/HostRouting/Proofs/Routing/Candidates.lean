import HostRouting.LinkStore.Faulty
import HostRouting.Proofs.Routing.Routes
import Mathlib.Data.List.Nodup

/-!
# Candidates are listed once

A store of links lists no link twice (`LawfulLinkStore`), and no two hosts have one identifier
(`HostDirectory.nodup_ids`). So no candidate is listed twice when hosts are located on devices and
no stored link has the ends of a link that attaches a host (`nodup_candidateLinks`), and no two
edges of the graph have one link (`Graph.nodup_links_ofCandidates`).
-/

namespace HostRouting

/-! ## Catalogs -/

section

variable {κ ν : Type} [Ord κ] [Std.TransOrd κ] {key : ν → κ}

theorem Catalog.nodup_map_toList (c : Catalog key) : (c.toList.map key).Nodup := by
  have hkeys : c.toList.map key = c.byKey.entries.map Prod.fst := by
    rw [c.entries_eq_map_toList, List.map_map]
    rfl
  rw [hkeys]
  refine List.pairwise_map.2 (c.byKey.increasing.imp fun {e e'} hlt heq => ?_)
  rw [heq, Std.compare_self] at hlt
  exact nomatch hlt

theorem Catalog.nodup_toList (c : Catalog key) : c.toList.Nodup :=
  List.Pairwise.of_map key (fun _ _ hne heq => hne (congrArg key heq)) c.nodup_map_toList

end

theorem HostDirectory.nodup_ids (d : HostDirectory) : (d.hosts.map Host.id).Nodup :=
  d.byId.nodup_map_toList

/-! ## Stores -/

/-- The store lists no link twice. -/
class LawfulLinkStore (σ : Type) [LinkStore σ] : Prop where
  nodup_links : ∀ store : σ, (LinkStore.links store).Nodup

instance : LawfulLinkStore LinkTable := ⟨fun t => t.byEnds.nodup_toList⟩

instance : LawfulLinkStore FaultyLinks := ⟨fun s => s.table.byEnds.nodup_toList⟩

/-! ## Candidates -/

variable {links : List Link} {hosts : List Host}

/-- The points at which routes attach hosts are ports of devices. -/
def OnDevices (hosts : List Host) : Prop :=
  ∀ h ∈ hosts, ∀ p, h.location? = some p → p.element.isDevice = true

/-- No stored link has the ends of a link that attaches a host. -/
def Apart (links : List Link) (hosts : List Host) : Prop :=
  ∀ l ∈ links, ∀ h ∈ hosts, ∀ a ∈ attachmentLinks h, l.endpoints ≠ a.endpoints

instance (hosts : List Host) : Decidable (OnDevices hosts) :=
  decidable_of_iff (∀ h ∈ hosts, (h.location?.all fun p => p.element.isDevice) = true) (by
    simp [OnDevices, Option.all_eq_true])

instance (links : List Link) (hosts : List Host) : Decidable (Apart links hosts) :=
  inferInstanceAs (Decidable (∀ l ∈ _, _))

/-- An attachment link tells which host it attaches. -/
theorem id_eq_of_mem_attachmentLinks (hon : OnDevices hosts) {h h' : Host} {l : Link}
    (hh : h ∈ hosts) (hh' : h' ∈ hosts) (hl : l ∈ attachmentLinks h)
    (hl' : l ∈ attachmentLinks h') : h.id = h'.id := by
  obtain ⟨p, hp, hl⟩ := mem_attachmentLinks_iff.1 hl
  obtain ⟨p', hp', hl'⟩ := mem_attachmentLinks_iff.1 hl'
  have hdevice := hon h hh p hp
  have hdevice' := hon h' hh' p' hp'
  rcases hl with rfl | rfl <;> rcases hl' with hl' | hl' <;>
    simp only [Link.between, Link.mk.injEq, ConnectPoint.ofHost] at hl' <;>
    grind [ElementId.isDevice]

theorem nodup_attachmentLinks (hon : OnDevices hosts) {h : Host} (hh : h ∈ hosts) :
    (attachmentLinks h).Nodup := by
  unfold attachmentLinks
  cases hp : h.location? with
  | none => exact List.nodup_nil
  | some p =>
    have hdevice := hon h hh p hp
    refine List.nodup_cons.2 ⟨fun hmem => ?_, by simp⟩
    have heq := congrArg (fun l => l.src.element) (List.mem_singleton.1 hmem)
    rw [← show ElementId.host h.id = p.element from heq] at hdevice
    exact nomatch hdevice

theorem nodup_candidateLinks (hlinks : links.Nodup) (hids : (hosts.map Host.id).Nodup)
    (hon : OnDevices hosts) (hapart : Apart links hosts) : (candidateLinks links hosts).Nodup := by
  unfold candidateLinks
  rw [List.nodup_append]
  refine ⟨hlinks.filter _, ?_, ?_⟩
  · rw [List.nodup_flatMap]
    refine ⟨fun h hh => nodup_attachmentLinks hon hh, ?_⟩
    refine (List.pairwise_map.1 hids).imp_of_mem fun {h h'} hh hh' hne l hl hl' => ?_
    exact hne (id_eq_of_mem_attachmentLinks hon hh hh' hl hl')
  · intro l hl a ha heq
    obtain ⟨h, hh, ha⟩ := List.mem_flatMap.1 ha
    exact hapart l (List.mem_filter.1 hl).1 h hh a ha (congrArg Link.endpoints heq)

theorem Graph.nodup_links_ofCandidates {κ : Type} {weigh : Link → Option κ} {x : Exclusions}
    {candidates : List Link} (h : candidates.Nodup) :
    ((ofCandidates weigh x candidates).edges.map Edge.link).Nodup := by
  have hperm := (perm_sortedOn Edge.link ((candidates.filter x.allows).filterMap
    fun l => (weigh l).map fun w => ({ link := l, weight := w } : Edge κ))).map Edge.link
  refine hperm.nodup_iff.2 ?_
  rw [List.map_filterMap]
  refine List.Nodup.filterMap (fun l l' l'' hl hl' => ?_) (h.filter _)
  simp only [Option.mem_def, Option.map_eq_some_iff] at hl hl'
  obtain ⟨_, ⟨w, -, rfl⟩, rfl⟩ := hl
  obtain ⟨_, ⟨w', -, rfl⟩, hlink⟩ := hl'
  exact hlink.symm

end HostRouting
