import HostRouting.Proofs.Compiler.Safety
import HostRouting.Proofs.Flow.RoundTrip
import HostRouting.Proofs.Json.Numbers

/-!
# The JSON form of intents is read back

1. A constraint whose numbers are finite is read back (`Constraint.readsBack`).
2. The JSON form of an intent is read as the members it was written from
   (`HostIntent.decode_toJson`). As the exclusion of optical links is among the constraints of a
   built intent it is not added again.
3. The numbers in what is read from a well-formed value are finite
   (`WireIntent.isFinite_of_decode`), so what was read once is written in a form that denotes it.

Main fact: `HostIntent.ofJson_toJson_of_build_or_read`.
-/

namespace HostRouting

open Json

/-! ## Names -/

theorem HostId.readsBack (id : HostId) : ReadsBack id := rfl

theorem ApplicationId.readsBack (app : ApplicationId) : ReadsBack app := rfl

theorem ResourceGroup.readsBack (g : ResourceGroup) : ReadsBack g :=
  congrArg (Except.map ResourceGroup.mk) (readsBack_uint64 g.number)

/-! ## Constraints -/

namespace Constraint

/-- Whether the numbers of a constraint are finite. -/
def isFinite : Constraint → Bool
  | .bandwidth b => b.bps.isFinite
  | .atMost _ threshold => threshold.isFinite
  | .limit _ threshold _ => threshold.isFinite
  | .asymmetricPath | .linkType .. | .marker _ | .pathViability => true

/-- The members beside the tag are read as those of the tagged constraint. -/
theorem decode_tagged {s : String} {t : Tag} {members : List (String × Json)}
    (htag : tags.lookup s = some t) (htype : "type" ∉ members.map Prod.fst) :
    (decode (Json.object (("type", .text s) :: members)) : Except Fault Constraint) =
      (fields t).decode (.object members) := by
  have hne : ∀ m ∈ members, m.1 ≠ "type" := fun m hm h => htype (h ▸ List.mem_map_of_mem hm)
  have hnone : members.filter (·.1 = "type") = [] :=
    List.filter_eq_nil_iff.2 fun m hm => by simpa using hne m hm
  have hall : members.filter (·.1 ≠ "type") = members :=
    List.filter_eq_self.2 fun m hm => by simpa using hne m hm
  have htags : decodeTag (.text s) = .ok t := by
    unfold decodeTag
    dsimp only
    rw [htag]
  dsimp only [decode]
  rw [List.filter_cons_of_pos (by simp), hnone, List.filter_cons_of_neg (by simp), hall]
  dsimp only
  rw [htags]
  rfl

theorem decode_types (types : List LinkType) :
    decode (encode types) = .ok (types.map ListedType.mk) :=
  decodeItems_map fun t _ =>
    congrArg (Except.map ListedType.mk)
      (decodeTagBeside_of_lookup (show LinkType.tags.lookup t.tag = some t by cases t <;> rfl))

/-- A constraint whose numbers are finite is read back. -/
theorem readsBack {c : Constraint} (h : c.isFinite = true) : ReadsBack c := by
  cases c with
  | bandwidth b =>
    refine (decode_tagged (t := .bandwidth) rfl (by simp)).trans ?_
    exact Fields.decode_object (by simp) <| Fields.read_map <|
      Fields.read_present List.mem_cons_self (by simp)
        (congrArg (Except.map Bandwidth.mk) (readsBack_number h))
  | atMost key threshold =>
    have hnodup : ["key", "threshold"].Nodup := by decide
    refine (decode_tagged (t := .atMost) rfl (by simp)).trans ?_
    exact Fields.decode_object hnodup <| Fields.read_seq
      (Fields.read_map (Fields.read_present List.mem_cons_self hnodup (readsBack_text key)))
      (Fields.read_present (by simp) hnodup (readsBack_number h))
  | limit key threshold upper =>
    have hnodup : ["key", "threshold", "upper_limit"].Nodup := by decide
    refine (decode_tagged (t := .limit) rfl (by simp)).trans ?_
    exact Fields.decode_object hnodup <| Fields.read_seq
      (Fields.read_seq
        (Fields.read_map (Fields.read_present List.mem_cons_self hnodup (readsBack_text key)))
        (Fields.read_present (by simp) hnodup (readsBack_number h)))
      (Fields.read_present (v := .bool upper) (by simp) hnodup (readsBack_bool upper))
  | asymmetricPath =>
    exact (decode_tagged (t := .asymmetricPath) rfl (by simp)).trans
      (Fields.decode_object List.nodup_nil rfl)
  | linkType inclusive types =>
    have hnodup : ["inclusive", "types"].Nodup := by decide
    have htypes : (types.map ListedType.mk).map ListedType.type = types := by
      rw [List.map_map]
      exact types.map_id
    refine (decode_tagged (t := .linkType) rfl (by simp)).trans ?_
    refine Fields.decode_object hnodup (Fields.read_seq_iff.2
      ⟨_, Fields.read_map (Fields.read_present List.mem_cons_self hnodup
        (readsBack_bool inclusive)),
      _, Fields.read_present (by simp) hnodup (decode_types types), ?_⟩)
    exact congrArg (linkType inclusive) htypes
  | marker name =>
    refine (decode_tagged (t := .marker) rfl (by simp)).trans ?_
    exact Fields.decode_object (by simp) <| Fields.read_map <|
      Fields.read_present List.mem_cons_self (by simp) (readsBack_text name)
  | pathViability =>
    exact (decode_tagged (t := .pathViability) rfl (by simp)).trans
      (Fields.decode_object List.nodup_nil rfl)

/-- The numbers of a constraint that is read from well-formed members are finite. -/
theorem isFinite_of_read {t : Tag} {ms : Members} {c : Constraint}
    (hms : Fields.WellFormed ms) (h : (fields t).read ms = .ok c) : c.isFinite = true := by
  cases t with
  | bandwidth =>
    obtain ⟨b, hb, rfl⟩ := Fields.read_map_iff.1 h
    obtain ⟨place, v, hfind, hv⟩ := Fields.read_required_iff.1 hb
    obtain ⟨x, hx, rfl⟩ := Except.map_eq_ok_iff.1 hv
    exact isFinite_of_decode (hms _ _ _ hfind) hx
  | atMost =>
    obtain ⟨f, hf, threshold, hthreshold, rfl⟩ := Fields.read_seq_iff.1 h
    obtain ⟨key, -, rfl⟩ := Fields.read_map_iff.1 hf
    obtain ⟨place, v, hfind, hv⟩ := Fields.read_required_iff.1 hthreshold
    exact isFinite_of_decode (hms _ _ _ hfind) hv
  | limit =>
    obtain ⟨f, hf, upper, -, rfl⟩ := Fields.read_seq_iff.1 h
    obtain ⟨g, hg, threshold, hthreshold, rfl⟩ := Fields.read_seq_iff.1 hf
    obtain ⟨key, -, rfl⟩ := Fields.read_map_iff.1 hg
    obtain ⟨place, v, hfind, hv⟩ := Fields.read_required_iff.1 hthreshold
    exact isFinite_of_decode (hms _ _ _ hfind) hv
  | linkType =>
    obtain ⟨f, hf, types, -, rfl⟩ := Fields.read_seq_iff.1 h
    obtain ⟨inclusive, -, rfl⟩ := Fields.read_map_iff.1 hf
    rfl
  | marker =>
    obtain ⟨name, -, rfl⟩ := Fields.read_map_iff.1 h
    rfl
  | asymmetricPath =>
    rw [← Except.ok.inj h]
    rfl
  | pathViability =>
    rw [← Except.ok.inj h]
    rfl

theorem isFinite_of_decode {v : Json} {c : Constraint} (hv : v.wellFormed = true)
    (h : decode v = .ok c) : c.isFinite = true := by
  -- Whatever its shape the value holds the members beside the tag.
  obtain ⟨t, beside, hbeside, hread⟩ : ∃ t beside, beside.wellFormed = true ∧
      (fields t).decode beside = .ok c := by
    cases v with
    | object members =>
      dsimp only [decode] at h
      split at h
      · obtain ⟨t, -, h⟩ := Except.bind_eq_ok_iff.1 h
        exact ⟨t, _, wellFormed_object_iff.2 fun m hm =>
          wellFormed_object_iff.1 hv m (List.mem_of_mem_filter hm), h⟩
      · exact nomatch h
      · exact nomatch h
    | array items =>
      cases items with
      | nil => exact nomatch h
      | cons tag items =>
        obtain ⟨t, -, h⟩ := Except.bind_eq_ok_iff.1 h
        exact ⟨t, _, wellFormed_array_iff.2 fun item hitem =>
          wellFormed_array_iff.1 hv item (List.mem_cons_of_mem _ hitem), h⟩
    | _ => exact nomatch h
  obtain ⟨ms, hms, hread⟩ := Fields.read_of_decode hbeside hread
  exact isFinite_of_read hms hread

end Constraint

/-! ## Intents -/

theorem mem_of_mem_withNotOptical {c : Constraint} {constraints : List Constraint}
    (h : c ∈ withNotOptical constraints) : c = .notOptical ∨ c ∈ constraints := by
  unfold withNotOptical at h
  split at h
  · exact .inr h
  · exact List.mem_cons.1 h

namespace Draft

/-- A built intent has the members of its draft, with defaults for those that may be left out. -/
theorem eq_of_build {d : Draft} {i : HostIntent} (h : d.build = .ok i) :
    i =
      { base :=
          { key := d.key.getD (HostIntent.keyOf i.one i.two d.selector i.base.app)
            app := i.base.app
            selector := d.selector
            treatment := d.treatment
            constraints := withNotOptical d.constraints
            priority := d.priority.getD defaultPriority
            group := d.group }
        one := i.one
        two := i.two
        paths := none } := by
  unfold build at h
  obtain ⟨app, -, h⟩ := Except.bind_eq_ok_iff.1 h
  obtain ⟨one, -, h⟩ := Except.bind_eq_ok_iff.1 h
  obtain ⟨two, -, h⟩ := Except.bind_eq_ok_iff.1 h
  rw [← Except.ok.inj h]

theorem paths_of_build {d : Draft} {i : HostIntent} (h : d.build = .ok i) : i.paths = none := by
  rw [eq_of_build h]

/-- A key that is not given is derived. -/
theorem key_of_build {d : Draft} {i : HostIntent} (h : d.build = .ok i) (hkey : d.key = none) :
    i.base.key = HostIntent.keyOf i.one i.two i.base.selector i.base.app := by
  rw [eq_of_build h, hkey]
  rfl

end Draft

/-- The constraints that are read from a well-formed value have finite numbers. -/
theorem WireIntent.isFinite_of_decode {v : Json} {w : WireIntent} (hv : v.wellFormed = true)
    (h : decode v = .ok w) : ∀ c ∈ w.constraints, c.isFinite = true := by
  obtain ⟨ms, hms, hread⟩ := Fields.read_of_decode hv (show fields.decode v = .ok w from h)
  obtain ⟨_, h8, group, -, rfl⟩ := Fields.read_seq_iff.1 hread
  obtain ⟨_, h7, priority, -, rfl⟩ := Fields.read_seq_iff.1 h8
  obtain ⟨_, h6, constraints, hconstraints, rfl⟩ := Fields.read_seq_iff.1 h7
  obtain ⟨_, h5, treatment, -, rfl⟩ := Fields.read_seq_iff.1 h6
  obtain ⟨_, h4, selector, -, rfl⟩ := Fields.read_seq_iff.1 h5
  obtain ⟨_, h3, key, -, rfl⟩ := Fields.read_seq_iff.1 h4
  obtain ⟨_, h2, app, -, rfl⟩ := Fields.read_seq_iff.1 h3
  obtain ⟨_, h1, two, -, rfl⟩ := Fields.read_seq_iff.1 h2
  obtain ⟨one, -, rfl⟩ := Fields.read_map_iff.1 h1
  show ∀ c ∈ constraints, c.isFinite = true
  rcases Fields.read_member_iff.1 hconstraints with ⟨place, u, hfind, hu⟩ | ⟨-, hdefault⟩
  · have hwell := hms _ _ _ hfind
    cases u with
    | array items =>
      intro c hc
      obtain ⟨item, hitem, hdecode⟩ := exists_of_decodeItems hu c hc
      exact Constraint.isFinite_of_decode (wellFormed_array_iff.1 hwell item hitem) hdecode
    | _ => exact nomatch hu
  · rw [← Except.ok.inj hdefault]
    exact fun c hc => absurd hc List.not_mem_nil

namespace HostIntent

/-- The JSON form of an intent is read as the members it was written from. -/
theorem decode_toJson {i : HostIntent} (h : ∀ c ∈ i.base.constraints, c.isFinite = true) :
    decode i.toJson = .ok i.wire := by
  obtain ⟨members, hmembers, hform⟩ : ∃ members : List (String × Json),
      i.toJson = .object members ∧ members =
        [("one", encode (some i.one)), ("two", encode (some i.two)),
          ("app_id", encode (some i.base.app)), ("key", encode i.base.key.value),
          ("selector", encode i.base.selector), ("treatment", encode i.base.treatment),
          ("constraints", encode i.base.constraints), ("priority", encode i.base.priority)] ++
        WireIntent.encodePresent "resource_group" i.base.group := ⟨_, rfl, rfl⟩
  have hnodup : (members.map Prod.fst).Nodup := by
    rw [hform]
    cases i.base.group with
    | none => exact (by decide : ["one", "two", "app_id", "key", "selector", "treatment",
        "constraints", "priority"].Nodup)
    | some g => exact (by decide : ["one", "two", "app_id", "key", "selector", "treatment",
        "constraints", "priority", "resource_group"].Nodup)
  have hgroup : (Fields.defaulted "resource_group" none).read (Fields.ofObject members) =
      .ok i.base.group := by
    rw [hform] at hnodup ⊢
    cases hg : i.base.group with
    | none => exact Fields.read_absent (by simp [WireIntent.encodePresent])
    | some g =>
      rw [hg] at hnodup
      exact Fields.read_present (by simp [WireIntent.encodePresent]) hnodup
        (readsBack_some g.readsBack (by rintro ⟨⟩))
  rw [hmembers]
  refine Fields.decode_object hnodup (Fields.read_seq (Fields.read_seq (Fields.read_seq
    (Fields.read_seq (Fields.read_seq (Fields.read_seq (Fields.read_seq (Fields.read_seq
      (Fields.read_map ?one) ?two) ?app) ?key) ?selector) ?treatment) ?constraints) ?priority)
        hgroup)
  case one =>
    exact Fields.read_present (by simp [hform]) hnodup
      (readsBack_some i.one.readsBack (by rintro ⟨⟩))
  case two =>
    exact Fields.read_present (by simp [hform]) hnodup
      (readsBack_some i.two.readsBack (by rintro ⟨⟩))
  case app =>
    exact Fields.read_present (by simp [hform]) hnodup
      (readsBack_some i.base.app.readsBack (by rintro ⟨⟩))
  case key =>
    exact Fields.read_present (by simp [hform]) hnodup
      (readsBack_some (readsBack_text i.base.key.value) (by rintro ⟨⟩))
  case selector => exact Fields.read_present (by simp [hform]) hnodup i.base.selector.readsBack
  case treatment => exact Fields.read_present (by simp [hform]) hnodup i.base.treatment.readsBack
  case constraints =>
    exact Fields.read_present (by simp [hform]) hnodup
      (readsBack_list fun c hc => Constraint.readsBack (h c hc))
  case priority =>
    exact Fields.read_present (by simp [hform]) hnodup
      (readsBack_some (readsBack_uint32 i.base.priority) (by rintro ⟨⟩))

/-- The intent as its JSON form gives it: without paths, and under the key of its hosts, selector
and application. -/
def rederived (i : HostIntent) : HostIntent :=
  { i with
    base := { i.base with key := keyOf i.one i.two i.base.selector i.base.app }
    paths := none }

theorem ofJson_toJson {i : HostIntent} (hfinite : ∀ c ∈ i.base.constraints, c.isFinite = true)
    (hoptical : .notOptical ∈ i.base.constraints) : ofJson i.toJson = .ok i.rederived := by
  have hbuild : i.wire.build = .ok { i.rederived with
      base := { i.rederived.base with constraints := withNotOptical i.base.constraints } } := rfl
  rw [withNotOptical_of_mem hoptical] at hbuild
  unfold ofJson
  rw [decode_toJson hfinite]
  exact hbuild

theorem build_of_ofJson {v : Json} {i : HostIntent} (h : ofJson v = .ok i) :
    ∃ w : WireIntent, decode v = .ok w ∧ w.build = .ok i := by
  obtain ⟨w, hw, h⟩ := Except.bind_eq_ok_iff.1 h
  refine ⟨w, ?_, h⟩
  cases hd : (decode v : Except Fault WireIntent) with
  | error fault =>
    rw [hd] at hw
    exact nomatch hw
  | ok u =>
    rw [hd] at hw
    exact congrArg _ (Except.ok.inj hw)

/-- An intent that is read has the key of its hosts, selector and application. -/
theorem rederived_of_ofJson {v : Json} {i : HostIntent} (h : ofJson v = .ok i) :
    i.rederived = i := by
  obtain ⟨w, -, h⟩ := build_of_ofJson h
  obtain ⟨one, -, h⟩ := Except.bind_eq_ok_iff.1 h
  obtain ⟨two, -, h⟩ := Except.bind_eq_ok_iff.1 h
  obtain ⟨app, -, h⟩ := Except.bind_eq_ok_iff.1 h
  rw [← Except.ok.inj h]
  rfl

theorem isFinite_of_ofJson {v : Json} {i : HostIntent} (hv : v.wellFormed = true)
    (h : ofJson v = .ok i) : ∀ c ∈ i.base.constraints, c.isFinite = true := by
  obtain ⟨w, hdecode, h⟩ := build_of_ofJson h
  obtain ⟨one, -, h⟩ := Except.bind_eq_ok_iff.1 h
  obtain ⟨two, -, h⟩ := Except.bind_eq_ok_iff.1 h
  obtain ⟨app, -, h⟩ := Except.bind_eq_ok_iff.1 h
  rw [Draft.constraints_of_build h]
  exact fun c hc => (mem_of_mem_withNotOptical hc).elim (fun hc => hc ▸ rfl)
    (WireIntent.isFinite_of_decode hv hdecode c)

/-- A built intent with finite numbers is read back from its JSON form but for the key, which is
derived, and the JSON form of an intent that was read denotes that intent. -/
theorem ofJson_toJson_of_build_or_read :
    (∀ (d : Draft) (i : HostIntent), d.build = .ok i →
      (∀ c ∈ i.base.constraints, c.isFinite = true) →
      ofJson i.toJson = .ok { i with
        base := { i.base with key := keyOf i.one i.two i.base.selector i.base.app }
        paths := none } ∧
      (d.key = none ∨ i.base.key = keyOf i.one i.two i.base.selector i.base.app →
        ofJson i.toJson = .ok i)) ∧
    ∀ (v : Json) (i : HostIntent), v.wellFormed = true → ofJson v = .ok i →
      ofJson i.toJson = .ok i ∧ (ofJson i.toJson).map toJson = .ok i.toJson := by
  refine ⟨fun d i hd hfinite => ?_, fun v i hv h => ?_⟩
  · have hread := ofJson_toJson hfinite (Obtainable.built hd).notOptical_mem
    refine ⟨hread, fun hkey => ?_⟩
    have hderived : i.base.key = keyOf i.one i.two i.base.selector i.base.app :=
      hkey.elim (Draft.key_of_build hd) id
    rw [hread, rederived, ← hderived, ← Draft.paths_of_build hd]
  · have hread := ofJson_toJson (isFinite_of_ofJson hv h) (Obtainable.read h).notOptical_mem
    rw [rederived_of_ofJson h] at hread
    exact ⟨hread, by rw [hread]; rfl⟩

end HostIntent

namespace Sample

/-- A value with a foreign key, two criteria of one type behind one of a later type, a whole number
for a bandwidth and no treatment. -/
def looseValue : Json :=
  .object
    [("key", .text "foreign"), ("two", .text "h1"), ("one", .text "h2"), ("app_id", .text "sample"),
      ("constraints", .array
        [.object [("bandwidth", .integer 5), ("type", .text "bandwidth")],
          .array [.text "annotation", .text "latency", .number 20]]),
      ("selector", .array
        [.object [("type", .text "UDP_DST"), ("value", .integer 53)],
          .object [("type", .text "IP_PROTO"), ("value", .integer 6)],
          .object [("type", .text "IP_PROTO"), ("value", .integer 17)]])]

end Sample

theorem HostIntent.ofJson_toJson_of_build_or_read_sample :
    (∃ i, Sample.draft.build = .ok i ∧ (∀ c ∈ i.base.constraints, c.isFinite = true) ∧
      ofJson i.toJson = .ok i) ∧
    ∃ i, Sample.looseValue.wellFormed = true ∧ ofJson Sample.looseValue = .ok i ∧
      i.base.selector.toList = [.ipProto 17, .udpDst 53] ∧ ofJson i.toJson = .ok i := by
  obtain ⟨hbuilt, hread⟩ := ofJson_toJson_of_build_or_read
  constructor
  · have hfinite : ∀ i, Sample.draft.build = .ok i → ∀ c ∈ i.base.constraints,
        c.isFinite = true := by
      rintro i hi
      obtain rfl := Except.ok.inj hi
      decide +kernel
    exact ⟨_, rfl, hfinite _ rfl, (hbuilt Sample.draft _ rfl (hfinite _ rfl)).2 (.inl rfl)⟩
  · have hwell : Sample.looseValue.wellFormed = true := by decide +kernel
    have hselector : (ofJson Sample.looseValue).map (·.base.selector.toList) =
        .ok [.ipProto 17, .udpDst 53] := by decide +kernel
    obtain ⟨i, hi, hcriteria⟩ := Except.map_eq_ok_iff.1 hselector
    exact ⟨i, hwell, hi, hcriteria, (hread Sample.looseValue i hwell hi).1⟩

end HostRouting
