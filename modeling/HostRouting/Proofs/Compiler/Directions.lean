import HostRouting.Proofs.Compiler.Safety
import HostRouting.Proofs.Flow.Exchange

/-!
# The two directions of a compiled intent

A compilation of an intent between two hosts gives two installable intents. Each has everything of
the intent but its selector.

1. The selector of a direction asks for the addresses of its hosts (`criterion?_addressedSelector`).
2. The hosts that are found are those of the intent, so only the direction back has its ports
   exchanged (`directedSelector_there`, `directedSelector_back`).

Main fact: `compile_directions`.
-/

namespace HostRouting

/-- The criterion of a type in the direction from one host to another, given that of the flow. -/
def addressed (flavor : InstallableFlavor) (src dst : Host)
    (criteria : CriterionType → Option Criterion) : CriterionType → Option Criterion
  | .ethSrc => some (.ethSrc src.mac)
  | .ethDst => if flavor = .path then some (.ethDst dst.mac) else criteria .ethDst
  | t => criteria t

/-- The criterion of a type for the answers to a flow: where a protocol is asked for, that of the
exchanged type, exchanged. -/
def answered (criteria : CriterionType → Option Criterion) (t : CriterionType) :
    Option Criterion :=
  if (criteria .ipProto).isSome then (criteria t.exchanged).map Criterion.exchanged
  else criteria t

/-! ## Selectors -/

section

variable {flavor : InstallableFlavor} {i : HostIntent} {src dst : Host}

/-- The selector of a direction before ports are exchanged. -/
def addressedSelector (flavor : InstallableFlavor) (s : Selector) (src dst : Host) : Selector :=
  let s := s.add (.ethSrc src.mac)
  if flavor = .path then s.add (.ethDst dst.mac) else s

theorem criterion?_addressedSelector (s : Selector) (t : CriterionType) :
    (addressedSelector flavor s src dst).criterion? t =
      addressed flavor src dst s.criterion? t := by
  have hsrc : (s.add (.ethSrc src.mac)).criterion? t =
      if t = .ethSrc then some (.ethSrc src.mac) else s.criterion? t := by
    split
    next h => exact h ▸ Selector.criterion?_add_self s (.ethSrc src.mac)
    next h => exact Selector.criterion?_add_of_ne s h
  unfold addressedSelector
  by_cases hpath : flavor = .path
  · rw [if_pos hpath]
    by_cases hdst : t = .ethDst
    · subst hdst
      exact (Selector.criterion?_add_self _ (.ethDst dst.mac)).trans (if_pos hpath).symm
    · refine (Selector.criterion?_add_of_ne _ hdst).trans (hsrc.trans ?_)
      cases t <;> first | rfl | exact absurd rfl hdst
  · rw [if_neg hpath, hsrc]
    cases t <;> first | rfl | exact (if_neg hpath).symm

theorem answered_addressed (criteria : CriterionType → Option Criterion) (t : CriterionType) :
    answered (addressed flavor src dst criteria) t =
      addressed flavor src dst (answered criteria) t := by
  unfold answered
  show (if (criteria .ipProto).isSome then _ else _) = _
  cases t with
  | ethDst =>
    show (if (criteria .ipProto).isSome then
        (if flavor = .path then some (.ethDst dst.mac) else criteria .ethDst).map
          Criterion.exchanged
      else if flavor = .path then some (.ethDst dst.mac) else criteria .ethDst) =
      if flavor = .path then some (.ethDst dst.mac)
      else if (criteria .ipProto).isSome then (criteria .ethDst).map Criterion.exchanged
      else criteria .ethDst
    split <;> split <;> rfl
  | ethSrc => split <;> rfl
  | _ => rfl

theorem directedSelector_there (hends : i.one ≠ i.two) (hdst : dst.id = i.two) :
    directedSelector flavor i src dst = addressedSelector flavor i.base.selector src dst :=
  if_neg fun h => hends (h.1.trans hdst)

theorem directedSelector_back (hsrc : src.id = i.two) (hdst : dst.id = i.one) :
    directedSelector flavor i src dst =
      (addressedSelector flavor i.base.selector src dst).withPortsExchanged :=
  if_pos ⟨hdst.symm, hsrc.symm⟩

end

/-! ## Installable intents -/

theorem base_installable {flavor : InstallableFlavor} {i : HostIntent} {p : Path} {src dst : Host}
    {installed : Installable} (h : installable flavor i p src dst = .ok installed) :
    installed.base = i.base.derive (directedSelector flavor i src dst) := by
  unfold installable at h
  cases flavor with
  | linkCollection =>
    obtain ⟨ingress, -, h⟩ := Except.bind_eq_ok_iff.1 h
    obtain ⟨egress, -, h⟩ := Except.bind_eq_ok_iff.1 h
    rw [← Except.ok.inj h]
    rfl
  | path =>
    rw [← Except.ok.inj h]
    rfl

/-- An installable intent that has everything of an intent but the selector, whose criteria are the
given ones. -/
structure Directed (i : HostIntent) (criteria : CriterionType → Option Criterion)
    (installed : Installable) : Prop where
  base : installed.base = { i.base with selector := installed.base.selector }
  criterion : ∀ t, installed.base.selector.criterion? t = criteria t

theorem directed_of_base {i : HostIntent} {s : Selector}
    {criteria : CriterionType → Option Criterion} {installed : Installable} (hi : i.Obtainable)
    (hbase : installed.base = i.base.derive s) (h : ∀ t, s.criterion? t = criteria t) :
    Directed i criteria installed := by
  refine ⟨?_, fun t => ?_⟩
  · rw [hbase]
    unfold Connectivity.derive
    rw [withNotOptical_of_mem hi.notOptical_mem]
  · rw [hbase]
    exact h t

section

variable {σ ρ : Type} [LinkStore σ] [Reservations ρ]

/-- An intent between two hosts is compiled to one installable intent for each direction, and each
has everything of the intent but the selector. The selector of the traffic there asks for what the
intent asks for, with the addresses of the hosts; that of the traffic back for the same of the
answers, with the addresses exchanged. -/
theorem compile_directions {c : Compiler σ} {s : Stores σ ρ} {i : HostIntent} (hi : i.Obtainable)
    (hends : i.one ≠ i.two) (hok : (compile c s i).result.isOk = true) :
    ∃ forward reverse one two, (compile c s i).result = .ok [forward, reverse] ∧
      s.hosts.host? i.one = some one ∧ s.hosts.host? i.two = some two ∧
      Directed i (addressed c.config.flavor one two i.base.selector.criterion?) forward ∧
      Directed i (addressed c.config.flavor two one (answered i.base.selector.criterion?))
        reverse := by
  obtain ⟨bare, links, there, back, one, two, forward, reverse, hrouting, -, hresult, hforward,
    hreverse⟩ := installed_of_compile hok hends
  obtain ⟨hone, htwo⟩ := endHosts_eq_ok hrouting.ends
  have hthere : directedSelector c.config.flavor i one two =
      addressedSelector c.config.flavor i.base.selector one two :=
    directedSelector_there hends (HostDirectory.id_of_host? htwo)
  have hback : directedSelector c.config.flavor i two one =
      (addressedSelector c.config.flavor i.base.selector two one).withPortsExchanged :=
    directedSelector_back (HostDirectory.id_of_host? htwo) (HostDirectory.id_of_host? hone)
  refine ⟨forward, reverse, one, two, hresult, hone, htwo, ?_, ?_⟩
  · refine directed_of_base hi (base_installable hforward) fun t => ?_
    exact (congrArg (·.criterion? t) hthere).trans (criterion?_addressedSelector _ t)
  · refine directed_of_base hi (base_installable hreverse) fun t => ?_
    refine (congrArg (·.criterion? t) hback).trans ?_
    rw [Selector.criterion?_withPortsExchanged, ← answered_addressed]
    unfold answered
    simp only [criterion?_addressedSelector]

end

namespace Sample

/-- A request for web traffic of which only the destination port is asked for. -/
def web : Draft :=
  { Draft.empty with
    app := some ⟨"sample"⟩
    key := some ⟨⟨"sample"⟩, "h1h2"⟩
    one := some one
    two := some two
    selector := .ofList [.ethSrc (mac 9), .ipProto tcpProtocol, .tcpDst 80] }

/-- The intent that is built for it. -/
def webIntent : HostIntent :=
  { intent [.notOptical] with
    base := { (intent [.notOptical]).base with selector := web.selector } }

def pathCompiler : Compiler LinkTable := ⟨service, { CompilerConfig.default with flavor := .path }⟩

end Sample

/-- The answers come from the port that is asked for, and no port of theirs is asked for in turn. -/
theorem compile_directions_web :
    Sample.webIntent.Obtainable ∧ Sample.webIntent.one ≠ Sample.webIntent.two ∧
      (compile Sample.pathCompiler Sample.stores Sample.webIntent).result.isOk = true ∧
      ∃ forward reverse, (compile Sample.pathCompiler Sample.stores Sample.webIntent).result =
          .ok [forward, reverse] ∧
        forward.base.selector.criterion? .ethSrc = some (.ethSrc (Sample.mac 1)) ∧
        forward.base.selector.criterion? .tcpDst = some (.tcpDst 80) ∧
        reverse.base.selector.criterion? .ethDst = some (.ethDst (Sample.mac 1)) ∧
        reverse.base.selector.criterion? .tcpSrc = some (.tcpSrc 80) ∧
        reverse.base.selector.criterion? .tcpDst = none := by
  have hi : Sample.webIntent.Obtainable := .built (d := Sample.web) rfl
  have hends : Sample.webIntent.one ≠ Sample.webIntent.two := by decide
  have hok : (compile Sample.pathCompiler Sample.stores Sample.webIntent).result.isOk = true := by
    decide +kernel
  obtain ⟨forward, reverse, one, two, hresult, hone, htwo, hforward, hreverse⟩ :=
    compile_directions hi hends hok
  obtain rfl : Host.named Sample.one (Sample.mac 1) = one := Option.some.inj hone
  obtain rfl : Host.named Sample.two (Sample.mac 2) = two := Option.some.inj htwo
  exact ⟨hi, hends, hok, forward, reverse, hresult, hforward.criterion _, hforward.criterion _,
    hreverse.criterion _, hreverse.criterion _, hreverse.criterion _⟩

end HostRouting
