import HostRouting.Intent.Basic
import HostRouting.Proofs.Address.Text
import HostRouting.Proofs.Order

/-!
# What the key of an intent tells

The key of the traffic between two hosts puts the names of the hosts side by side and the criteria
in brackets after them. From names of the conventional form it can be read back: the text before
the first bracket has two slashes, an Ethernet address takes a known number of characters before
each of them, and no criterion has a comma in it.

Main fact: `HostIntent.keyOf_tells`. The key tells the application, which two hosts and which texts
of criteria, and nothing else: not which of the two hosts is the first, nor whether a bare number is
the port of one protocol or the other, at the source or at the destination.
-/

namespace HostRouting

open Std

/-! ## Texts with separators -/

section

variable {separator : Char}

/-- The first separator divides a text in one way. -/
theorem eq_of_append_separator {a b x y : List Char} (ha : separator ∉ a) (hb : separator ∉ b)
    (h : a ++ separator :: x = b ++ separator :: y) : a = b ∧ x = y := by
  have hparts := congrArg (MacAddress.splitAt separator) h
  rw [MacAddress.splitAt_append ha, MacAddress.splitAt_append hb] at hparts
  obtain rfl := (List.cons.inj hparts).1
  exact ⟨rfl, (List.cons.inj (List.append_cancel_left h)).2⟩

/-- A blank after each separator belongs to the part that follows. -/
theorem intercalate_blank (part : List Char) (rest : List (List Char)) :
    [separator, ' '].intercalate (part :: rest) =
      [separator].intercalate (part :: rest.map (' ' :: ·)) := by
  induction rest generalizing part with
  | nil => rfl
  | cons next rest ih =>
    have hnext : [separator].intercalate ((' ' :: next) :: rest.map (' ' :: ·)) =
        ' ' :: [separator].intercalate (next :: rest.map (' ' :: ·)) := by
      cases rest <;> simp [List.intercalate_cons_cons]
    rw [List.intercalate_cons_cons, ih, List.map_cons, List.intercalate_cons_cons, hnext]
    simp

/-- Parts that are not empty and do without the separator are read back from their enumeration. -/
theorem eq_of_intercalate_blank (hseparator : separator ≠ ' ') {l l' : List (List Char)}
    (hl : ∀ part ∈ l, part ≠ [] ∧ separator ∉ part)
    (hl' : ∀ part ∈ l', part ≠ [] ∧ separator ∉ part)
    (h : [separator, ' '].intercalate l = [separator, ' '].intercalate l') : l = l' := by
  have hnonempty : ∀ {part : List Char} {rest : List (List Char)}, part ≠ [] →
      [separator, ' '].intercalate (part :: rest) ≠ [] := by
    intro part rest hpart
    cases rest <;> simp [List.intercalate_cons_cons, hpart]
  have hparts : ∀ {part : List Char} {rest : List (List Char)},
      (∀ p ∈ part :: rest, p ≠ [] ∧ separator ∉ p) →
      MacAddress.splitAt separator ([separator, ' '].intercalate (part :: rest)) =
        part :: rest.map (' ' :: ·) := by
    intro part rest hrest
    obtain ⟨hpart, hrest⟩ := List.forall_mem_cons.1 hrest
    rw [intercalate_blank, MacAddress.splitAt_intercalate (List.cons_ne_nil _ _)]
    refine List.forall_mem_cons.2 ⟨hpart.2, List.forall_mem_map.2 fun p hp => ?_⟩
    rw [List.mem_cons, not_or]
    exact ⟨hseparator, (hrest p hp).2⟩
  cases l with
  | nil =>
    cases l' with
    | nil => rfl
    | cons part' rest' => exact absurd h.symm (hnonempty (hl' part' List.mem_cons_self).1)
  | cons part rest =>
    cases l' with
    | nil => exact absurd h (hnonempty (hl part List.mem_cons_self).1)
    | cons part' rest' =>
      have hsplit := congrArg (MacAddress.splitAt separator) h
      rw [hparts hl, hparts hl'] at hsplit
      obtain ⟨hpart, hrest⟩ := List.cons.inj hsplit
      rw [hpart, List.map_injective_iff.2 (List.cons_injective) hrest]

end

/-! ## Criteria -/

theorem digits_toString (n : Nat) :
    (toString n).toList ≠ [] ∧ ∀ c ∈ (toString n).toList, c.isDigit = true := by
  rw [Nat.toString_eq_ofList_toDigits, String.toList_ofList]
  refine ⟨Nat.toDigits_ne_nil, fun c hc => ?_⟩
  exact Nat.isDigit_of_mem_toDigits (by decide) (by decide) hc

theorem comma_notMem_digits (n : Nat) : ',' ∉ (toString n).toList :=
  fun h => nomatch (digits_toString n).2 _ h

theorem comma_ne_digitChar : ∀ d < 16, ',' ≠ Nat.digitChar d := by decide

theorem comma_notMem_hexDigits (n : Nat) : ',' ∉ Nat.toDigits 16 n := by
  induction n using Nat.strongRecOn with
  | _ n ih =>
    rw [Nat.toDigits_eq_if (by decide)]
    split
    next hlt => exact List.mem_singleton.not.2 (comma_ne_digitChar n hlt)
    next hge =>
      rw [List.mem_append, List.mem_singleton, not_or]
      exact ⟨ih (n / 16) (by omega), comma_ne_digitChar _ (Nat.mod_lt _ (by decide))⟩

theorem MacAddress.comma_notMem_text (mac : MacAddress) : ',' ∉ mac.text.toList := by
  unfold text
  rw [String.toList_intercalate, List.map_map]
  refine (notMem_intercalate_iff (by decide)).2 (List.forall_mem_map.2 fun octet _ => ?_)
  have hsize : octet.toNat < 256 := octet.toNat_lt
  show ',' ∉ (groupText octet).toList
  rw [toList_groupText, List.mem_pair, not_or]
  exact ⟨comma_ne_digitChar _ (by omega), comma_ne_digitChar _ (by omega)⟩

theorem Ipv4Prefix.comma_notMem_text (p : Ipv4Prefix) : ',' ∉ p.text.toList := by
  have haddress : ',' ∉ p.address.text.toList := by
    unfold Ipv4Address.text
    rw [String.toList_intercalate, List.map_map]
    exact (notMem_intercalate_iff (by decide)).2
      (List.forall_mem_map.2 fun o _ => comma_notMem_digits _)
  unfold text
  simp only [String.toList_append, List.mem_append, not_or]
  exact ⟨⟨haddress, by decide⟩, comma_notMem_digits _⟩

namespace Criterion

theorem comma_notMem_hexText (n : UInt16) : ',' ∉ (hexText n).toList := by
  unfold hexText
  simp only [String.toList_append, String.toList_ofList, List.mem_append]
  rintro (h | h | h)
  · exact absurd h (by decide)
  · exact absurd (List.eq_of_mem_replicate h) (by decide)
  · exact comma_notMem_hexDigits _ h

theorem comma_notMem_valueText (c : Criterion) : ',' ∉ c.valueText.toList := by
  cases c with
  | ethSrc mac | ethDst mac => exact mac.comma_notMem_text
  | ipv4Src p | ipv4Dst p => exact p.comma_notMem_text
  | ethType n => exact comma_notMem_hexText n
  | _ => exact comma_notMem_digits _

theorem comma_notMem_text (c : Criterion) : ',' ∉ c.text.toList := by
  have hlabel : ∀ t : CriterionType, ',' ∉ t.label.toList := by
    intro t
    cases t <;> decide
  unfold text
  simp only [String.toList_append, List.mem_append, not_or]
  exact ⟨⟨hlabel _, by decide⟩, c.comma_notMem_valueText⟩

/-- What stands in a key for a criterion is not empty and has no comma in it. -/
theorem keyText_separable (c : Criterion) : c.keyText.toList ≠ [] ∧ ',' ∉ c.keyText.toList := by
  have htext : c.text.toList ≠ [] := by
    unfold text
    simp
  unfold keyText
  split
  case h_5 => exact ⟨htext, c.comma_notMem_text⟩
  all_goals exact ⟨(digits_toString _).1, comma_notMem_valueText _⟩

end Criterion

/-- The texts of the criteria as they stand between the brackets of a key. -/
def Selector.keyText (s : Selector) : String :=
  ", ".intercalate (sorted (s.toList.map Criterion.keyText))

/-- Sorting tells the items and how often each occurs. -/
theorem sorted_eq_iff {α : Type} [Ord α] [TransOrd α] [LawfulEqOrd α] {l l' : List α} :
    sorted l = sorted l' ↔ l.Perm l' := by
  constructor
  · intro h
    refine (perm_sortedOn id l).symm.trans ?_
    rw [show sortedOn id l = sortedOn id l' from h]
    exact perm_sortedOn id l'
  · intro h
    have hsorted : (sorted l).Perm (sorted l') :=
      (perm_sortedOn id l).trans (h.trans (perm_sortedOn id l').symm)
    refine hsorted.eq_of_pairwise (fun a b _ _ hab hba => ?_) increases_sortedOn increases_sortedOn
    exact LawfulEqOrd.eq_of_compare (OrientedCmp.isLE_antisymm hab hba)

theorem Selector.keyText_eq_iff {s s' : Selector} : s.keyText = s'.keyText ↔
    (s.toList.map Criterion.keyText).Perm (s'.toList.map Criterion.keyText) := by
  rw [← sorted_eq_iff]
  refine ⟨fun h => ?_, fun h => congrArg (", ".intercalate ·) h⟩
  have hseparable : ∀ (s : Selector), ∀ part ∈ (sorted (s.toList.map Criterion.keyText)).map
      String.toList, part ≠ [] ∧ ',' ∉ part := by
    intro s
    refine List.forall_mem_map.2 fun text htext => ?_
    obtain ⟨c, -, rfl⟩ := List.mem_map.1 (mem_sortedOn.1 htext)
    exact c.keyText_separable
  have htexts := congrArg String.toList h
  unfold keyText at htexts
  rw [String.toList_intercalate, String.toList_intercalate] at htexts
  have hparts := eq_of_intercalate_blank (by decide) (hseparable s) (hseparable s') htexts
  exact List.map_injective_iff.2 (fun _ _ => String.toList_inj.1) hparts

/-! ## Hosts -/

namespace HostId

/-- The conventional form of a host's name: six pairs of hexadecimal digits between colons, a slash,
and the number of a virtual network or the word for none. -/
def IsConventional (id : HostId) : Prop :=
  ∃ (pairs : List (List Char)) (network : List Char),
    id.name.toList = [':'].intercalate pairs ++ '/' :: network ∧ pairs.length = 6 ∧
    (∀ pair ∈ pairs, pair.length = 2 ∧ ∀ c ∈ pair, (Json.hexDigit? c).isSome) ∧
    (network = "None".toList ∨ network ≠ [] ∧ ∀ c ∈ network, c.isDigit)

/-- The conventional name of a host with an Ethernet address in a virtual network. -/
def conventional (mac : MacAddress) (network : Option Nat) : HostId :=
  ⟨mac.text ++ "/" ++ (network.map toString).getD "None"⟩

theorem isConventional_conventional (mac : MacAddress) (network : Option Nat) :
    (conventional mac network).IsConventional := by
  refine ⟨mac.octets.toList.map fun o => (MacAddress.groupText o).toList,
    ((network.map toString).getD "None").toList, ?_, ?_, ?_, ?_⟩
  · simp [conventional, MacAddress.text, String.toList_intercalate, Function.comp_def]
  · simp
  · refine List.forall_mem_map.2 fun octet _ => ?_
    have hsize : octet.toNat < 256 := octet.toNat_lt
    rw [MacAddress.toList_groupText]
    refine ⟨rfl, fun c hc => ?_⟩
    rcases List.mem_pair.1 hc with rfl | rfl
    · rw [hexDigit?_digitChar _ (by omega)]
      rfl
    · rw [hexDigit?_digitChar _ (by omega)]
      rfl
  · cases network with
    | none => exact .inl rfl
    | some n => exact .inr (digits_toString n)

/-- Where the slash and the bracket stand in conventional names. -/
theorem IsConventional.shape {id : HostId} (h : id.IsConventional) :
    ∃ address network : List Char, id.name.toList = address ++ '/' :: network ∧
      address.length = 17 ∧ '/' ∉ address ∧ '/' ∉ network ∧ '[' ∉ id.name.toList := by
  obtain ⟨pairs, network, hname, hcount, hpairs, hnetwork⟩ := h
  have hlength : ([':'].intercalate pairs).length = 17 := by
    match pairs, hcount with
    | [a, b, c, d, e, f], _ =>
      have hlengths := fun p hp => (hpairs p hp).1
      simp only [List.forall_mem_cons] at hlengths
      simp [List.intercalate_cons_cons, hlengths]
  have haddress : ∀ c, c ≠ ':' → Json.hexDigit? c = none → c ∉ [':'].intercalate pairs := by
    intro c hcolon hdigit
    refine (notMem_intercalate_iff (by simpa using hcolon)).2 fun pair hpair hc => ?_
    have hsome := (hpairs pair hpair).2 c hc
    rw [hdigit] at hsome
    exact nomatch hsome
  have hafter : ∀ c, c ∉ "None".toList → c.isDigit = false → c ∉ network := by
    intro c hnone hdigit hc
    rcases hnetwork with rfl | ⟨-, hdigits⟩
    · exact hnone hc
    · rw [hdigits c hc] at hdigit
      exact nomatch hdigit
  refine ⟨[':'].intercalate pairs, network, hname, hlength, haddress _ (by decide) (by decide),
    hafter _ (by decide) (by decide), ?_⟩
  rw [hname, List.mem_append, List.mem_cons]
  rintro (hbracket | hbracket | hbracket)
  · exact haddress _ (by decide) (by decide) hbracket
  · exact absurd hbracket (by decide)
  · exact hafter _ (by decide) (by decide) hbracket

/-- Two conventional names side by side are told apart. -/
theorem eq_of_names {a b a' b' : HostId} (ha : a.IsConventional) (hb : b.IsConventional)
    (ha' : a'.IsConventional) (hb' : b'.IsConventional)
    (h : a.name.toList ++ b.name.toList = a'.name.toList ++ b'.name.toList) :
    a = a' ∧ b = b' := by
  obtain ⟨mac, net, hname, hlength, -, hnet, -⟩ := ha.shape
  obtain ⟨mac₂, net₂, hname₂, hlength₂, hmac₂, hnet₂, -⟩ := hb.shape
  obtain ⟨mac', net', hname', hlength', -, hnet', -⟩ := ha'.shape
  obtain ⟨mac₂', net₂', hname₂', hlength₂', hmac₂', hnet₂', -⟩ := hb'.shape
  rw [hname, hname₂, hname', hname₂', List.append_assoc, List.append_assoc] at h
  -- The first address takes as many characters on either side.
  obtain ⟨rfl, hrest⟩ := List.append_inj h (hlength.trans hlength'.symm)
  have hrest : (net ++ mac₂) ++ '/' :: net₂ = (net' ++ mac₂') ++ '/' :: net₂' := by
    rw [List.append_assoc, List.append_assoc]
    exact (List.cons.inj hrest).2
  -- The first slash of what is left is the second host's, and its address stands before it.
  obtain ⟨hmiddle, rfl⟩ :=
    eq_of_append_separator (by simp [hnet, hmac₂]) (by simp [hnet', hmac₂']) hrest
  obtain ⟨rfl, rfl⟩ := List.append_inj' hmiddle (hlength₂.trans hlength₂'.symm)
  cases a; cases b; cases a'; cases b'
  exact ⟨congrArg mk (String.toList_inj.1 (hname.trans hname'.symm)),
    congrArg mk (String.toList_inj.1 (hname₂.trans hname₂'.symm))⟩

/-- Two hosts in the order of their names. -/
def ordered (a b : HostId) : HostId × HostId := if a.name < b.name then (a, b) else (b, a)

theorem ordered_eq (a b : HostId) : ordered a b = (a, b) ∨ ordered a b = (b, a) := by
  unfold ordered
  split
  · exact .inl rfl
  · exact .inr rfl

theorem ordered_comm (a b : HostId) : ordered a b = ordered b a := by
  unfold ordered
  by_cases hab : a.name < b.name
  · rw [if_pos hab, if_neg (String.lt_asymm hab)]
  · rw [if_neg hab]
    split
    · rfl
    next hba =>
      have hname : a.name = b.name := String.le_antisymm (String.not_lt.1 hba) (String.not_lt.1 hab)
      cases a; cases b; cases hname; rfl

/-- Pairs in order agree just when they do without order. -/
theorem ordered_eq_iff {a b a' b' : HostId} :
    ordered a b = ordered a' b' ↔ a = a' ∧ b = b' ∨ a = b' ∧ b = a' := by
  constructor
  · intro h
    rcases ordered_eq a b with hab | hab <;> rcases ordered_eq a' b' with hab' | hab' <;>
      rw [hab, hab'] at h <;> simp_all
  · rintro (⟨rfl, rfl⟩ | ⟨rfl, rfl⟩)
    · rfl
    · exact ordered_comm a b

end HostId

/-! ## Keys -/

namespace HostIntent

variable {a b a' b' : HostId} {s s' : Selector} {app app' : ApplicationId}

theorem keyOf_eq (a b : HostId) (s : Selector) (app : ApplicationId) :
    keyOf a b s app = ⟨app, (HostId.ordered a b).1.name ++ (HostId.ordered a b).2.name ++ "[" ++
      s.keyText ++ "]"⟩ := rfl

/-- The text of a key is read back: the first host, the second and the criteria. -/
theorem eq_of_keyText {first second first' second' : HostId} (hfirst : first.IsConventional)
    (hsecond : second.IsConventional) (hfirst' : first'.IsConventional)
    (hsecond' : second'.IsConventional)
    (h : first.name ++ second.name ++ "[" ++ s.keyText ++ "]" =
      first'.name ++ second'.name ++ "[" ++ s'.keyText ++ "]") :
    first = first' ∧ second = second' ∧ s.keyText = s'.keyText := by
  have hnames : ∀ {one two : HostId}, one.IsConventional → two.IsConventional →
      '[' ∉ one.name.toList ++ two.name.toList := by
    intro one two hone htwo
    obtain ⟨-, -, -, -, -, -, hbracket⟩ := hone.shape
    obtain ⟨-, -, -, -, -, -, hbracket'⟩ := htwo.shape
    simp [hbracket, hbracket']
  have htext : (first.name.toList ++ second.name.toList) ++ '[' :: s.keyText.toList =
      (first'.name.toList ++ second'.name.toList) ++ '[' :: s'.keyText.toList := by
    have htoList := congrArg String.toList h
    simp only [String.toList_append] at htoList
    simpa using List.append_cancel_right htoList
  obtain ⟨hhosts, hcriteria⟩ :=
    eq_of_append_separator (hnames hfirst hsecond) (hnames hfirst' hsecond') htext
  obtain ⟨rfl, rfl⟩ := HostId.eq_of_names hfirst hsecond hfirst' hsecond' hhosts
  exact ⟨rfl, rfl, String.toList_inj.1 hcriteria⟩

/-- The order of two hosts does not matter to their key. Between hosts of conventional names, keys
agree just when the applications, the unordered pairs of hosts and the texts of the criteria do,
however often each text occurs. -/
theorem keyOf_tells (s s' : Selector) (app app' : ApplicationId) :
    (∀ a b, keyOf a b s app = keyOf b a s app) ∧
      ∀ a b a' b' : HostId, a.IsConventional → b.IsConventional → a'.IsConventional →
        b'.IsConventional →
        (keyOf a b s app = keyOf a' b' s' app' ↔
          app = app' ∧ (a = a' ∧ b = b' ∨ a = b' ∧ b = a') ∧
            (s.toList.map Criterion.keyText).Perm (s'.toList.map Criterion.keyText)) := by
  refine ⟨fun a b => ?_, fun a b a' b' ha hb ha' hb' => ?_⟩
  · rw [keyOf_eq, keyOf_eq, HostId.ordered_comm]
  · have hordered : ∀ {one two : HostId}, one.IsConventional → two.IsConventional →
        (HostId.ordered one two).1.IsConventional ∧ (HostId.ordered one two).2.IsConventional := by
      intro one two hone htwo
      rcases HostId.ordered_eq one two with h | h
      · rw [h]
        exact ⟨hone, htwo⟩
      · rw [h]
        exact ⟨htwo, hone⟩
    rw [keyOf_eq, keyOf_eq, IntentKey.mk.injEq, ← HostId.ordered_eq_iff, ← Selector.keyText_eq_iff]
    refine and_congr_right fun _ => ⟨fun h => ?_, ?_⟩
    · obtain ⟨hfirst, hsecond, hcriteria⟩ := eq_of_keyText (hordered ha hb).1 (hordered ha hb).2
        (hordered ha' hb').1 (hordered ha' hb').2 h
      exact ⟨Prod.ext hfirst hsecond, hcriteria⟩
    · rintro ⟨hhosts, hcriteria⟩
      rw [hhosts, hcriteria]

/-- A port of TCP at one host has the key of the same port of UDP at the other, but not between
hosts of which one is another. -/
theorem keyOf_tells_port :
    let one := HostId.conventional ⟨#v[0, 0, 0, 0, 0, 1]⟩ none
    let two := HostId.conventional ⟨#v[0, 0, 0, 0, 0, 2]⟩ (some 12)
    let three := HostId.conventional ⟨#v[0, 0, 0, 0, 0, 2]⟩ (some 1)
    let tcp := Selector.empty.add (.tcpSrc 80)
    let udp := Selector.empty.add (.udpDst 80)
    let app : ApplicationId := ⟨"routing"⟩
    keyOf one two tcp app = keyOf two one udp app ∧
      keyOf one two tcp app ≠ keyOf one three tcp app := by
  intro one two three tcp udp app
  have hone : one.IsConventional := HostId.isConventional_conventional _ _
  have htwo : two.IsConventional := HostId.isConventional_conventional _ _
  have hthree : three.IsConventional := HostId.isConventional_conventional _ _
  constructor
  · refine ((keyOf_tells tcp udp app app).2 one two two one hone htwo htwo hone).2 ?_
    exact ⟨rfl, .inr ⟨rfl, rfl⟩, List.Perm.refl _⟩
  · intro h
    obtain ⟨-, hhosts, -⟩ :=
      ((keyOf_tells tcp tcp app app).2 one two one three hone htwo hone hthree).1 h
    revert hhosts
    decide +kernel

end HostIntent

end HostRouting
