import HostRouting.Proofs.Address.Text
import Mathlib.Data.List.Forall2

/-!
# Which texts are Ethernet addresses

The text of an address is six groups of two hexadecimal digits, in either case, between single
colons, and the octets are the values of the groups in order. The reader takes a plus sign for the
first digit of a group as well, and beyond that nothing: it divides the text at every colon, which
is undone by joining the parts (`intercalate_splitAt`), and reads each part on its own
(`group?_eq_some_iff`).

Main fact: `MacAddress.ofText_grammar`. A text is refused just when it is not of six such groups,
and the error names it. A text without plus signs is read just when it has the form of addresses.
-/

namespace HostRouting

namespace MacAddress

/-! ## Digits -/

/-- The hexadecimal digit of a value, in either case. -/
def IsHexDigit (c : Char) (value : Nat) : Prop :=
  value < 16 ∧ (c = Nat.digitChar value ∨ c = (Nat.digitChar value).toUpper)

instance (c : Char) (value : Nat) : Decidable (IsHexDigit c value) :=
  inferInstanceAs (Decidable (_ ∧ _))

theorem toNat_le_of_hexDigit? {c : Char} {value : Nat} (h : Json.hexDigit? c = some value) :
    c.toNat ≤ 'f'.toNat := by
  have hmono : ∀ {top : Char}, c ≤ top → c.toNat ≤ top.toNat := fun htop =>
    UInt32.le_iff_toNat_le.1 (Char.le_def.1 htop)
  unfold Json.hexDigit? at h
  split at h
  next hc => exact Nat.le_trans (hmono hc.2) (by decide)
  next =>
    split at h
    next hc => exact hmono hc.2
    next =>
      split at h
      next hc => exact Nat.le_trans (hmono hc.2) (by decide)
      next => exact nomatch h

theorem hexDigit?_eq_some_iff {c : Char} {value : Nat} :
    Json.hexDigit? c = some value ↔ IsHexDigit c value := by
  constructor
  · intro h
    have hall : ∀ n ≤ 'f'.toNat, ∀ v ∈ Json.hexDigit? (Char.ofNat n),
        IsHexDigit (Char.ofNat n) v := by decide
    have hc := hall c.toNat (toNat_le_of_hexDigit? h) value
    rw [Char.ofNat_toNat] at hc
    exact hc h
  · have hupper : ∀ d < 16, Json.hexDigit? (Nat.digitChar d).toUpper = some d := by decide
    rintro ⟨hvalue, rfl | rfl⟩
    · exact hexDigit?_digitChar value hvalue
    · exact hupper value hvalue

theorem IsHexDigit.ne_of_hexDigit? {c d : Char} {value : Nat} (h : IsHexDigit c value)
    (hd : Json.hexDigit? d = none) : d ≠ c := by
  rintro rfl
  rw [hexDigit?_eq_some_iff.2 h] at hd
  exact nomatch hd

/-! ## Groups -/

/-- Two hexadecimal digits, and the octet of their value. -/
def IsGroup (group : List Char) (octet : UInt8) : Prop :=
  ∃ high low h l, group = [high, low] ∧ IsHexDigit high h ∧ IsHexDigit low l ∧
    octet.toNat = 16 * h + l

/-- A plus sign and a hexadecimal digit, and the octet of its value. -/
def IsSignedDigit (group : List Char) (octet : UInt8) : Prop :=
  ∃ low l, group = ['+', low] ∧ IsHexDigit low l ∧ octet.toNat = l

variable {group : List Char} {octet : UInt8}

theorem IsGroup.notMem (h : IsGroup group octet) {d : Char} (hd : Json.hexDigit? d = none) :
    d ∉ group := by
  obtain ⟨high, low, _, _, rfl, hhigh, hlow, -⟩ := h
  rw [List.mem_pair, not_or]
  exact ⟨hhigh.ne_of_hexDigit? hd, hlow.ne_of_hexDigit? hd⟩

theorem group?_eq_some_iff :
    group? group = some octet ↔ IsGroup group octet ∨ IsSignedDigit group octet := by
  constructor
  · intro h
    unfold group? at h
    split at h
    next low =>
      obtain ⟨l, hl, rfl⟩ := Option.map_eq_some_iff.1 h
      have hlow := hexDigit?_eq_some_iff.1 hl
      exact .inr ⟨low, l, rfl, hlow, UInt8.toNat_ofNat_of_lt' (Nat.lt_trans hlow.1 (by decide))⟩
    next high low _ =>
      simp only [Option.bind_eq_bind, Option.bind_eq_some_iff, Option.some.injEq] at h
      obtain ⟨h, hh, l, hl, rfl⟩ := h
      have hhigh := hexDigit?_eq_some_iff.1 hh
      have hlow := hexDigit?_eq_some_iff.1 hl
      have hsize : h * 16 + l < 256 := by
        have := hhigh.1
        have := hlow.1
        omega
      refine .inl ⟨high, low, h, l, rfl, hhigh, hlow, ?_⟩
      rw [UInt8.toNat_ofNat_of_lt' hsize, Nat.mul_comm]
    next => exact nomatch h
  · rintro (⟨high, low, h, l, rfl, hhigh, hlow, hoctet⟩ | ⟨low, l, rfl, hlow, rfl⟩)
    · rw [group?, hexDigit?_eq_some_iff.2 hhigh, hexDigit?_eq_some_iff.2 hlow]
      · show some (UInt8.ofNat (h * 16 + l)) = some octet
        rw [Nat.mul_comm, ← hoctet, UInt8.ofNat_toNat]
      · exact (hhigh.ne_of_hexDigit? (by decide)).symm
    · rw [group?, hexDigit?_eq_some_iff.2 hlow, Option.map_some, UInt8.ofNat_toNat]

/-! ## Texts -/

/-- The text is six groups between single colons, and the octets of the address are those of the
groups in order. -/
def Spells (isGroup : List Char → UInt8 → Prop) (s : String) (mac : MacAddress) : Prop :=
  ∃ groups, s.toList = [':'].intercalate groups ∧
    List.Forall₂ isGroup groups mac.octets.toList

theorem splitAt_ne_nil (separator : Char) (cs : List Char) : splitAt separator cs ≠ [] := by
  cases cs with
  | nil => exact List.cons_ne_nil _ _
  | cons c cs =>
    rw [splitAt]
    split
    · exact List.cons_ne_nil _ _
    · split <;> exact List.cons_ne_nil _ _

/-- Joining undoes splitting. -/
theorem intercalate_splitAt (separator : Char) (cs : List Char) :
    [separator].intercalate (splitAt separator cs) = cs := by
  induction cs with
  | nil => rfl
  | cons c cs ih =>
    obtain ⟨part, parts, hparts⟩ := List.exists_cons_of_ne_nil (splitAt_ne_nil separator cs)
    rw [hparts] at ih
    rw [splitAt, hparts]
    split
    next hc => rw [List.intercalate_cons_cons, ih, hc]; rfl
    next =>
      dsimp only
      cases parts with
      | nil => rw [← ih, List.intercalate_singleton, List.intercalate_singleton]
      | cons next parts => rw [← ih, List.intercalate_cons_cons, List.intercalate_cons_cons]; rfl

theorem mapM_eq_some_iff {α β : Type} {f : α → Option β} {l : List α} {l' : List β} :
    l.mapM f = some l' ↔ List.Forall₂ (fun a b => f a = some b) l l' := by
  induction l generalizing l' with
  | nil => simp [List.forall₂_nil_left_iff, eq_comm]
  | cons a l ih =>
    simp only [List.mapM_cons, Option.bind_eq_bind, Option.bind_eq_some_iff, Option.pure_def,
      Option.some.injEq, List.forall₂_cons_left_iff, ih]
    grind

/-- What is not a digit and not a plus sign is in no group of either form. -/
theorem notMem_of_groups {groups : List (List Char)} {octets : List UInt8}
    (h : List.Forall₂ (fun g o => IsGroup g o ∨ IsSignedDigit g o) groups octets) {d : Char}
    (hd : Json.hexDigit? d = none) (hplus : d ≠ '+') : ∀ group ∈ groups, d ∉ group := by
  refine ((List.forall₂_and_left _ _).1 (h.imp fun group octet hgroup => ⟨?_, hgroup⟩)).1
  rcases hgroup with hgroup | ⟨low, l, rfl, hlow, -⟩
  · exact hgroup.notMem hd
  · rw [List.mem_pair, not_or]
    exact ⟨hplus, hlow.ne_of_hexDigit? hd⟩

theorem ofText?_eq_some_iff {s : String} {mac : MacAddress} :
    ofText? s = some mac ↔ Spells (fun g o => IsGroup g o ∨ IsSignedDigit g o) s mac := by
  unfold ofText?
  constructor
  · intro h
    split at h
    next hgroups =>
      obtain rfl := Option.some.inj h
      refine ⟨splitAt ':' s.toList, (intercalate_splitAt ':' _).symm, ?_⟩
      exact (mapM_eq_some_iff.1 hgroups).imp fun _ _ => group?_eq_some_iff.1
    next => exact nomatch h
  · rintro ⟨groups, htext, hgroups⟩
    obtain ⟨a, b, c, d, e, f, rfl⟩ := mac.exists_octets
    have hnonempty : groups ≠ [] := by
      rintro rfl
      exact nomatch hgroups
    rw [htext, splitAt_intercalate hnonempty (notMem_of_groups hgroups (by decide) (by decide)),
      mapM_eq_some_iff.2 (hgroups.imp fun _ _ => group?_eq_some_iff.2)]
    rfl

/-- Without plus signs the groups that are read are two digits each. -/
theorem spells_isGroup_iff {s : String} {mac : MacAddress} :
    Spells IsGroup s mac ↔ ofText? s = some mac ∧ '+' ∉ s.toList := by
  rw [ofText?_eq_some_iff]
  constructor
  · rintro ⟨groups, htext, hgroups⟩
    refine ⟨⟨groups, htext, hgroups.imp fun _ _ => .inl⟩, ?_⟩
    rw [htext, notMem_intercalate_iff (by decide)]
    exact ((List.forall₂_and_left _ _).1
      (hgroups.imp fun _ _ hgroup => ⟨hgroup.notMem (by decide), hgroup⟩)).1
  · rintro ⟨⟨groups, htext, hgroups⟩, hplus⟩
    rw [htext, notMem_intercalate_iff (by decide)] at hplus
    refine ⟨groups, htext, ((List.forall₂_and_left _ _).2 ⟨hplus, hgroups⟩).imp ?_⟩
    rintro group octet ⟨hplus, hgroup | ⟨low, l, rfl, -⟩⟩
    · exact hgroup
    · exact absurd List.mem_cons_self hplus

/-- The texts that are read are those of six groups between single colons in which a plus sign may
stand for the first digit; every other text is refused by an error that names it. So the texts of
the form of addresses are those that are read and have no plus sign. -/
theorem ofText_grammar (s : String) :
    (∀ mac, ofText s = .ok mac ↔
        Spells (fun g o => IsGroup g o ∨ IsSignedDigit g o) s mac) ∧
      (∀ mac, Spells IsGroup s mac ↔ ofText s = .ok mac ∧ '+' ∉ s.toList) ∧
      ∀ e, ofText s = .error e ↔
        (∀ mac, ¬Spells (fun g o => IsGroup g o ∨ IsSignedDigit g o) s mac) ∧
          e = .serialization ("invalid MAC address " ++ quoted s) := by
  have hok : ∀ mac, ofText s = .ok mac ↔ ofText? s = some mac := by
    intro mac
    unfold ofText
    cases ofText? s <;> simp
  refine ⟨fun mac => (hok mac).trans ofText?_eq_some_iff, fun mac => ?_, fun e => ?_⟩
  · rw [hok, spells_isGroup_iff]
  · simp only [← ofText?_eq_some_iff, ← Option.eq_none_iff_forall_ne_some]
    unfold ofText
    cases ofText? s <;> simp [eq_comm]

/-- A plus sign and a digit are read as a group, which is not one of two digits. -/
theorem plus_read_as_digit :
    ofText "+a:00:00:00:00:00" = .ok ⟨#v[10, 0, 0, 0, 0, 0]⟩ ∧
      ∀ mac, ¬Spells IsGroup "+a:00:00:00:00:00" mac := by
  refine ⟨by decide +kernel, fun mac h => ?_⟩
  exact (spells_isGroup_iff.1 h).2 (by decide)

end MacAddress

end HostRouting
