import HostRouting.Flow.Criterion
import HostRouting.Proofs.Binary64.RoundTrip
import Mathlib.Data.List.Basic

/-!
# Addresses read back from their texts

Main facts: `MacAddress.ofText?_text` and `Ipv4Address.ofText?_text`. Either reader takes more
texts than the writer gives; what is written has one reading.
-/

namespace HostRouting

/-- A character other than those between the parts of a joined text is in the text just when it is
in a part. -/
theorem notMem_intercalate_iff {c : Char} {between : List Char} {parts : List (List Char)}
    (hbetween : c ∉ between) :
    c ∉ between.intercalate parts ↔ ∀ part ∈ parts, c ∉ part := by
  induction parts with
  | nil => simp
  | cons part rest ih =>
    cases rest with
    | nil => simp
    | cons next rest =>
      rw [List.intercalate_cons_cons, List.mem_append, List.mem_append, not_or, not_or, ih]
      constructor
      · rintro ⟨⟨hpart, -⟩, hrest⟩
        exact List.forall_mem_cons.2 ⟨hpart, hrest⟩
      · intro h
        obtain ⟨hpart, hrest⟩ := List.forall_mem_cons.1 h
        exact ⟨⟨hpart, hbetween⟩, hrest⟩

/-- The hexadecimal digits are read back. -/
theorem hexDigit?_digitChar : ∀ d < 16, Json.hexDigit? (Nat.digitChar d) = some d := by
  decide

/-! ## Ethernet addresses -/

namespace MacAddress

theorem digitChar_ne_separators : ∀ d < 16, Nat.digitChar d ≠ '+' ∧ Nat.digitChar d ≠ ':' := by
  decide

theorem group?_digitChars {high low : Nat} (hhigh : high < 16) (hlow : low < 16) :
    group? [Nat.digitChar high, Nat.digitChar low] = some (UInt8.ofNat (high * 16 + low)) := by
  rw [group?, hexDigit?_digitChar high hhigh, hexDigit?_digitChar low hlow]
  · rfl
  · exact (digitChar_ne_separators high hhigh).1

theorem toList_groupText (octet : UInt8) :
    (groupText octet).toList =
      [Nat.digitChar (octet.toNat / 16), Nat.digitChar (octet.toNat % 16)] :=
  String.toList_ofList

theorem group?_groupText (octet : UInt8) : group? (groupText octet).toList = some octet := by
  have hsize : octet.toNat < 256 := octet.toNat_lt
  rw [toList_groupText, group?_digitChars (by omega) (by omega), Nat.div_add_mod',
    UInt8.ofNat_toNat]

theorem separator_notMem_groupText (octet : UInt8) : ':' ∉ (groupText octet).toList := by
  have hsize : octet.toNat < 256 := octet.toNat_lt
  rw [toList_groupText]
  simp only [List.mem_cons, List.not_mem_nil, or_false, not_or]
  exact ⟨(digitChar_ne_separators _ (by omega)).2.symm,
    (digitChar_ne_separators _ (by omega)).2.symm⟩

/-- A part without separators in front of a text joins the first part of the text. -/
theorem splitAt_append {separator : Char} {part : List Char} (hpart : separator ∉ part)
    (rest : List Char) :
    splitAt separator (part ++ separator :: rest) = part :: splitAt separator rest := by
  induction part with
  | nil => simp [splitAt]
  | cons c part ih =>
    rw [List.mem_cons, not_or] at hpart
    rw [List.cons_append, splitAt, if_neg (Ne.symm hpart.1), ih hpart.2]

theorem splitAt_of_notMem {separator : Char} {part : List Char} (hpart : separator ∉ part) :
    splitAt separator part = [part] := by
  induction part with
  | nil => rfl
  | cons c part ih =>
    rw [List.mem_cons, not_or] at hpart
    rw [splitAt, if_neg (Ne.symm hpart.1), ih hpart.2]

/-- Splitting undoes joining. -/
theorem splitAt_intercalate {separator : Char} {parts : List (List Char)} (hne : parts ≠ [])
    (hparts : ∀ part ∈ parts, separator ∉ part) :
    splitAt separator ([separator].intercalate parts) = parts := by
  induction parts with
  | nil => exact absurd rfl hne
  | cons part rest ih =>
    have hpart := hparts part List.mem_cons_self
    cases rest with
    | nil => simpa using splitAt_of_notMem hpart
    | cons next rest =>
      rw [List.intercalate_cons_cons, List.append_assoc, List.singleton_append,
        splitAt_append hpart, ih (List.cons_ne_nil _ _)
          fun p hp => hparts p (List.mem_cons_of_mem _ hp)]

theorem mapM_group?_groupTexts (octets : List UInt8) :
    (octets.map fun o => (groupText o).toList).mapM group? = some octets := by
  induction octets with
  | nil => rfl
  | cons o octets ih =>
    rw [List.map_cons, List.mapM_cons, group?_groupText, ih]
    rfl

theorem exists_octets (mac : MacAddress) : ∃ a b c d e f, mac = ⟨#v[a, b, c, d, e, f]⟩ := by
  obtain ⟨⟨⟨octets⟩, hsize⟩⟩ := mac
  match octets, hsize with
  | [a, b, c, d, e, f], _ => exact ⟨a, b, c, d, e, f, rfl⟩

/-- An address is read back from its text. -/
theorem ofText?_text (mac : MacAddress) : ofText? mac.text = some mac := by
  obtain ⟨a, b, c, d, e, f, rfl⟩ := mac.exists_octets
  have htext : (text ⟨#v[a, b, c, d, e, f]⟩).toList =
      [':'].intercalate ([a, b, c, d, e, f].map fun o => (groupText o).toList) :=
    String.toList_intercalate
  unfold ofText?
  rw [htext, splitAt_intercalate (by simp)
    (List.forall_mem_map.2 fun o _ => separator_notMem_groupText o), mapM_group?_groupTexts]

end MacAddress

/-! ## Version 4 addresses -/

/-- A number other than zero is written without leading zeros. -/
theorem head?_toDigits_ne_zero (n : Nat) (hn : 0 < n) :
    (Nat.toDigits 10 n).head? ≠ some '0' := by
  induction n using Nat.strongRecOn with
  | _ n ih =>
    rw [Nat.toDigits_eq_if (by decide)]
    split
    · rename_i hlt
      have hdigit : ∀ d < 10, 0 < d → [Nat.digitChar d].head? ≠ some '0' := by decide
      exact hdigit n hlt hn
    · rw [List.head?_append_of_ne_nil _ Nat.toDigits_ne_nil]
      exact ih (n / 10) (by omega) (by omega)

namespace Ipv4Address

/-- A run of decimal digits that is within the limit is taken as a whole. -/
theorem takeRadix_append {digits : List Char} (hd : ∀ c ∈ digits, c.isDigit = true)
    {rest : List Char} (hr : ∀ c ∈ rest.head?, Json.hexDigit? c = none) {limit : Nat}
    (hlimit : digits.length < limit) (value count : Nat) :
    takeRadix 10 limit value count (digits ++ rest) =
      (Nat.ofDigitChars 10 digits value, count + digits.length, rest) := by
  induction digits generalizing limit value count with
  | nil =>
    obtain ⟨limit, rfl⟩ := Nat.exists_eq_succ_of_ne_zero (Nat.ne_zero_of_lt hlimit)
    cases rest with
    | nil => rfl
    | cons c rest =>
      rw [List.nil_append, takeRadix, hr c rfl]
      rfl
  | cons c digits ih =>
    obtain ⟨limit, rfl⟩ := Nat.exists_eq_succ_of_ne_zero (Nat.ne_zero_of_lt hlimit)
    have hc := Char.isDigit_iff_toNat.1 (hd c List.mem_cons_self)
    have hdigit : Json.hexDigit? c = some (c.toNat - '0'.toNat) := by
      unfold Json.hexDigit?
      exact if_pos ⟨Char.le_def.2 (UInt32.le_iff_toNat_le.2 hc.1),
        Char.le_def.2 (UInt32.le_iff_toNat_le.2 hc.2)⟩
    have hsmall : c.toNat - '0'.toNat < 10 := by
      have : '0'.toNat = 48 := rfl
      have : '9'.toNat = 57 := rfl
      omega
    rw [List.cons_append, takeRadix, hdigit]
    dsimp only
    rw [if_pos hsmall, ih (fun c hc => hd c (List.mem_cons_of_mem _ hc))
      (Nat.lt_of_succ_lt_succ hlimit), Nat.ofDigitChars_cons, Nat.mul_comm value,
      List.length_cons, Nat.add_right_comm, Nat.add_assoc]

theorem octet?_append (octet : UInt8) {rest : List Char}
    (hr : ∀ c ∈ rest.head?, Json.hexDigit? c = none) :
    octet? ((toString octet.toNat).toList ++ rest) = some (octet, rest) := by
  have hsize : octet.toNat < 256 := octet.toNat_lt
  have hlen : (Nat.toDigits 10 octet.toNat).length ≤ 3 :=
    (Nat.length_toDigits_le_iff (by decide) (by decide)).2 (by omega)
  have hpos : 0 < (Nat.toDigits 10 octet.toNat).length := Nat.length_toDigits_pos
  have hnumber : radixNumber? 10 3 256 (Nat.toDigits 10 octet.toNat ++ rest) =
      some (octet.toNat, (Nat.toDigits 10 octet.toNat).length, rest) := by
    unfold radixNumber?
    rw [takeRadix_append (fun c hc => Nat.isDigit_of_mem_toDigits (by decide) (by decide) hc) hr
      (by omega)]
    dsimp only
    rw [Nat.ofDigitChars_ten_toDigits, Nat.zero_add, if_pos ⟨hpos, hlen, hsize⟩]
  have hlead : ¬((Nat.toDigits 10 octet.toNat ++ rest).head? = some '0' ∧
      (Nat.toDigits 10 octet.toNat).length ≠ 1) := by
    rw [List.head?_append_of_ne_nil _ Nat.toDigits_ne_nil]
    rintro ⟨hhead, hone⟩
    rcases Nat.eq_zero_or_pos octet.toNat with hzero | hpos
    · rw [hzero] at hone
      exact hone rfl
    · exact head?_toDigits_ne_zero _ hpos hhead
  unfold octet?
  rw [Nat.toString_eq_ofList_toDigits, String.toList_ofList, hnumber, Option.bind_eq_bind,
    Option.bind_some]
  dsimp only
  rw [if_neg hlead, UInt8.ofNat_toNat]

/-- An address is read back from its text. -/
theorem ofText?_text (a : Ipv4Address) : ofText? a.text = some a := by
  obtain ⟨⟨⟨octets⟩, hsize⟩⟩ := a
  obtain ⟨a, b, c, d, rfl⟩ : ∃ a b c d, octets = [a, b, c, d] := by
    match octets, hsize with
    | [a, b, c, d], _ => exact ⟨a, b, c, d, rfl⟩
  have hdot (rest : List Char) : ∀ c ∈ ('.' :: rest).head?, Json.hexDigit? c = none := by
    rintro c ⟨⟩
    decide
  have hend : octet? ((toString d.toNat).toList ++ []) = some (d, []) :=
    octet?_append d (by simp)
  rw [List.append_nil] at hend
  have htext : (text ⟨⟨⟨[a, b, c, d]⟩, hsize⟩⟩).toList =
      (toString a.toNat).toList ++ '.' :: ((toString b.toNat).toList ++ '.' ::
        ((toString c.toNat).toList ++ '.' :: (toString d.toNat).toList)) := by
    unfold text
    rw [String.toList_intercalate]
    simp [List.intercalate_cons_cons]
  unfold ofText? start?
  simp only [htext, octet?_append _ (hdot _), hend, expect?, Option.bind_eq_bind,
    Option.bind_some, if_true]

end Ipv4Address

end HostRouting
