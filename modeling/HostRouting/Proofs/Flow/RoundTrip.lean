import HostRouting.Flow.Selector
import HostRouting.Flow.Treatment
import HostRouting.Proofs.Address.Text
import HostRouting.Proofs.Contribution.Annotations
import HostRouting.Proofs.Json.Codec
import HostRouting.Proofs.SortedMap

/-!
# Selectors and treatments read back

A selector is the one that is made from its own list of criteria (`Selector.ofList_toList`), so it
is read back although reading puts any list of criteria in order. Criteria and instructions are
read back one constructor at a time.
-/

namespace HostRouting

open Json

/-! ## Addresses -/

theorem MacAddress.readsBack (mac : MacAddress) : ReadsBack mac := by
  show (MacAddress.ofText mac.text).mapError _ = .ok mac
  unfold MacAddress.ofText
  rw [MacAddress.ofText?_text]
  rfl

theorem Ipv4Address.readsBack (a : Ipv4Address) : ReadsBack a := by
  refine Except.bind_eq_ok_iff.2 ⟨a.text, rfl, ?_⟩
  rw [Ipv4Address.ofText?_text]

theorem Ipv4Prefix.readsBack (p : Ipv4Prefix) : ReadsBack p := by
  have hnodup : ["address", "prefix_len"].Nodup := by decide
  refine Fields.decode_object hnodup (Fields.read_seq (Fields.read_map ?_) ?_)
  · exact Fields.read_present List.mem_cons_self hnodup p.address.readsBack
  · exact Fields.read_present (List.mem_cons_of_mem _ List.mem_cons_self) hnodup
      (readsBack_uint8 p.length)

/-! ## Criteria -/

theorem CriterionType.lookup_label (t : CriterionType) : labels.lookup t.label = some t := by
  cases t <;> rfl

namespace Criterion

theorem decodeValue_encodeValue (c : Criterion) : decodeValue c.type c.encodeValue = .ok c := by
  cases c with
  | inPort port => exact (readsBack_uint64 port).map inPort
  | ethSrc mac => exact mac.readsBack.map ethSrc
  | ethDst mac => exact mac.readsBack.map ethDst
  | ethType value => exact (readsBack_uint16 value).map ethType
  | vlanVid value => exact (readsBack_uint16 value).map vlanVid
  | ipProto protocol => exact (readsBack_uint8 protocol).map ipProto
  | ipv4Src block => exact block.readsBack.map ipv4Src
  | ipv4Dst block => exact block.readsBack.map ipv4Dst
  | tcpSrc port => exact (readsBack_uint16 port).map tcpSrc
  | tcpDst port => exact (readsBack_uint16 port).map tcpDst
  | udpSrc port => exact (readsBack_uint16 port).map udpSrc
  | udpDst port => exact (readsBack_uint16 port).map udpDst
  | sctpSrc port => exact (readsBack_uint16 port).map sctpSrc
  | sctpDst port => exact (readsBack_uint16 port).map sctpDst

theorem readsBack (c : Criterion) : ReadsBack c :=
  (decodeTagged_value c.encodeValue c.type.lookup_label).trans c.decodeValue_encodeValue

end Criterion

/-! ## Selectors -/

namespace Selector

theorem byKey_foldl_add (criteria : List Criterion) (s : Selector) :
    (criteria.foldl add s).criteria.byKey =
      (criteria.map fun c => (c.type, c)).foldl (fun m e => m.insert e.1 e.2) s.criteria.byKey := by
  induction criteria generalizing s with
  | nil => rfl
  | cons c criteria ih => exact ih (s.add c)

/-- A selector is made again from the criteria it lists. -/
theorem ofList_toList (s : Selector) : ofList s.toList = s := by
  have hentries : (ofList s.toList).criteria.byKey.entries = s.criteria.byKey.entries := by
    unfold ofList toList
    rw [byKey_foldl_add, ← Catalog.entries_eq_map_toList]
    exact SortedMap.entries_ofList s.criteria.byKey.increasing
  have htoList : (ofList s.toList).criteria = s.criteria :=
    Catalog.ext_toList (congrArg (List.map Prod.snd) hentries)
  exact congrArg Selector.mk htoList

theorem readsBack (s : Selector) : ReadsBack s := by
  show (decode (encode s.toList)).map ofList = .ok s
  rw [readsBack_list fun c _ => c.readsBack]
  exact congrArg _ s.ofList_toList

end Selector

/-! ## Treatments -/

theorem Instruction.readsBack (i : Instruction) : ReadsBack i := by
  cases i with
  | output port =>
    exact (decodeTagged_value (t := Tag.output) _ rfl).trans ((readsBack_uint64 port).map output)
  | setEthSrc mac =>
    exact (decodeTagged_value (t := Tag.setEthSrc) _ rfl).trans (mac.readsBack.map setEthSrc)
  | setEthDst mac =>
    exact (decodeTagged_value (t := Tag.setEthDst) _ rfl).trans (mac.readsBack.map setEthDst)
  | setVlan value =>
    exact (decodeTagged_value (t := Tag.setVlan) _ rfl).trans ((readsBack_uint16 value).map setVlan)
  | drop => exact decodeTagged_alone (t := Tag.drop) rfl

theorem Treatment.readsBack (t : Treatment) : ReadsBack t := by
  show (decode (encode t.instructions)).map Treatment.mk = .ok t
  rw [readsBack_list fun i _ => i.readsBack]
  rfl

end HostRouting
