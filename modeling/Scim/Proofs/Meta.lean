import Scim.Meta
import Scim.Proofs.Conversion
import Scim.Proofs.Json.Written
import Scim.Proofs.Table
import Scim.Proofs.Time.Instant

/-!
# The two encodings of metadata

Metadata are written as a map or as a record. The record as a value is the map
(`Meta.sorted_toRecord`), and both are read as the metadata that they were written for, from the document
and from its text (`Meta.encodings_agree`).
-/

set_option autoImplicit false

namespace Scim

open Json

/-! ## Documents as values -/

namespace Json

mutual

/-- A document as a value: the members of every object are a map. -/
def sorted : Json → Json
  | .array items => .array (sortedItems items)
  | .object members => .map (sortedMembers members)
  | j => j

def sortedItems : List Json → List Json
  | [] => []
  | j :: rest => sorted j :: sortedItems rest

def sortedMembers : List (String × Json) → List (String × Json)
  | [] => []
  | (k, j) :: rest => (k, sorted j) :: sortedMembers rest

end

theorem sortedMembers_eq (members : List (String × Json)) :
    sortedMembers members = members.map fun m => (m.1, m.2.sorted) := by
  induction members with
  | nil => rfl
  | cons m members ih => rw [sortedMembers, ih]; rfl

end Json

namespace Meta

/-! ## The record as a map -/

theorem keys_option {α : Type} (o : Option α) (key : String) (write : α → Json) :
    ((o.map fun a => (key, write a)).toList.map Prod.fst).Sublist [key] := by
  cases o with
  | none => exact List.nil_sublist _
  | some a => exact .refl _

/-- As a value the record is the map. -/
theorem sorted_toRecord (m : Meta) : m.toRecord.sorted = m.toJson := by
  have hkeys : ["created", "lastModified", "location", "resourceType", "version"].Pairwise (· < ·) := by
    decide
  rw [toRecord, Json.sorted, Json.map, toJson, Json.sortedMembers_eq, map_entries_eq_self_iff.2]
  · congr 1
    refine Entries.ofList_eq_of_perm ?_ (List.pairwise_map.1 (hkeys.sublist ?_))
    · refine List.Perm.append_right _ ?_
      rw [List.append_assoc]
      exact List.perm_append_comm.trans (.append_left _ (.swap _ _ _))
    · simp only [List.map_append]
      exact (((keys_option _ _ _).append (keys_option _ _ _)).append (.refl _)).append
        (keys_option _ _ _)
  · intro e he
    simp only [List.mem_append, List.mem_cons, List.not_mem_nil, or_false, Option.mem_toList,
      Option.map_eq_some_iff] at he
    rcases he with (((rfl | rfl) | ⟨t, -, rfl⟩) | ⟨t, -, rfl⟩) | ⟨v, -, rfl⟩ <;> rfl

/-! ## Reading -/

theorem timeDecoder_reads (t : Time.Instant) : timeDecoder.Reads (timeJson t) t :=
  (Decoder.string_reads _ _).andThen (by rw [Time.Instant.ofText_text])

theorem optional_time_reads (t : Time.Instant) :
    (Decoder.optional timeDecoder).Reads (timeJson t) (some t) :=
  (timeDecoder_reads t).optional (opens_string _)

theorem optional_text_reads (s : String) : (Decoder.optional .text).Reads (.string s) (some s) :=
  (Decoder.text_reads s).optional (opens_string _)

theorem nodup_keys : (record.fields.map Field.key).Nodup := by
  show ["resourceType", "location", "created", "lastModified", "version"].Nodup
  decide

/-- The fields in ascending order of their names. -/
def byName : List (Field Meta) :=
  [record.fields[2], record.fields[3], record.fields[1], record.fields[0], record.fields[4]]

theorem byName_perm : byName.Perm record.fields := by
  have hswap : [record.fields[1], record.fields[0]].Perm [record.fields[0], record.fields[1]] :=
    .swap _ _ _
  have hfront : ([record.fields[2], record.fields[3]] ++ [record.fields[1], record.fields[0]]).Perm
      ([record.fields[0], record.fields[1]] ++ [record.fields[2], record.fields[3]]) :=
    List.perm_append_comm.trans (hswap.append_right _)
  exact hfront.append_right [record.fields[4]]

theorem toRecord_reads (m : Meta) : (record.decoder maxLevels).Reads m.toRecord m := by
  refine Record.decoder_reads ?_ nodup_keys (by decide)
  simp only [List.cons_append, List.nil_append, List.append_assoc]
  refine .value (Decoder.text_reads m.resourceType) ?_
  refine .value (Decoder.text_reads m.location) ?_
  refine .option (fun t _ => optional_time_reads t) rfl ?_
  refine .option (fun t _ => optional_time_reads t) rfl ?_
  rw [← List.append_nil (Option.map _ _).toList]
  exact .option (fun s _ => optional_text_reads s) rfl (.nil _)

theorem toJson_reads (m : Meta) : (record.decoder maxLevels).Reads m.toJson m := by
  refine Record.decoder_reads_perm ?_ byName_perm nodup_keys (by decide)
  simp only [List.cons_append, List.nil_append, List.append_assoc, byName, record,
    List.getElem_cons_succ, List.getElem_cons_zero]
  refine .option (fun t _ => optional_time_reads t) rfl ?_
  refine .option (fun t _ => optional_time_reads t) rfl ?_
  refine .value (Decoder.text_reads m.location) ?_
  refine .value (Decoder.text_reads m.resourceType) ?_
  rw [← List.append_nil (Option.map _ _).toList]
  exact .option (fun s _ => optional_text_reads s) rfl (.nil _)

/-! ## Main result -/

/-- **The two encodings agree and decode**, as documents and as texts. -/
theorem encodings_agree (m : Meta) :
    m.toRecord.sorted = m.toJson ∧
      (ofJson m.toRecord = .ok m ∧ ofText m.toRecord.compact = .ok m) ∧
      ofJson m.toJson = .ok m ∧ ofText m.toJson.compact = .ok m := by
  have decodes {j : Json} (h : (record.decoder maxLevels).Reads j m) :
      ofJson j = .ok m ∧ ofText j.compact = .ok m :=
    ⟨h.fromJson, h.decode_compact⟩
  exact ⟨m.sorted_toRecord, decodes m.toRecord_reads, decodes m.toJson_reads⟩

end Meta

end Scim
