import Scim.Proofs.Json.Reader
import Scim.Proofs.Json.Written
import Scim.Schema.Document

/-!
# Schema documents are read again

A descriptor and a schema are read from their own documents and from the texts of these, as long as the
reader has as many levels as the document (`Descriptor.decoder_reads`, `Schema.decoder_reads`), and a
document that is no text has no bound on them (`Schema.ofJson_toJson`). In turn
what is read of a text never has more levels than the reader (`Descriptor.depth_of_decoder`), so that a
schema which was loaded can be written and loaded again (`Schema.load_compact`).
-/

set_option autoImplicit false

namespace Scim

open Json

/-! ## Levels -/

namespace Json

theorem depthItems_le {items : List Json} {n : Nat} :
    depthItems items ≤ n ↔ ∀ j ∈ items, j.depth ≤ n := by
  induction items with
  | nil => exact ⟨fun _ => nofun, fun _ => Nat.zero_le _⟩
  | cons j items ih => rw [depthItems, Nat.max_le, ih, List.forall_mem_cons]

theorem depthMembers_le {members : List (String × Json)} {n : Nat} :
    depthMembers members ≤ n ↔ ∀ m ∈ members, m.2.depth ≤ n := by
  induction members with
  | nil => exact ⟨fun _ => nofun, fun _ => Nat.zero_le _⟩
  | cons m members ih => rw [depthMembers, Nat.max_le, ih, List.forall_mem_cons]

theorem depth_array_le {items : List Json} {n : Nat} :
    (array items).depth ≤ n ↔ 0 < n ∧ ∀ j ∈ items, j.depth < n := by
  cases n with
  | zero => exact iff_of_false (Nat.not_succ_le_zero _) fun h => Nat.lt_irrefl 0 h.1
  | succ n =>
    rw [depth, Nat.add_le_add_iff_right, depthItems_le, and_iff_right (Nat.succ_pos n)]
    simp only [Nat.lt_succ_iff]

theorem depth_ofTexts_le {texts : List String} {n : Nat} :
    (ofTexts texts).depth ≤ n ↔ 0 < n := by
  rw [ofTexts, depth_array_le, List.forall_mem_map]
  exact and_iff_left_of_imp fun h _ _ => h

end Json

namespace Descriptor

theorem toJsonAll_eq (ds : List Descriptor) : toJsonAll ds = ds.map toJson := by
  induction ds with
  | nil => rfl
  | cons d ds ih => rw [toJsonAll, ih, List.map_cons]

theorem opens_toJson (d : Descriptor) : d.toJson.Opens := by
  cases d
  exact opens_object _

theorem depth_texts_le {texts : Option (List String)} {levels : Nat} (key : String) :
    (∀ m ∈ (texts.map fun texts => (key, ofTexts texts)).toList, m.2.depth ≤ levels) ↔
      (texts.isSome = true → 0 < levels) := by
  cases texts with
  | none => exact ⟨fun _ => nofun, fun _ => nofun⟩
  | some texts =>
    rw [Option.map_some, Option.toList_some, List.forall_mem_singleton, depth_ofTexts_le]
    exact ⟨fun h _ => h, fun h => h rfl⟩

theorem depth_subs_le {subs : List Descriptor} {levels : Nat} (key : String) :
    (∀ m ∈ if subs.isEmpty then [] else [(key, Json.array (subs.map toJson))],
      m.2.depth ≤ levels) ↔ ∀ sub ∈ subs, sub.toJson.depth < levels := by
  cases subs with
  | nil => exact ⟨fun _ => nofun, fun _ => nofun⟩
  | cons sub subs =>
    rw [List.isEmpty_cons, if_neg Bool.false_ne_true, List.forall_mem_singleton, depth_array_le,
      List.forall_mem_map]
    exact and_iff_right_of_imp fun h => Nat.zero_lt_of_lt (h sub (.head _))

/-- What the descriptor holds nests in at most the given number of levels. -/
structure Within (levels : Nat) (d : Descriptor) : Prop where
  canonicalValues : d.canonicalValues.isSome = true → 0 < levels
  referenceTypes : d.referenceTypes.isSome = true → 0 < levels
  subAttributes : ∀ sub ∈ d.subAttributes, sub.toJson.depth < levels

theorem depth_toJson_le {d : Descriptor} {levels : Nat} :
    d.toJson.depth ≤ levels + 1 ↔ d.Within levels := by
  obtain ⟨name, datatype, multiValued, required, caseExact, description, canonicalValues,
    mutability, returned, uniqueness, referenceTypes, subAttributes⟩ := d
  rw [toJson, depth, Nat.add_le_add_iff_right, depthMembers_le, toJsonAll_eq]
  simp only [List.forall_mem_append, depth_texts_le, depth_subs_le]
  constructor
  · rintro ⟨⟨⟨⟨-, hvalues⟩, -⟩, htypes⟩, hsubs⟩
    exact ⟨hvalues, htypes, hsubs⟩
  · rintro ⟨hvalues, htypes, hsubs⟩
    refine ⟨⟨⟨⟨?_, hvalues⟩, ?_⟩, htypes⟩, hsubs⟩ <;> simp [depth]

/-! ## Reading what was written -/

theorem texts_reads {levels : Nat} {texts : Option (List String)}
    (h : texts.isSome = true → 0 < levels) : ∀ ts, texts = some ts →
      (Decoder.optional (.list levels .text)).Reads (ofTexts ts) (some ts) := by
  rintro ts rfl
  exact (Decoder.list_reads (fun s _ => Decoder.text_reads s) (fun s _ => opens_string s)
    (h rfl)).optional (opens_array _)

theorem nodup_keys (levels : Nat) (subs : Decoder (List Descriptor)) :
    ((record levels subs).fields.map Field.key).Nodup := by
  show ["name", "type", "multiValued", "required", "caseExact", "description", "canonicalValues",
    "mutability", "returned", "uniqueness", "referenceTypes", "subAttributes"].Nodup
  decide

theorem lookup_mutability (m : Mutability) : Mutability.tokens.lookup m.token = some m := by
  cases m <;> decide

theorem record_written {levels : Nat} {subs : Decoder (List Descriptor)} {d : Descriptor}
    (hd : d.Within levels)
    (hsubs : d.subAttributes.isEmpty = false →
      subs.Reads (.array (toJsonAll d.subAttributes)) d.subAttributes) :
    ∃ members, d.toJson = .object members ∧
      Field.Written (record levels subs).fields (record levels subs).defaults members d := by
  obtain ⟨name, datatype, multiValued, required, caseExact, description, canonicalValues,
    mutability, returned, uniqueness, referenceTypes, subAttributes⟩ := d
  refine ⟨_, rfl, ?_⟩
  simp only [List.append_assoc, List.cons_append, List.nil_append]
  refine .value (Decoder.text_reads name) ?_
  refine .value (Decoder.token_reads levels (DataType.lookup_token datatype)) ?_
  refine .value (Decoder.boolean_reads multiValued) ?_
  refine .value (Decoder.boolean_reads required) ?_
  refine .value (Decoder.boolean_reads caseExact) ?_
  refine .value (Decoder.text_reads description) ?_
  refine .option (texts_reads hd.canonicalValues) rfl ?_
  refine .value (Decoder.token_reads levels (lookup_mutability mutability)) ?_
  refine .value (Decoder.token_reads levels (Returned.lookup_token returned)) ?_
  refine .value (Decoder.token_reads levels (Uniqueness.lookup_token uniqueness)) ?_
  refine .option (texts_reads hd.referenceTypes) rfl ?_
  refine .elided_last hsubs fun hempty => ?_
  rw [List.isEmpty_iff.1 hempty]
  rfl

mutual

/-- A descriptor is read from its own document if the levels suffice. -/
theorem decoder_reads : ∀ (levels : Nat) (d : Descriptor), d.toJson.depth ≤ levels →
    (decoder levels).Reads d.toJson d
  | 0, d, h => by
    cases d
    exact absurd h (Nat.not_succ_le_zero _)
  | levels + 1, d, h => by
    have hd : d.Within levels := depth_toJson_le.1 h
    obtain ⟨members, hmembers, hwritten⟩ := record_written hd fun hsubs =>
      listDecoder_reads levels d.subAttributes
        (by
          obtain ⟨sub, hsub⟩ := List.exists_mem_of_ne_nil _ (by simpa using hsubs)
          exact Nat.zero_lt_of_lt (hd.subAttributes sub hsub))
        hd.subAttributes
    rw [hmembers, decoder]
    exact Record.decoder_reads hwritten (nodup_keys levels _) (Nat.succ_pos levels)

theorem listDecoder_reads : ∀ (levels : Nat) (ds : List Descriptor), 0 < levels →
    (∀ d ∈ ds, d.toJson.depth < levels) →
    (listDecoder levels).Reads (.array (toJsonAll ds)) ds
  | 0, _, h, _ => absurd h (Nat.not_lt_zero _)
  | levels + 1, ds, h, hds => by
    rw [toJsonAll_eq, listDecoder]
    exact Decoder.list_reads
      (fun d hd => decoder_reads levels d (Nat.le_of_lt_succ (hds d hd)))
      (fun d _ => opens_toJson d) h

end

/-- A descriptor's document gives the descriptor back, however deep it nests. -/
theorem ofJson_toJson (d : Descriptor) : ofJson d.toJson = .ok d :=
  (decoder_reads _ d (Nat.le_refl _)).fromJson

/-! ## Levels of what is read -/

theorem within_of_texts {levels : Nat} (s : List Char) (texts : Option (List String))
    (rest : List Char)
    (h : (Decoder.optional (.list levels .text)).fromText s = .ok (texts, rest)) :
    texts.isSome = true → 0 < levels := by
  intro hsome
  obtain ⟨texts, rfl⟩ := Option.isSome_iff_exists.1 hsome
  obtain ⟨s, h⟩ := Decoder.of_optional h
  exact (Decoder.of_list (P := fun _ => True) (fun _ _ _ _ => trivial) h).1

/-- What every field of a descriptor keeps, as long as its sub-attributes do. -/
theorem record_keeps {levels : Nat} {subs : Decoder (List Descriptor)}
    (hsubs : ∀ s ds rest, subs.fromText s = .ok (ds, rest) → ∀ d ∈ ds, d.toJson.depth < levels) :
    ∀ f ∈ (record levels subs).fields, f.Keeps (Within levels) := by
  simp only [record, List.forall_mem_cons]
  refine ⟨Field.of_keeps_any ?_, Field.of_keeps_any ?_, Field.of_keeps_any ?_,
    Field.of_keeps_any ?_, Field.of_keeps_any ?_, Field.of_keeps_any ?_,
    Field.of_keeps _ _ within_of_texts fun d texts hd htexts =>
      ⟨htexts, hd.referenceTypes, hd.subAttributes⟩,
    Field.of_keeps_any ?_, Field.of_keeps_any ?_, Field.of_keeps_any ?_,
    Field.of_keeps _ _ within_of_texts fun d texts hd htexts =>
      ⟨hd.canonicalValues, htexts, hd.subAttributes⟩,
    Field.of_keeps _ _ hsubs fun d subs hd hsubs => ⟨hd.canonicalValues, hd.referenceTypes, hsubs⟩,
    nofun⟩
  all_goals exact fun d a hd => ⟨hd.canonicalValues, hd.referenceTypes, hd.subAttributes⟩

mutual

/-- What is read of a descriptor has no more levels than its reader allows. -/
theorem depth_of_decoder : ∀ (levels : Nat) (s : List Char) (d : Descriptor) (rest : List Char),
    (decoder levels).fromText s = .ok (d, rest) → d.toJson.depth ≤ levels
  | 0, s, d, rest, h => by
    rw [decoder] at h
    have hlevels := (Record.decoder_induct (P := fun _ => True) trivial
      (fun _ _ _ _ _ _ _ _ => trivial) h).1
    exact absurd hlevels (Nat.lt_irrefl 0)
  | levels + 1, s, d, rest, h => by
    rw [decoder] at h
    have hfields := record_keeps fun s ds rest h => (depth_of_listDecoder levels s ds rest h).2
    exact depth_toJson_le.2 (Record.decoder_induct ⟨nofun, nofun, nofun⟩ hfields h).2

theorem depth_of_listDecoder : ∀ (levels : Nat) (s : List Char) (ds : List Descriptor)
    (rest : List Char), (listDecoder levels).fromText s = .ok (ds, rest) →
    0 < levels ∧ ∀ d ∈ ds, d.toJson.depth < levels
  | 0, s, ds, rest, h => by
    rw [listDecoder] at h
    exact absurd (Decoder.of_list (P := fun _ => True) (fun _ _ _ _ => trivial) h).1
      (Nat.lt_irrefl 0)
  | levels + 1, s, ds, rest, h => by
    rw [listDecoder] at h
    exact Decoder.of_list
      (fun s d rest h => Nat.lt_succ_of_le (depth_of_decoder levels s d rest h)) h

end

end Descriptor

/-! ## Schemas -/

namespace Schema

theorem depth_toJson_le {s : Schema} {levels : Nat} :
    s.toJson.depth ≤ levels + 1 ↔ 0 < levels ∧ ∀ d ∈ s.attributes, d.toJson.depth < levels := by
  rw [toJson, depth, Nat.add_le_add_iff_right, depthMembers_le, Descriptor.toJsonAll_eq]
  simp only [List.forall_mem_append, List.forall_mem_singleton, depth_array_le, List.forall_mem_map]
  refine and_iff_right_of_imp fun _ => ⟨?_, ?_⟩
  · simp [depth]
  · split <;> simp [depth]

theorem nodup_keys (levels : Nat) : ((record levels).fields.map Field.key).Nodup := by
  show ["id", "name", "description", "location", "attributes"].Nodup
  decide

/-- A schema is read from its own document if the levels suffice. -/
theorem decoder_reads {levels : Nat} {s : Schema} (h : s.toJson.depth ≤ levels) :
    (decoder levels).Reads s.toJson s := by
  cases levels with
  | zero => exact absurd h (Nat.not_succ_le_zero _)
  | succ levels =>
    obtain ⟨hlevels, hattributes⟩ := depth_toJson_le.1 h
    have hlist := Descriptor.listDecoder_reads levels s.attributes hlevels hattributes
    refine Record.decoder_reads (r := record levels) ?_ (nodup_keys levels) (Nat.succ_pos levels)
    simp only [List.cons_append, List.nil_append]
    refine .value (Decoder.text_reads s.id) ?_
    refine .value (Decoder.text_reads s.name) ?_
    refine .value (Decoder.text_reads s.description) ?_
    refine .elided (fun _ => Decoder.text_reads s.location) (fun hempty => ?_) ?_
    · rw [String.isEmpty_iff.1 hempty]
      rfl
    · exact .value hlist (.nil _)

/-- A schema's document gives the schema back, however deep it nests. -/
theorem ofJson_toJson (s : Schema) : ofJson s.toJson = .ok s :=
  (decoder_reads (Nat.le_refl _)).fromJson

theorem record_keeps (levels : Nat) :
    ∀ f ∈ (record levels).fields, f.Keeps fun s => ∀ d ∈ s.attributes, d.toJson.depth < levels := by
  have hlist := fun s ds rest h => (Descriptor.depth_of_listDecoder levels s ds rest h).2
  simp only [record, List.forall_mem_cons]
  refine ⟨Field.of_keeps_any ?_, Field.of_keeps_any ?_, Field.of_keeps_any ?_,
    Field.of_keeps_any ?_, Field.of_keeps _ _ hlist fun _ _ _ hds => hds, nofun⟩
  all_goals exact fun _ _ hs => hs

/-- What is read of a text nests no deeper than a text may. -/
theorem depth_of_ofText {text : String} {s : Schema} (h : ofText text = .ok s) :
    s.toJson.depth ≤ Json.maxLevels := by
  obtain ⟨rest, h⟩ := Decoder.of_decode h
  have hattributes := (Record.decoder_induct nofun (record_keeps _) h).2
  exact depth_toJson_le.2 ⟨by decide, hattributes⟩

theorem load_eq_ok {text : String} {s : Schema} :
    load text = .ok s ↔ ofText text = .ok s ∧ s.check = .ok () := by
  unfold load
  cases ofText text with
  | error fault => simp
  | ok s' =>
    simp only [Except.ok.injEq]
    split
    · rename_i flaw hcheck
      refine iff_of_false nofun ?_
      rintro ⟨rfl, h⟩
      cases hcheck.symm.trans h
    · rename_i hcheck
      rw [Except.ok.injEq, iff_self_and]
      rintro rfl
      exact hcheck

/-- Loads a schema and writes it again. -/
def normalize (text : String) : Except Error String := do
  let s ← load text
  .ok s.toJson.compact

/-- **Schemas are read from their documents.** A schema of sound structure is loaded from its own text,
if that nests no deeper than a text may; and a text that is loaded is normalized to a text which stands
for the same schema and is normal itself. -/
theorem load_compact :
    (∀ s : Schema, s.check = .ok () → s.toJson.depth ≤ Json.maxLevels →
      load s.toJson.compact = .ok s) ∧
    ∀ text s, load text = .ok s →
      ∃ t, normalize text = .ok t ∧ load t = .ok s ∧ normalize t = .ok t := by
  have written (s : Schema) (hcheck : s.check = .ok ()) (hdepth : s.toJson.depth ≤ Json.maxLevels) :
      load s.toJson.compact = .ok s :=
    load_eq_ok.2 ⟨(decoder_reads hdepth).decode_compact, hcheck⟩
  refine ⟨written, fun text s h => ?_⟩
  obtain ⟨htext, hcheck⟩ := load_eq_ok.1 h
  have hagain : load s.toJson.compact = .ok s := written s hcheck (depth_of_ofText htext)
  refine ⟨s.toJson.compact, ?_, hagain, ?_⟩
  · rw [normalize, h]
    rfl
  · rw [normalize, hagain]
    rfl

/-- A schema with sub-attributes, lists that are declared but empty, and characters to escape. -/
def mailbox : Schema where
  id := "urn:example:Mailbox"
  name := "Mailbox \"in\\out\""
  description := "line\nfeed\x01"
  location := ""
  attributes :=
    [{ Descriptor.new "folders" .complex with
        multiValued := true
        subAttributes :=
          [{ Descriptor.new "kind" .string with canonicalValues := some [] },
            { Descriptor.new "owner" .reference with referenceTypes := some ["User"] }] }]

theorem load_compact_mailbox :
    mailbox.check = .ok () ∧ mailbox.toJson.depth ≤ Json.maxLevels ∧
      load mailbox.toJson.compact = .ok mailbox ∧
      ∃ t, normalize mailbox.toJson.compact = .ok t ∧ load t = .ok mailbox ∧
        normalize t = .ok t := by
  have hcheck : mailbox.check = .ok () := by rfl
  have hdepth : mailbox.toJson.depth ≤ Json.maxLevels := by decide
  have hload := load_compact.1 mailbox hcheck hdepth
  exact ⟨hcheck, hdepth, hload, load_compact.2 _ _ hload⟩

end Schema

end Scim
