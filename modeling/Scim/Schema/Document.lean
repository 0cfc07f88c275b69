import Scim.Json.Record
import Scim.Json.Text
import Scim.Schema.Basic

/-! # Schema documents

Descriptors and schemas as JSON: written with their members in the order of declaration, read from
text or from a document. Reading restores what writing leaves out: `canonicalValues` and
`referenceTypes` when they are not declared, `subAttributes` and `location` when they are empty.
-/

set_option autoImplicit false

namespace Scim

def Json.ofTexts (texts : List String) : Json :=
  .array (texts.map .string)

/-! ## Writing -/

namespace Descriptor

mutual

def toJson : Descriptor → Json
  | ⟨name, datatype, multiValued, required, caseExact, description, canonicalValues, mutability,
      returned, uniqueness, referenceTypes, subAttributes⟩ =>
    .object <|
      [("name", .string name), ("type", .string datatype.token), ("multiValued", .bool multiValued),
        ("required", .bool required), ("caseExact", .bool caseExact),
        ("description", .string description)] ++
      (canonicalValues.map fun texts => ("canonicalValues", Json.ofTexts texts)).toList ++
      [("mutability", .string mutability.token), ("returned", .string returned.token),
        ("uniqueness", .string uniqueness.token)] ++
      (referenceTypes.map fun texts => ("referenceTypes", Json.ofTexts texts)).toList ++
      (if subAttributes.isEmpty then [] else [("subAttributes", .array (toJsonAll subAttributes))])

def toJsonAll : List Descriptor → List Json
  | [] => []
  | d :: rest => toJson d :: toJsonAll rest

end

end Descriptor

def Schema.toJson (s : Schema) : Json :=
  .object <|
    [("id", .string s.id), ("name", .string s.name), ("description", .string s.description)] ++
    (if s.location.isEmpty then [] else [("location", .string s.location)]) ++
    [("attributes", .array (Descriptor.toJsonAll s.attributes))]

/-! ## Reading -/

namespace Descriptor

/-- The fields of a descriptor whose values may have the given number of levels. -/
def record (levels : Nat) (subAttributes : Decoder (List Descriptor)) : Record Descriptor where
  title := "struct AttributeType"
  fields :=
    [.of "name" true .text fun d name => { d with name },
      .of "type" false (.token levels DataType.tokens) fun d datatype => { d with datatype },
      .of "multiValued" false .boolean fun d multiValued => { d with multiValued },
      .of "required" false .boolean fun d required => { d with required },
      .of "caseExact" false .boolean fun d caseExact => { d with caseExact },
      .of "description" false .text fun d description => { d with description },
      .of "canonicalValues" false (.optional (.list levels .text)) fun d canonicalValues =>
        { d with canonicalValues },
      .of "mutability" false (.token levels Mutability.tokens) fun d mutability =>
        { d with mutability },
      .of "returned" false (.token levels Returned.tokens) fun d returned => { d with returned },
      .of "uniqueness" false (.token levels Uniqueness.tokens) fun d uniqueness =>
        { d with uniqueness },
      .of "referenceTypes" false (.optional (.list levels .text)) fun d referenceTypes =>
        { d with referenceTypes },
      .of "subAttributes" false subAttributes fun d subAttributes => { d with subAttributes }]
  defaults := new "" default

mutual

/-- A descriptor with at most the given number of levels. -/
def decoder : Nat → Decoder Descriptor
  | 0 => (record 0 ⟨fun _ => .error .malformed, fun _ => .error .malformed⟩).decoder 0
  | levels + 1 => (record levels (listDecoder levels)).decoder (levels + 1)

/-- A list of descriptors; the list itself is a level. -/
def listDecoder : Nat → Decoder (List Descriptor)
  | 0 => .list 0 ⟨fun _ => .error .malformed, fun _ => .error .malformed⟩
  | levels + 1 => .list (levels + 1) (decoder levels)

end

def ofText (text : String) : Except Json.Fault Descriptor :=
  (decoder Json.maxLevels).decode text

/-- A document has as many levels as it needs. -/
def ofJson (j : Json) : Except Json.Fault Descriptor :=
  (decoder j.depth).fromJson j

end Descriptor

namespace Schema

def record (levels : Nat) : Record Schema where
  title := "struct Schema"
  fields :=
    [.of "id" true .text fun s id => { s with id },
      .of "name" true .text fun s name => { s with name },
      .of "description" false .text fun s description => { s with description },
      .of "location" false .text fun s location => { s with location },
      .of "attributes" false (Descriptor.listDecoder levels) fun s attributes =>
        { s with attributes }]
  defaults := new "" "" ""

def decoder (levels : Nat) : Decoder Schema :=
  (record (levels - 1)).decoder levels

def ofText (text : String) : Except Json.Fault Schema :=
  (decoder Json.maxLevels).decode text

def ofJson (j : Json) : Except Json.Fault Schema :=
  (decoder j.depth).fromJson j

/-- Reads a schema and checks its structure. -/
def load (text : String) : Except Error Schema :=
  match ofText text with
  | .error fault => .error (.json fault)
  | .ok s =>
    match s.check with
    | .error flaw => .error flaw.toError
    | .ok () => .ok s

end Schema

/-- The mode of a document. -/
def Mode.ofText (text : String) : Except Json.Fault Mode :=
  (Decoder.token Json.maxLevels Mode.tokens).decode text

end Scim
