import Scim.Json.Record
import Scim.Json.Text
import Scim.Schema.Document
import Scim.Time.Grammar

/-! # Metadata of resources

The `meta` attribute (RFC 7643, section 3.1): resource type, location, times and version. It is
written as a map, or as a record with its members in the order of declaration.
-/

set_option autoImplicit false

namespace Scim

structure Meta where
  resourceType : String
  location : String
  created : Option Time.Instant
  lastModified : Option Time.Instant
  version : Option String
deriving DecidableEq

namespace Meta

def new (resourceType location : String) : Meta :=
  ⟨resourceType, location, none, none, none⟩

/-- Both times become that of the creation. -/
def markCreated (m : Meta) (now : Time.Instant) : Meta :=
  { m with created := some now, lastModified := some now }

def touch (m : Meta) (now : Time.Instant) : Meta :=
  { m with lastModified := some now }

/-! ## Documents -/

def timeJson (t : Time.Instant) : Json :=
  .string (String.ofList (Time.DateTime.utc t).text)

/-- A record with its members in the order of declaration; what is not set is left out. -/
def toRecord (m : Meta) : Json :=
  .object <|
    [("resourceType", .string m.resourceType), ("location", .string m.location)] ++
    (m.created.map fun t => ("created", timeJson t)).toList ++
    (m.lastModified.map fun t => ("lastModified", timeJson t)).toList ++
    (m.version.map fun v => ("version", Json.string v)).toList

/-- A map: the same members in ascending order. -/
def toJson (m : Meta) : Json :=
  .object <|
    (m.created.map fun t => ("created", timeJson t)).toList ++
    (m.lastModified.map fun t => ("lastModified", timeJson t)).toList ++
    [("location", .string m.location), ("resourceType", .string m.resourceType)] ++
    (m.version.map fun v => ("version", Json.string v)).toList

def timeDecoder : Decoder Time.Instant :=
  (Decoder.string "an RFC 3339 formatted date and time string").andThen fun text =>
    match Time.Instant.ofText text with
    | .ok t => .ok t
    | .error fault => .error (.badTime fault)

def record : Record Meta where
  title := "struct Meta"
  fields :=
    [.of "resourceType" true .text fun m resourceType => { m with resourceType },
      .of "location" true .text fun m location => { m with location },
      .of "created" false (.optional timeDecoder) fun m created => { m with created },
      .of "lastModified" false (.optional timeDecoder) fun m lastModified =>
        { m with lastModified },
      .of "version" false (.optional .text) fun m version => { m with version }]
  defaults := new "" ""

def ofText (text : String) : Except Json.Fault Meta :=
  (record.decoder Json.maxLevels).decode text

def ofJson (j : Json) : Except Json.Fault Meta :=
  (record.decoder Json.maxLevels).fromJson j

end Meta

end Scim
