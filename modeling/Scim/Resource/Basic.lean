import Scim.Attribute.Assign
import Scim.Attribute.Render
import Scim.Meta
import Scim.Resource.Accessor
import Scim.Version

/-! # Resources

A resource binds the attributes that its schemas declare and has an identifier, an external one and
metadata besides. It is filled attribute by attribute or from a document, validated, and rendered for
its mode.
-/

set_option autoImplicit false

namespace Scim

structure Resource where
  id : Option String
  externalId : Option String
  metadata : Meta
  schemas : List Schema
  /-- The top-level attributes in the order in which they are bound. -/
  attributes : List Attribute
  accessors : Table Accessor
  mode : Mode
  /-- The report of the latest validation. -/
  report : Report

namespace Resource

/-- The first schema gives the resource type. -/
def bind (schemas : List Schema) (location : String) : Except Error Resource :=
  match schemas with
  | [] => .error .missingSchemas
  | first :: _ =>
    let descriptors := Descriptor.firsts (schemas.flatMap Schema.attributes)
    .ok {
      id := none
      externalId := none
      metadata := .new first.name location
      schemas
      attributes := descriptors.map Attribute.bind
      accessors := Accessor.table descriptors
      mode := default
      report := .empty }

/-! ## Attributes -/

def accessor? (r : Resource) (name : String) : Option Accessor :=
  r.accessors.get? (Text.lower name)

def attribute? (r : Resource) (name : String) : Option Attribute :=
  match r.accessor? name with
  | some accessor =>
    match r.attributes[accessor.position]? with
    | some a =>
      match accessor.child with
      | some child => a.child? child
      | none => some a
    | none => none
  | none => none

def get (r : Resource) (name : String) : Except Error Value :=
  match r.attribute? name with
  | some a => .ok a.value
  | none => .error (.unknownAttribute name)

/-- Works on the attribute that a name stands for. -/
def visit {α : Type} (f : Attribute → α × Attribute) (name : String) (r : Resource) :
    Option α × Resource :=
  match r.accessor? name with
  | some accessor =>
    match r.attributes[accessor.position]? with
    | some a =>
      let (result, a) := a.visit f accessor.path
      (result, { r with attributes := r.attributes.set accessor.position a })
    | none => (none, r)
  | none => (none, r)

/-- Assigns a value to the attribute that a name stands for, if there is one. -/
def assign (name : String) (v : Value) (r : Resource) : Option Unit × Resource :=
  r.visit (fun a => ((), a.assign v)) name

def set (r : Resource) (name : String) (v : Value) : Except Error Resource :=
  match r.assign name v with
  | (some (), r) => .ok r
  | (none, _) => .error (.unknownAttribute name)

/-! ## Documents -/

/-- An identifier in a document; what is no text stands for its JSON text. -/
def identifier? : Json → Option String
  | .null => none
  | .string s => some s
  | j => some j.compact

/-- Members that no schema declares are skipped, and so are the schemas and the metadata. -/
def assignMember (r : Resource) (member : String × Json) : Resource :=
  if member.1 = "id" then { r with id := identifier? member.2 }
  else if member.1 = "externalId" then { r with externalId := identifier? member.2 }
  else if member.1 = "schemas" || member.1 = "meta" then r
  else (r.assign member.1 (.ofJson member.2)).2

/-- Fills the resource from a document, in the order of its members. -/
def assignJson (r : Resource) : Json → Except Error Resource
  | .object members => .ok (members.foldl assignMember r)
  | _ => .error (.invalidDocument "resource document must be a JSON object")

/-- What is shown in a mode, without the metadata. A member of an attribute replaces one of the
resource that has its name. -/
def content (mode : Mode) (r : Resource) : List (String × Json) :=
  Entries.ofList <|
    [("schemas", Json.array (r.schemas.map fun s => .string s.id))] ++
    (r.id.map fun id => ("id", Json.string id)).toList ++
    (r.externalId.map fun id => ("externalId", Json.string id)).toList ++
    Attribute.members mode r.attributes

def toJson (r : Resource) : Json :=
  .object (Entries.insert "meta" r.metadata.toJson (r.content r.mode))

/-- The version of what a server shows, which is kept in the metadata. -/
def computeVersion (r : Resource) : String × Resource :=
  let version := versionOf (utf8 (Json.object (r.content .server)).compact)
  (version, { r with metadata := { r.metadata with version := some version } })

/-! ## Validation -/

/-- The problems of the identifier, then those of the attributes in order. -/
def check (r : Resource) : Report :=
  let own := if r.id.all Text.isBlank then Report.empty.add "id" .required else .empty
  r.attributes.foldl (fun report a => report.merge a.check) own

/-- Keeps the problems that are found, in the attributes too. -/
def validate (r : Resource) : Resource :=
  { r with attributes := r.attributes.map Attribute.validate, report := r.check }

def isValid (r : Resource) : Bool :=
  r.check.isEmpty

end Resource

end Scim
