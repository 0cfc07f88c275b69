import Scim.Proofs.Attribute.Secrecy
import Scim.Resource.Basic

/-!
# What a server hides

Two resources are alike in a mode (`Resource.Alike`) if they differ only below descriptors that the
mode hides, and in what no output shows: reports, modes, and keys that are not declared. What a server
shows of resources that are alike to it is the same, and so is the version
(`Resource.Alike.shows_same`), as it is for their attributes (`Attribute.AllAlike.members_eq`).
-/

set_option autoImplicit false

namespace Scim

namespace Resource

/-- Resources of the same schemas that differ in nothing but what a mode hides. -/
structure Alike (mode : Mode) (r r' : Resource) : Prop where
  schemas : r.schemas = r'.schemas
  id : r.id = r'.id
  externalId : r.externalId = r'.externalId
  attributes : Attribute.AllAlike mode r.attributes r'.attributes

theorem Alike.content_eq {r r' : Resource} (h : r.Alike .server r') :
    r.content .server = r'.content .server := by
  rw [content, content, h.schemas, h.id, h.externalId, h.attributes.members_eq]

/-- **What a server shows, and the version of it, do not depend on what it hides.** -/
theorem Alike.shows_same {r r' : Resource} (h : r.Alike .server r') :
    r.computeVersion.1 = r'.computeVersion.1 ∧
      (r.metadata = r'.metadata → r.mode = .server → r'.mode = .server → r.toJson = r'.toJson) := by
  constructor
  · rw [computeVersion, computeVersion, h.content_eq]
  · intro hmetadata hmode hmode'
    rw [toJson, toJson, hmode, hmode', hmetadata, h.content_eq]

/-- A schema of people who have a password and, with each address, a token that is never returned. -/
def people : Schema :=
  { Schema.new "urn:person" "Person" "/Schemas/Person" with
    attributes := [.new "userName" .string,
      { Descriptor.new "password" .string with mutability := .writeOnly },
      { ((Descriptor.new "addresses" .complex).addSub (.new "city" .string)).addSub
          { Descriptor.new "token" .string with returned := .never } with multiValued := true }] }

/-- A person with given secrets, and with an address that has a key of no sub-attribute. -/
def person (password token : Value) (key : String) : Resource where
  id := some "1"
  externalId := none
  metadata := .new "Person" "/People/1"
  schemas := [people]
  attributes := List.zipWith (fun d v => (Attribute.bind d).assign v) people.attributes
    [.text "ann", password, .list [.map [("city", .text "Oslo"), ("token", token), (key, .null)], .null]]
  accessors := Accessor.table people.attributes
  mode := .server
  report := .empty

theorem alike_person :
    let r := person (.text "secret") (.text "a") "x"
    let r' := person (.list [.null]) .null "y"
    r.Alike .server r' ∧ r.metadata = r'.metadata ∧ r.mode = .server ∧ r'.mode = .server ∧
      r.computeVersion.1 = r'.computeVersion.1 ∧ r.toJson = r'.toJson := by
  intro r r'
  have haddress : Composite.Alike .server
      (.route true (.bind (people.attributes[2]))
        [("city", .text "Oslo"), ("token", .text "a"), ("x", .null)])
      (.route true (.bind (people.attributes[2])) [("city", .text "Oslo"), ("token", .null), ("y", .null)]) :=
    .mk (.cons (.shown (.plain _)) (.cons (.hidden rfl) .nil))
  have h : r.Alike .server r' := ⟨rfl, rfl, rfl, .cons (.shown (.plain _)) (.cons (.hidden rfl)
    (.cons (.shown (.items (.object haddress (.other _ .nil)))) .nil))⟩
  exact ⟨h, rfl, rfl, rfl, h.shows_same.1, h.shows_same.2 rfl rfl rfl⟩

end Resource

end Scim
