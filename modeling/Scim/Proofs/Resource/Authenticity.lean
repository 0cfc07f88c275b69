import Scim.Proofs.Resource.Document
import Scim.Proofs.Resource.Lookup

/-!
# Members of the resource itself

A resource shows its schemas, its identifiers and its metadata besides its attributes. The metadata is
put in last and is always there. The other three come first, and an attribute that has the name of one of
them and shows a value takes its place (`member?_toJson`); so `authentic_iff` says when all four are
those of the resource: exactly when no attribute shows anything else under their names.
-/

set_option autoImplicit false

namespace Scim

/-- The member of a document that has a name. -/
def Json.member? (j : Json) (name : String) : Option Json :=
  match j with
  | .object members => Entries.get? members name
  | _ => none

/-! ## Attributes among members -/

namespace Attribute

theorem mem_members_iff {mode : Mode} {attributes : List Attribute} {m : String × Json} :
    m ∈ members mode attributes ↔ ∃ a ∈ attributes, a.member? mode = some m := by
  rw [members_eq, List.mem_filterMap]

end Attribute

namespace Resource

/-- The names of the members that come before the attributes. -/
def leading : List String := ["schemas", "id", "externalId"]

theorem ne_meta_of_mem_leading {name : String} (h : name ∈ leading) : name ≠ "meta" := by
  rintro rfl
  exact absurd h (by decide)

variable {r : Resource}

theorem ascending_content (mode : Mode) (r : Resource) : Entries.Ascending (r.content mode) :=
  Entries.ascending_ofList _

/-- Under every other name than that of the metadata stands the attribute that has it, if that shows a
value, and else what the resource itself has there. -/
theorem member?_toJson (hnames : (r.attributes.map Attribute.name).Nodup) {name : String}
    (hmeta : name ≠ "meta") : r.toJson.member? name =
      (Entries.get? (Attribute.members r.mode r.attributes) name).or
        (Entries.get? r.ownMembers name) := by
  rw [toJson, Json.member?, Entries.get?_insert (r.ascending_content r.mode), if_neg hmeta,
    content_eq, Entries.get?_ofList_append ((keys_ownMembers r).nodup (by decide))
      (Attribute.nodup_members r.mode hnames)]

theorem member?_toJson_meta (r : Resource) : r.toJson.member? "meta" = some r.metadata.toJson := by
  rw [toJson, Json.member?, Entries.get?_insert (r.ascending_content r.mode), if_pos rfl]

/-- What the resource itself puts under the leading names. -/
theorem get?_leading (r : Resource) :
    Entries.get? r.ownMembers "schemas" = some (.array (r.schemas.map fun s => .string s.id)) ∧
      Entries.get? r.ownMembers "id" = r.id.map .string ∧
      Entries.get? r.ownMembers "externalId" = r.externalId.map .string := by
  unfold ownMembers
  cases r.id <;> cases r.externalId <;> exact ⟨rfl, rfl, rfl⟩

/-! ## Schemas of a resource -/

theorem schemas_visit {α : Type} (f : Attribute → α × Attribute) (name : String) (r : Resource) :
    (r.visit f name).2.schemas = r.schemas := by
  unfold visit
  split
  · split
    · rfl
    · rfl
  · rfl

theorem schemas_apply (operation : Operation) (r : Resource) :
    (operation.apply r).schemas = r.schemas := by
  cases operation with
  | work name path operation => exact schemas_visit _ name r
  | assignJson document =>
    cases document with
    | object members => exact (frame_foldl members r).1
    | _ => rfl
  | _ => rfl

/-- A resource keeps the schemas that it is bound to. -/
theorem schemas_run (operations : List Operation) (r : Resource) :
    (r.run operations).schemas = r.schemas := by
  induction operations generalizing r with
  | nil => rfl
  | cons operation operations ih => exact (ih _).trans (schemas_apply operation r)

/-! ## Main result -/

/-- Schemas, identifiers and metadata that a resource shows are its own. -/
structure Authentic (schemas : List Schema) (r : Resource) : Prop where
  schemas : r.toJson.member? "schemas" = some (.array (schemas.map fun s => .string s.id))
  id : r.toJson.member? "id" = r.id.map .string
  externalId : r.toJson.member? "externalId" = r.externalId.map .string
  metadata : r.toJson.member? "meta" = some r.metadata.toJson

theorem authentic_iff_own : r.Authentic r.schemas ↔
    ∀ name ∈ leading, r.toJson.member? name = Entries.get? r.ownMembers name := by
  obtain ⟨hschemas, hid, hexternal⟩ := r.get?_leading
  simp only [leading, List.forall_mem_cons, hschemas, hid, hexternal, List.not_mem_nil,
    false_implies, implies_true, and_true]
  constructor
  · intro h
    exact ⟨h.schemas, h.id, h.externalId⟩
  · intro ⟨hs, hi, he⟩
    exact ⟨hs, hi, he, r.member?_toJson_meta⟩

/-- A member of a leading name is the resource's own exactly if an attribute that shows one shows the
same. -/
theorem member?_toJson_eq_own_iff (hnames : (r.attributes.map Attribute.name).Nodup) {name : String}
    (hname : name ∈ leading) : r.toJson.member? name = Entries.get? r.ownMembers name ↔
      ∀ a ∈ r.attributes, ∀ m, a.member? r.mode = some m → m.1 = name →
        Entries.get? r.ownMembers m.1 = some m.2 := by
  have hfound (m : String × Json) := @Entries.get?_eq_some_iff _ _
    (Attribute.nodup_members r.mode hnames) m
  rw [member?_toJson hnames (ne_meta_of_mem_leading hname)]
  constructor
  · intro h a ha m hm hmname
    subst hmname
    rw [← h, (hfound m).2 (Attribute.mem_members_iff.2 ⟨a, ha, hm⟩)]
    rfl
  · intro h
    cases hj : Entries.get? (Attribute.members r.mode r.attributes) name with
    | none => rfl
    | some j =>
      obtain ⟨a, ha, hm⟩ := Attribute.mem_members_iff.1 ((hfound (name, j)).1 hj)
      rw [h a ha _ hm rfl]
      rfl

/-- **When a resource shows its own schemas, identifiers and metadata**, whatever was done with it: the
metadata always, and the others exactly if no attribute that has one of their names shows anything
else. -/
theorem authentic_iff {schemas : List Schema} (hne : schemas ≠ []) (location : String) :
    ∃ r₀, bind schemas location = .ok r₀ ∧ ∀ operations : List Operation,
      (r₀.run operations).toJson.member? "meta" = some (r₀.run operations).metadata.toJson ∧
      ((r₀.run operations).Authentic schemas ↔
        ∀ a ∈ (r₀.run operations).attributes, ∀ m, a.member? (r₀.run operations).mode = some m →
          m.1 ∈ leading → Entries.get? (r₀.run operations).ownMembers m.1 = some m.2) := by
  obtain ⟨r₀, h⟩ := exists_bind hne location
  refine ⟨r₀, h, fun operations => ⟨member?_toJson_meta _, ?_⟩⟩
  have hbound : r₀.schemas = schemas := by
    cases schemas with
    | nil => cases h
    | cons first rest =>
      cases h
      rfl
  have hschemas : (r₀.run operations).schemas = schemas := (schemas_run operations r₀).trans hbound
  have hr := (Bound.bind .anything h).run (.anything true) (.anything false) operations
  generalize r₀.run operations = r at hr hschemas
  have hnames : (r.attributes.map Attribute.name).Nodup := by
    rw [hr.names]
    exact Descriptor.nodup_bound schemas
  rw [← hschemas, authentic_iff_own]
  constructor
  · intro hall a ha m hm hleading
    exact (member?_toJson_eq_own_iff hnames hleading).1 (hall m.1 hleading) a ha m hm rfl
  · intro hall name hname
    refine (member?_toJson_eq_own_iff hnames hname).2 fun a ha m hm hmname => ?_
    exact hall a ha m hm (hmname ▸ hname)

/-- A schema that declares an identifier of its own. -/
def identified : Schema :=
  { Schema.new "urn:device" "Device" "/Schemas/Device" with attributes := [.new "id" .string] }

/-- The identifier of a resource is its own until the attribute of that name has another value. -/
theorem authentic_identified :
    ∃ r₀, bind [identified] "/Devices/1" = .ok r₀ ∧
      (r₀.run [.setId (some "1")]).Authentic [identified] ∧
      (r₀.run [.setId (some "1"), .work "id" [] (.assign (.text "2"))]).toJson.member? "id" =
        some (.string "2") ∧
      ¬ (r₀.run [.setId (some "1"), .work "id" [] (.assign (.text "2"))]).Authentic [identified] := by
  obtain ⟨r₀, h, hall⟩ := @authentic_iff [identified] (by simp) "/Devices/1"
  obtain ⟨hattributes, -, -, hmode⟩ := fresh_of_bind h
  have hbound : Descriptor.bound [identified] = identified.attributes := by decide +kernel
  have hmember : (r₀.run [.setId (some "1"), .work "id" [] (.assign (.text "2"))]).toJson.member?
      "id" = some (.string "2") := by
    cases h
    rfl
  refine ⟨r₀, h, (hall _).2.2 ?_, hmember, fun hauthentic => ?_⟩
  · show ∀ a ∈ r₀.attributes, ∀ m, a.member? r₀.mode = some m → _
    rw [hattributes, hbound, hmode]
    intro a ha m hm
    obtain rfl := List.mem_singleton.1 ha
    cases hm
  · cases h
    have hid : some (Json.string "2") = some (.string "1") := hmember.symm.trans hauthentic.id
    simp at hid

end Resource

end Scim
