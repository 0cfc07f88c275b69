import Scim.Proofs.Attribute.Conformance
import Scim.Proofs.Attribute.Visibility
import Scim.Proofs.Base64

/-!
# Output of what is valid

`Json.Fits mode d j`: the document `j` is what a descriptor says of an attribute that shows in a mode.
An attribute without problems shows such a document (`Attribute.render_fits`). Three case analyses have
to agree for that: what is stored (`Content.Shaped`), what is without a problem
(`Descriptor.isEmpty_checkValue` and what follows it) and how it is rendered.

* A scalar without a problem is null or matches the datatype, and each datatype has its own written form
  (`Descriptor.Matches.writes`). A decimal that is no number is written as null.
* A value of the wrong shape, which is the only thing that a complex attribute keeps as a whole, always
  has a problem (`Descriptor.Refuses.not_isEmpty`).
* The members of an object are those of its visible sub-attributes, which are without problems too.
-/

set_option autoImplicit false

namespace Scim

/-! ## Documents of a descriptor -/

/-- A value of a simple datatype as it is written. -/
def Descriptor.Writes (d : Descriptor) (j : Json) : Prop :=
  match d.datatype with
  | .string => ∃ s, j = .string s ∧ d.Allows s
  | .reference => ∃ s, j = .string s ∧ d.Allows s
  | .boolean => ∃ b, j = .bool b
  | .decimal => ∃ x, j = .decimal x
  | .integer => ∃ n, j = .integer n
  | .dateTime => ∃ s, j = .string s
  | .binary => ∃ s, j = .string s ∧ (Base64.decode? s.toList).isSome = true
  | .complex => False

mutual

/-- What an attribute shows: an array where several values are declared, and one item where one is. -/
inductive Json.Fits (mode : Mode) : Descriptor → Json → Prop
  | several {d : Descriptor} {items : List Json} : d.multiValued = true →
      (∀ j ∈ items, Json.FitsOne mode d j) → Json.Fits mode d (.array items)
  | single {d : Descriptor} {j : Json} : d.multiValued = false → Json.FitsOne mode d j →
      Json.Fits mode d j

inductive Json.FitsOne (mode : Mode) : Descriptor → Json → Prop
  | null (d : Descriptor) : Json.FitsOne mode d .null
  | scalar {d : Descriptor} {j : Json} : d.Writes j → Json.FitsOne mode d j
  | object {d : Descriptor} {members : List (String × Json)} : d.isComplex = true →
      (∀ m ∈ members, Json.FitsMember mode d m) → Json.FitsOne mode d (.object members)

/-- A member that is not null, of a sub-attribute that is visible in the mode. -/
inductive Json.FitsMember (mode : Mode) : Descriptor → String × Json → Prop
  | intro {d sub : Descriptor} {m : String × Json} : sub ∈ d.subAttributes →
      sub.isHidden mode = false → sub.name = m.1 → m.2 ≠ .null → Json.Fits mode sub m.2 →
      Json.FitsMember mode d m

end

/-! ## Scalars -/

theorem Json.ofBinary64_cases (x : Binary64) :
    Json.ofBinary64 x = .null ∨ ∃ y, Json.ofBinary64 x = .decimal y := by
  unfold Json.ofBinary64
  split
  · exact .inr ⟨_, rfl⟩
  · exact .inl rfl

theorem DataType.renderScalar_null (datatype : DataType) : datatype.renderScalar .null = .null := by
  cases datatype <;> rfl

theorem DataType.renderScalar_boolean {s : String} (h : (boolean? s).isSome = true) :
    ∃ b, DataType.boolean.renderScalar (.text s) = .bool b := by
  obtain ⟨b, hb⟩ := Option.isSome_iff_exists.1 h
  exact ⟨b, by simp [DataType.renderScalar, hb]⟩

namespace Descriptor

variable {d : Descriptor}

/-- A value that matches a simple datatype is rendered in the written form of it. -/
theorem Matches.writes (hc : d.isComplex = false) {object : List (String × Value) → Prop} {v : Value}
    (h : d.Matches object v) :
    d.datatype.renderScalar v = .null ∨ d.Writes (d.datatype.renderScalar v) := by
  have hc : d.datatype ≠ .complex := by simpa [isComplex] using hc
  unfold Matches at h
  unfold Writes
  generalize d.datatype = datatype at h hc
  cases datatype with
  | string =>
    obtain ⟨s, rfl, hs⟩ := h
    exact .inr ⟨s, rfl, hs⟩
  | reference =>
    obtain ⟨s, rfl, hs⟩ := h
    exact .inr ⟨s, rfl, hs⟩
  | boolean =>
    rcases h with ⟨b, rfl⟩ | ⟨s, rfl, hs⟩
    · exact .inr ⟨b, rfl⟩
    · exact .inr (DataType.renderScalar_boolean (isSome_boolean?.2 hs))
  | decimal =>
    rcases h with ⟨x, rfl⟩ | ⟨n, rfl⟩
    · exact Json.ofBinary64_cases x
    · exact Json.ofBinary64_cases (.ofInt n.toInt)
  | integer =>
    obtain ⟨n, rfl⟩ := h
    exact .inr ⟨n.toInt, rfl⟩
  | dateTime =>
    obtain ⟨t, rfl⟩ := h
    exact .inr ⟨_, rfl⟩
  | binary =>
    rcases h with ⟨bytes, rfl⟩ | ⟨s, rfl, hs⟩
    · exact .inr ⟨_, rfl, by simp [Base64.decode?_encode]⟩
    · exact .inr ⟨s, rfl, hs⟩
  | complex => exact absurd rfl hc

variable {mode : Mode}

theorem fitsOne_scalar (hc : d.isComplex = false) {v : Value} (h : d.checkScalar v = none) :
    Json.FitsOne mode d (d.datatype.renderScalar v) := by
  rcases checkScalar_eq_none_iff.1 h with rfl | hmatches
  · rw [DataType.renderScalar_null]
    exact .null d
  · rcases hmatches.writes hc with hnull | hwrites
    · rw [hnull]
      exact .null d
    · exact .scalar hwrites

/-- What a simple attribute holds. -/
theorem fits_simple (hc : d.isComplex = false) {v : Value} {r : Report}
    (h : (d.checkValue v r).isEmpty = true) : Json.Fits mode d (d.renderValue v) := by
  obtain ⟨-, h⟩ := isEmpty_checkValue.1 h
  cases v with
  | null =>
    cases hm : d.multiValued with
    | true =>
      rw [renderValue, hm]
      exact .several hm fun _ hj => absurd hj List.not_mem_nil
    | false =>
      rw [renderValue, hm]
      exact .single hm (.null d)
  | list items =>
    obtain ⟨hm, hitems⟩ := h
    refine .several hm fun j hj => ?_
    obtain ⟨v, hv, rfl⟩ := List.mem_map.1 hj
    exact fitsOne_scalar hc (hitems v hv)
  | _ =>
    obtain ⟨hm, hscalar⟩ := h
    exact .single hm (fitsOne_scalar hc hscalar)

end Descriptor

/-! ## Objects -/

variable {mode : Mode} {d : Descriptor}

/-- An object whose sub-attributes show what fits them. -/
theorem Composite.fitsOne (hc : d.isComplex = true) {c : Composite}
    (hd : c.attributes.map Attribute.descriptor = d.subAttributes)
    (hfits : ∀ a ∈ c.attributes, Json.Fits mode a.descriptor (a.content.render mode a.descriptor)) :
    Json.FitsOne mode d (c.render mode) := by
  obtain ⟨attributes, undeclared⟩ := c
  rw [Composite.render, Json.map]
  refine .object hc fun m hm => ?_
  obtain ⟨a, ha, hname, hj, hnull⟩ := Attribute.mem_members (Entries.mem_of_mem_ofList hm)
  obtain ⟨hvisible, hrender⟩ := Attribute.isHidden_of_render hj
  exact .intro (hd ▸ List.mem_map_of_mem ha) hvisible hname (Json.isNull_eq_false_iff.1 hnull)
    (hrender ▸ hfits a ha)

/-! ## Main result -/

/-- The sub-attributes of an object without problems have none. -/
theorem isEmpty_check_of_mem {c : Composite} {r : Report} (h : (c.check r).isEmpty = true)
    {a : Attribute} (ha : a ∈ c.attributes) :
    (a.content.check a.descriptor .empty).isEmpty = true :=
  (isValid_iff.1 ((isEmpty_check_composite.1 h).2.1 a ha)).2

theorem Content.Shaped.fits {content : Content} (h : content.Shaped .misshapen d)
    (hcheck : (content.check d .empty).isEmpty = true) :
    Json.Fits mode d (content.render mode d) := by
  induction h with
  | @plain d v hv =>
    rw [Content.check] at hcheck
    cases hc : d.isComplex with
    | false => exact Descriptor.fits_simple hc hcheck
    | true =>
      have hrefused : d.Refuses v := hv hc
      rw [hrefused.not_isEmpty hc] at hcheck
      cases hcheck
  | @object d c hc hm hd _ _ ih =>
    refine .single hm (c.fitsOne hc hd fun a ha => ih a ha ?_)
    exact isEmpty_check_of_mem hcheck ha
  | @items d items hc hm hd _ he _ ih =>
    obtain ⟨-, hobjects, hothers⟩ := isEmpty_checkAll_items.1 hcheck
    rw [Content.render, Item.renderAll_eq]
    refine .several hm fun j hj => ?_
    obtain ⟨item, hitem, rfl⟩ := List.mem_map.1 hj
    cases item with
    | object c =>
      refine c.fitsOne hc (hd c hitem) fun a ha => ih c hitem a ha ?_
      exact isEmpty_check_of_mem (hobjects c hitem) ha
    | other v =>
      -- no object is among the other elements, so null is all that is left
      rw [Item.render, Descriptor.eq_null_of_checkScalar hc (he v hitem) (hothers v hitem)]
      exact .null d

/-- **What validates shows as its descriptor says**: an attribute without problems, or a sub-attribute
at any depth, after any operations and in every mode in which it shows. -/
theorem Attribute.render_fits (d : Descriptor) (steps : List (List String × Operation)) (mode : Mode)
    {a : Attribute} (ha : a.Within ((Attribute.bind d).run steps)) (hvalid : a.check.isEmpty = true)
    {j : Json} (hj : a.render mode = some j) : j.Fits mode a.descriptor := by
  have hshaped : a.Shaped .misshapen := Within.shaped ha
  obtain ⟨-, hrender⟩ := isHidden_of_render hj
  rw [← hrender]
  exact hshaped.fits (isValid_iff.1 hvalid).2

/-- Addresses for a client: a truth value in text, a key that only the server sets, and null among the
addresses. -/
theorem Attribute.render_fits_addresses :
    let key : Descriptor := { Descriptor.new "key" .binary with mutability := .readOnly }
    let addresses : Descriptor := { ((Descriptor.new "addresses" .complex).addSub
      (.new "primary" .boolean)).addSub key with multiValued := true }
    let held := (Attribute.bind addresses).run
      [([], .assign (.list [.map [("key", .binary [1, 2]), ("primary", .text "TRUE")], .null]))]
    let shown := Json.array [.object [("primary", .bool true)], .null]
    held.Within held ∧ held.check.isEmpty = true ∧ held.render .client = some shown ∧
      shown.Fits .client addresses := by
  intro key addresses held shown
  have hvalid : held.check.isEmpty = true := by decide
  have hshown : held.render .client = some shown := by rfl
  exact ⟨.self held, hvalid, hshown, render_fits addresses _ .client (.self held) hvalid hshown⟩

end Scim
