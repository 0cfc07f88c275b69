import Scim.Proofs.Attribute.Conformance
import Scim.Proofs.Attribute.RoundTrip

/-!
# Acceptance of what is shown

What an attribute shows is assigned to it anew: its content is then `Content.restored`. If the content
came from documents and had no problem, the restored one has none, and it is blank where the content was
(`Content.Shaped.regained`). Blankness has to come back because a required attribute must not be blank;
and everything must be shown (`Descriptor.Disclosed`), since what is hidden comes back blank.

One value comes back as it was, but for a truth value in text, which comes back as a truth value
(`DataType.restored_coerce`).
-/

set_option autoImplicit false

namespace Scim

/-! ## Descriptors -/

/-- A server shows all values, at any depth. -/
inductive Descriptor.Disclosed : Descriptor → Prop
  | intro {d : Descriptor} : d.mutability ≠ .writeOnly → d.returned ≠ .never →
      (∀ sub ∈ d.subAttributes, Disclosed sub) → Disclosed d

theorem Descriptor.Disclosed.isHidden {d : Descriptor} (h : d.Disclosed) :
    d.isHidden .server = false := by
  cases h with
  | intro hmutability hreturned _ =>
    unfold Descriptor.isHidden
    cases hd : d.mutability <;> simp_all

/-! ## One value -/

/-- A value that is rendered, read and coerced. -/
def DataType.restored (datatype : DataType) (v : Value) : Value :=
  datatype.coerce (.ofJson (datatype.renderScalar v))

/-- What was coerced comes back as it was, or as the truth value that it denotes. -/
theorem DataType.restored_coerce (datatype : DataType) {j : Json} (hj : j.Words) :
    datatype.restored (datatype.coerce (.ofJson j)) = datatype.coerce (.ofJson j) ∨
      datatype = .boolean ∧ ∃ b, datatype.restored (datatype.coerce (.ofJson j)) = .boolean b := by
  rcases coerce_cases datatype hj with ⟨s, t, rfl, hs, h⟩ | ⟨hread, hcoerce⟩
  · refine .inl ?_
    rw [h]
    show dateTime.coerce (.text (String.ofList t.text)) = .dateTime t
    simp only [coerce, Value.toDateTime, Time.DateTime.ofText?_text hs]
  · generalize datatype.coerce (.ofJson j) = v at hread hcoerce
    unfold restored
    rcases renderScalar_cases datatype v with ⟨rfl, b, h⟩ | ⟨rfl, n, rfl, -⟩ | h
    · rw [h]
      exact .inr ⟨rfl, b, rfl⟩
    · cases hcoerce
    · rw [h, hread, hcoerce]
      exact .inl rfl

namespace Descriptor

variable {d : Descriptor} {j : Json}

theorem checkScalar_restored (hj : j.Words)
    (h : d.checkScalar (d.datatype.coerce (.ofJson j)) = none) :
    d.checkScalar (d.datatype.restored (d.datatype.coerce (.ofJson j))) = none := by
  rcases d.datatype.restored_coerce hj with hsame | ⟨hd, b, hb⟩
  · rw [hsame]
    exact h
  · rw [hb, checkScalar_eq_none_iff, Matches, hd]
    exact .inr (.inl ⟨b, rfl⟩)

/-! ## Values that are kept as a whole -/

/-- A value that is rendered, read and coerced, with the elements of a list each by itself. -/
def restored (d : Descriptor) (v : Value) : Value :=
  d.coerce (.ofJson (d.renderValue v))

theorem isEmpty_checkValue_list {items : List Value} :
    (d.checkValue (.list items) .empty).isEmpty = true ↔
      d.multiValued = true ∧ ∀ v ∈ items, d.checkScalar v = none := by
  simp [isEmpty_checkValue]

theorem isEmpty_checkValue_single {v : Value} (h : v.IsSingle) :
    (d.checkValue v .empty).isEmpty = true ↔ d.multiValued = false ∧ d.checkScalar v = none := by
  obtain ⟨hnull, hlist⟩ := h
  rw [isEmpty_checkValue]
  cases v with
  | null => exact absurd rfl hnull
  | list items => exact absurd rfl (hlist items)
  | _ => simp

theorem isBlank_single {v : Value} (h : v.IsSingle) : v.isBlank = false := by
  obtain ⟨hnull, hlist⟩ := h
  cases v with
  | null => exact absurd rfl hnull
  | list items => exact absurd rfl (hlist items)
  | _ => rfl

/-- The value of a document that is coerced without a problem comes back without one, and as blank. -/
theorem regained_value (hj : j.Words)
    (h : (d.checkValue (d.coerce (.ofJson j)) .empty).isEmpty = true) :
    (d.checkValue (d.restored (d.coerce (.ofJson j))) .empty).isEmpty = true ∧
      (d.restored (d.coerce (.ofJson j))).isBlank = (d.coerce (.ofJson j)).isBlank := by
  rcases shape_ofJson j with rfl | ⟨items, rfl⟩ | hsingle
  · cases hm : d.multiValued with
    | true =>
      simp [restored, coerce, renderValue, Value.ofJson, Value.ofJsonAll, hm, isEmpty_checkValue_list]
    | false =>
      simp [restored, coerce, renderValue, Value.ofJson, hm, DataType.coerce_null, checkValue]
  · have hitems : ∀ j ∈ items, j.Words := by
      cases hj with
      | array h => exact h
    rw [ofJson_array] at h ⊢
    cases hm : d.multiValued with
    | true =>
      have hcoerce (values : List Value) :
          d.coerce (.list values) = .list (values.map d.datatype.coerce) := by
        simp [coerce, hm]
      have hrestored : d.restored (.list ((items.map Value.ofJson).map d.datatype.coerce)) =
          .list (((items.map Value.ofJson).map d.datatype.coerce).map d.datatype.restored) := by
        rw [restored, renderValue_list, ofJson_array, hcoerce, List.map_map, List.map_map]
        rfl
      rw [hcoerce] at h ⊢
      obtain ⟨-, hscalars⟩ := isEmpty_checkValue_list.1 h
      rw [hrestored]
      refine ⟨isEmpty_checkValue_list.2 ⟨hm, ?_⟩, by simp [Value.isBlank]⟩
      simp only [List.forall_mem_map] at hscalars ⊢
      exact fun j hj => checkScalar_restored (hitems j hj) (hscalars j hj)
    | false =>
      -- where one value is declared, a list has a problem
      have hcoerce (values : List Value) : d.coerce (.list values) = .list values := by
        unfold coerce
        rw [hm]
        cases d.datatype <;> rfl
      rw [hcoerce] at h
      exact absurd (isEmpty_checkValue_list.1 h).1 (by simp [hm])
  · have hcoerced := @DataType.isSingle_coerce d.datatype _ hsingle
    have hread := (DataType.reread d.datatype hj).2 hsingle
    have hrestored : (d.datatype.restored (d.datatype.coerce (.ofJson j))).IsSingle :=
      DataType.isSingle_coerce hread
    have hsame : d.restored (d.datatype.coerce (.ofJson j)) =
        d.datatype.restored (d.datatype.coerce (.ofJson j)) := by
      rw [restored, renderValue_single hcoerced, coerce_single hread]
      rfl
    rw [coerce_single hsingle] at h ⊢
    obtain ⟨hm, hscalar⟩ := (isEmpty_checkValue_single hcoerced).1 h
    rw [hsame, isBlank_single hcoerced]
    exact ⟨(isEmpty_checkValue_single hrestored).2 ⟨hm, checkScalar_restored hj hscalar⟩,
      isBlank_single hrestored⟩

end Descriptor

/-- What comes from documents: a simple attribute keeps the coerced value of one. -/
def Kept.documents : Kept where
  whole d v := (d.isComplex = true → d.Refuses v) ∧
    (d.isComplex = false → ∃ j : Json, j.Words ∧ v = d.coerce (.ofJson j))
  element _ v := ∀ entries, v ≠ .map entries
  fresh d h := by
    refine ⟨fun hc => absurd hc (by simp [h]), fun _ => ⟨.null, .null, ?_⟩⟩
    cases hm : d.multiValued <;> simp [Descriptor.coerce, Value.ofJson, hm, DataType.coerce_null]

theorem Kept.Takes.documents :
    Kept.documents.Takes true fun v => ∃ j : Json, j.Words ∧ v = .ofJson j where
  simple := by
    rintro d _ h ⟨j, hj, rfl⟩
    exact ⟨fun hc => absurd hc (by simp [h]), fun _ => ⟨j, hj, rfl⟩⟩
  refused d v h hr _ := ⟨fun _ => hr, fun hc => absurd h (by simp [hc])⟩
  element _ _ h _ := h
  ofItem := settled.ofItem
  ofMember := settled.ofMember

/-! ## Attributes -/

namespace Content

/-- What an attribute holds that is assigned what the content shows. -/
def restored (d : Descriptor) (content : Content) : Content :=
  .ofValue true d (.ofJson (content.render .server d))

/-- Without a problem what is shown is taken back without one, and is as blank as before. -/
def Regained (d : Descriptor) (content : Content) : Prop :=
  (content.check d .empty).isEmpty = true →
    ((content.restored d).check d .empty).isEmpty = true ∧
      (content.restored d).isBlank = content.isBlank

end Content

namespace Attribute

variable {a : Attribute}

theorem content_again (h : a.descriptor.isHidden .server = false) :
    a.again.content = a.content.restored a.descriptor := by
  have hmember : a.member? .server =
      if (a.content.render .server a.descriptor).isNull then none
      else some (a.name, a.content.render .server a.descriptor) := by
    simp [member?, render_server, h]
  unfold Content.restored
  cases hnull : (a.content.render .server a.descriptor).isNull with
  | true =>
    have hj : a.content.render .server a.descriptor = .null := by
      cases hj : a.content.render .server a.descriptor <;> simp_all [Json.isNull]
    rw [hj, Content.ofValue_ofJson_null]
    simp [again, shown?, hmember, hnull]
  | false => simp [again, shown?, hmember, hnull]

/-- Without a problem the attribute is assigned what it shows without one, and is as blank as before. -/
def Regained (a : Attribute) : Prop :=
  a.isValid = true → a.again.isValid = true ∧ a.again.content.isBlank = a.content.isBlank

theorem regained_of_content (h : a.descriptor.isHidden .server = false)
    (hcontent : a.content.Regained a.descriptor) : a.Regained := by
  intro hvalid
  obtain ⟨hrequired, hcheck⟩ := isValid_iff.1 hvalid
  obtain ⟨hcheck', hblank⟩ := hcontent hcheck
  rw [isValid_iff, content_again h, descriptor_again, hblank]
  exact ⟨⟨hrequired, hcheck'⟩, rfl⟩

end Attribute

/-! ## Objects -/

namespace Composite

variable {d : Descriptor} {c : Composite} {members : List (String × Json)}

/-- An object is shown under declared names only. -/
theorem undeclared_again (hn : d.names.Nodup)
    (hd : c.attributes.map Attribute.descriptor = d.subAttributes)
    (h : c.render .server = .object members) :
    d.undeclared (Value.ofJsonMembers members) = [] := by
  rw [Descriptor.undeclared, List.filter_eq_nil_iff, Value.ofJsonMembers_eq]
  intro key hkey
  rw [List.map_map] at hkey
  obtain ⟨a, ha, rfl, -⟩ := c.exists_visible h hkey
  have hname : a.name ∈ d.names := by
    rw [← names_of_descriptors hd]
    exact List.mem_map_of_mem ha
  obtain ⟨i, hi⟩ := List.mem_iff_getElem?.1 hname
  simp [placeOf?_of_nodup hn hi]

/-- An object is taken back if each sub-attribute is: it has these, and no key is left over. -/
theorem regained (hn : d.names.Nodup)
    (hd : c.attributes.map Attribute.descriptor = d.subAttributes)
    (hsubs : ∀ a ∈ c.attributes, a.Regained) (h : c.render .server = .object members)
    (hcheck : (c.check .empty).isEmpty = true) :
    ((route true (bind d) (Value.ofJsonMembers members)).check .empty).isEmpty = true ∧
      (route true (bind d) (Value.ofJsonMembers members)).isBlank = c.isBlank := by
  obtain ⟨-, hvalid, -⟩ := isEmpty_check_composite.1 hcheck
  have hagain := attributes_again hn hd h
  constructor
  · rw [isEmpty_check_composite, hagain, undeclared_route_bind, undeclared_again hn hd h]
    refine ⟨rfl, ?_, rfl⟩
    rw [List.forall_mem_map]
    exact fun a ha => (hsubs a ha (hvalid a ha)).1
  · rw [Bool.eq_iff_iff, isBlank_composite, isBlank_composite, hagain, List.forall_mem_map]
    refine forall₂_congr fun a ha => ?_
    rw [(hsubs a ha (hvalid a ha)).2]

end Composite

/-! ## Elements of lists -/

/-- The element of a list that is read where the element is shown. -/
def Item.restored (d : Descriptor) (item : Item) : Item :=
  .ofValue true d (.ofJson (item.render .server))

theorem Item.restored_object {d : Descriptor} {c : Composite} {members : List (String × Json)}
    (h : c.render .server = .object members) : restored d (.object c) =
      .object (.route true (.bind d) (Value.ofJsonMembers members)) := by
  rw [restored, render, h, Value.ofJson, ofValue]

theorem Content.restored_items {d : Descriptor} (h : d.isComplex = true) (hm : d.multiValued = true)
    (items : List Item) : restored d (.items items) = .items (items.map (Item.restored d)) := by
  rw [restored, render, Descriptor.ofJson_array, ofValue_items h hm, Item.renderAll_eq, List.map_map,
    List.map_map]
  rfl

theorem Item.regained {d : Descriptor} {items : List Item} (h : d.isComplex = true)
    (hobject : ∀ c, .object c ∈ items → ∀ members, c.render .server = .object members →
      (c.check .empty).isEmpty = true →
        ((Composite.route true (.bind d) (Value.ofJsonMembers members)).check .empty).isEmpty = true)
    (hother : ∀ v, .other v ∈ items → ∀ entries, v ≠ .map entries)
    (hcheck : (checkAll d .empty items).isEmpty = true) :
    (checkAll d .empty (items.map (restored d))).isEmpty = true := by
  obtain ⟨-, hobjects, hothers⟩ := isEmpty_checkAll_items.1 hcheck
  have hregained (c : Composite) (hc : .object c ∈ items) :
      ∃ c', restored d (.object c) = .object c' ∧ (c'.check .empty).isEmpty = true := by
    obtain ⟨members, hmembers⟩ := c.exists_members .server
    exact ⟨_, restored_object hmembers, hobject c hc members hmembers (hobjects c hc)⟩
  have hnull (v : Value) (hv : .other v ∈ items) : restored d (.other v) = .other .null := by
    rw [Descriptor.eq_null_of_checkScalar h (hother v hv) (hothers v hv)]
    rfl
  rw [isEmpty_checkAll_items]
  refine ⟨rfl, fun c hc => ?_, fun v hv => ?_⟩
  · obtain ⟨item, hitem, he⟩ := List.mem_map.1 hc
    cases item with
    | object before =>
      obtain ⟨c', hrestored, hcheck'⟩ := hregained before hitem
      rw [hrestored] at he
      cases he
      exact hcheck'
    | other v =>
      rw [hnull v hitem] at he
      cases he
  · obtain ⟨item, hitem, he⟩ := List.mem_map.1 hv
    cases item with
    | object before =>
      obtain ⟨c', hrestored, -⟩ := hregained before hitem
      rw [hrestored] at he
      cases he
    | other v =>
      rw [hnull v hitem] at he
      cases he
      exact Descriptor.checkScalar_eq_none_iff.2 (.inl rfl)

/-! ## Main result -/

/-- **What an attribute shows is accepted**, if what it holds came from documents and has no problem. -/
theorem Content.Shaped.regained {d : Descriptor} {content : Content}
    (h : content.Shaped .documents d) (hdistinct : d.Distinct) (hdisclosed : d.Disclosed) :
    content.Regained d := by
  induction h with
  | @plain d v hv =>
    intro hcheck
    cases hc : d.isComplex with
    | false =>
      obtain ⟨j, hj, rfl⟩ := hv.2 hc
      rw [restored, Content.render, ofValue_simple hc]
      exact Descriptor.regained_value hj hcheck
    | true =>
      rw [Content.check, (hv.1 hc).not_isEmpty hc] at hcheck
      cases hcheck
  | @object d c hc hm hdescriptors _ _ ih =>
    obtain ⟨hn, hdistinct⟩ := hdistinct
    obtain ⟨-, -, hdisclosed⟩ := hdisclosed
    have hsubs (a : Attribute) (ha : a ∈ c.attributes) : a.Regained := by
      have hsub : a.descriptor ∈ d.subAttributes := hdescriptors ▸ List.mem_map_of_mem ha
      exact Attribute.regained_of_content (hdisclosed _ hsub).isHidden
        (ih a ha (hdistinct _ hsub) (hdisclosed _ hsub))
    obtain ⟨members, hmembers⟩ := c.exists_members .server
    have hrestored : restored d (.object c) =
        .object (.route true (.bind d) (Value.ofJsonMembers members)) := by
      rw [restored, Content.render, hmembers, Value.ofJson, ofValue_object hc hm]
    intro hcheck
    rw [hrestored]
    exact Composite.regained hn hdescriptors hsubs hmembers hcheck
  | @items d items hc hm hdescriptors _ helement _ ih =>
    obtain ⟨hn, hdistinct⟩ := hdistinct
    obtain ⟨-, -, hdisclosed⟩ := hdisclosed
    have hsubs (c : Composite) (hmem : .object c ∈ items) (a : Attribute) (ha : a ∈ c.attributes) :
        a.Regained := by
      have hsub : a.descriptor ∈ d.subAttributes := hdescriptors c hmem ▸ List.mem_map_of_mem ha
      exact Attribute.regained_of_content (hdisclosed _ hsub).isHidden
        (ih c hmem a ha (hdistinct _ hsub) (hdisclosed _ hsub))
    intro hcheck
    rw [restored_items hc hm]
    refine ⟨Item.regained hc (fun c hmem members h hcheck => ?_) helement hcheck, ?_⟩
    · exact (Composite.regained hn (hdescriptors c hmem) (hsubs c hmem) h hcheck).1
    · cases items <;> rfl

end Scim
