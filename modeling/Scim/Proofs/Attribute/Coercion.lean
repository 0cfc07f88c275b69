import Mathlib.Data.List.Basic
import Scim.Proofs.Attribute.Acceptance
import Scim.Proofs.Base64

/-!
# Coercion of what is valid

A value that an attribute takes without a problem as it is, it takes without a problem after coercion
too, and shows the same (`Attribute.isValid_assign_of_assignUncoerced`). What is stored may differ: null
for several values becomes an empty list, an integer a decimal, and octets become text. So the two
contents are compared by what can be told of them (`Content.Replaces`): problems, blankness and what is
shown. Blankness is among these because a required attribute must not be blank, and because a client
shows what it only writes unless it is blank.
-/

set_option autoImplicit false

namespace Scim

/-! ## One value -/

namespace Descriptor

variable {d : Descriptor} {v : Value}

/-- Of the values of a datatype, coercion changes integers among decimals and octets only. -/
theorem Matches.coerce_cases {object : List (String × Value) → Prop} (h : d.Matches object v) :
    d.datatype.coerce v = v ∨
      (d.datatype = .decimal ∧ ∃ n : Int64, v = .integer n ∧
        d.datatype.coerce v = .decimal (.ofInt n.toInt)) ∨
      (d.datatype = .binary ∧ ∃ bytes, v = .binary bytes ∧
        d.datatype.coerce v = .ofChars (Base64.encode bytes)) := by
  unfold Matches at h
  generalize d.datatype = datatype at h
  cases datatype with
  | decimal =>
    rcases h with ⟨x, rfl⟩ | ⟨n, rfl⟩
    · exact .inl rfl
    · exact .inr (.inl ⟨rfl, n, rfl, rfl⟩)
  | binary =>
    rcases h with ⟨bytes, rfl⟩ | ⟨s, rfl, -⟩
    · exact .inr (.inr ⟨rfl, bytes, rfl, rfl⟩)
    · exact .inl rfl
  | string =>
    obtain ⟨s, rfl, -⟩ := h
    exact .inl rfl
  | integer =>
    obtain ⟨n, rfl⟩ := h
    exact .inl rfl
  | dateTime =>
    obtain ⟨t, rfl⟩ := h
    exact .inl rfl
  | boolean => exact .inl rfl
  | reference => exact .inl rfl
  | complex => exact .inl rfl

/-- A scalar without a problem is coerced to one, which is rendered as the scalar is. -/
theorem checkScalar_coerce (h : d.checkScalar v = none) :
    d.checkScalar (d.datatype.coerce v) = none ∧
      d.datatype.renderScalar (d.datatype.coerce v) = d.datatype.renderScalar v := by
  rcases checkScalar_eq_none_iff.1 h with rfl | hmatches
  · simp [DataType.coerce_null, h]
  · rcases hmatches.coerce_cases with hsame | ⟨hd, n, rfl, hn⟩ | ⟨hd, bytes, rfl, hbytes⟩
    · simp [hsame, h]
    · rw [hn, checkScalar_eq_none_iff, Matches, hd]
      exact ⟨.inr (.inl ⟨_, rfl⟩), rfl⟩
    · rw [hbytes, checkScalar_eq_none_iff, Matches, hd]
      refine ⟨.inr (.inr ⟨_, rfl, ?_⟩), rfl⟩
      simp [Base64.decode?_encode]

end Descriptor

/-! ## What can be told of a content -/

/-- The second content has no problem, is blank where the first is, and shows the same. -/
structure Content.Replaces (d : Descriptor) (x y : Content) : Prop where
  valid : (y.check d .empty).isEmpty = true
  blank : y.isBlank = x.isBlank
  shown : ∀ mode, y.render mode d = x.render mode d

/-- As for contents; a required attribute is not blank either. -/
structure Attribute.Replaces (a b : Attribute) : Prop where
  descriptor : b.descriptor = a.descriptor
  valid : b.isValid = true
  blank : b.content.isBlank = a.content.isBlank
  shown : ∀ mode, b.render mode = a.render mode

namespace Attribute

theorem replaces {a b : Attribute} (hd : b.descriptor = a.descriptor) (hvalid : a.isValid = true)
    (h : a.content.Replaces a.descriptor b.content) : a.Replaces b := by
  obtain ⟨hrequired, -⟩ := isValid_iff.1 hvalid
  refine ⟨hd, isValid_iff.2 ?_, h.blank, fun mode => ?_⟩
  · rw [hd, h.blank]
    exact ⟨hrequired, h.valid⟩
  · have hvisible : b.isVisible mode = a.isVisible mode := by
      simp only [isVisible, isBlank_eq, hd, h.blank]
    rw [render_eq, render_eq, hvisible, hd, h.shown]

theorem Replaces.member?_eq {a b : Attribute} (h : a.Replaces b) (mode : Mode) :
    b.member? mode = a.member? mode := by
  simp only [member?, name, h.shown, h.descriptor]

end Attribute

/-! ## Values that are kept as a whole -/

namespace Descriptor

variable {d : Descriptor}

theorem replaces_single {v : Value} (hsingle : v.IsSingle)
    (h : (d.checkValue v .empty).isEmpty = true) :
    Content.Replaces d (.plain v) (.plain (d.coerce v)) := by
  obtain ⟨hm, hscalar⟩ := (isEmpty_checkValue_single hsingle).1 h
  obtain ⟨hcheck, hshown⟩ := checkScalar_coerce hscalar
  have hcoerced := @DataType.isSingle_coerce d.datatype v hsingle
  rw [coerce_single hsingle]
  refine ⟨(isEmpty_checkValue_single hcoerced).2 ⟨hm, hcheck⟩, ?_, fun mode => ?_⟩
  · simp [Content.isBlank, isBlank_single hsingle, isBlank_single hcoerced]
  · simp only [Content.render, renderValue_single hsingle, renderValue_single hcoerced, hshown]

theorem replaces_list {items : List Value} (h : (d.checkValue (.list items) .empty).isEmpty = true) :
    Content.Replaces d (.plain (.list items)) (.plain (d.coerce (.list items))) := by
  obtain ⟨hm, hitems⟩ := isEmpty_checkValue_list.1 h
  have hcoerce : d.coerce (.list items) = .list (items.map d.datatype.coerce) := by
    simp [coerce, hm]
  rw [hcoerce]
  refine ⟨isEmpty_checkValue_list.2 ⟨hm, ?_⟩, ?_, fun mode => ?_⟩
  · rw [List.forall_mem_map]
    exact fun v hv => (checkScalar_coerce (hitems v hv)).1
  · simp [Content.isBlank, Value.isBlank]
  · simp only [Content.render, renderValue_list, List.map_map]
    congr 1
    exact List.map_congr_left fun v hv => (checkScalar_coerce (hitems v hv)).2

theorem replaces_value {v : Value} (h : (d.checkValue v .empty).isEmpty = true) :
    Content.Replaces d (.plain v) (.plain (d.coerce v)) := by
  cases v with
  | null =>
    -- where several values are declared, null becomes an empty list
    cases hm : d.multiValued with
    | true =>
      refine ⟨?_, ?_, fun mode => ?_⟩ <;>
        simp [coerce, hm, Content.check, isEmpty_checkValue_list, Content.isBlank, Value.isBlank,
          Content.render, renderValue]
    | false =>
      have hcoerce : d.coerce .null = .null := by simp [coerce, hm, DataType.coerce_null]
      rw [hcoerce]
      exact ⟨h, rfl, fun _ => rfl⟩
  | list items => exact replaces_list h
  | _ => exact replaces_single (by simp [Value.IsSingle]) h

end Descriptor

/-! ## Objects -/

namespace Composite

variable {d : Descriptor} {entries : List (String × Value)}

/-- What a new object has for a sub-attribute when members are assigned to it. -/
def routed (coerced : Bool) (d : Descriptor) (entries : List (String × Value))
    (sub : Descriptor × Nat) : Attribute :=
  (routed? d.names sub.2 entries).elim (.bind sub.1) fun v => (Attribute.bind sub.1).store coerced v

theorem attributes_route_bind (coerced : Bool) (d : Descriptor) (entries : List (String × Value)) :
    (route coerced (bind d) entries).attributes =
      d.subAttributes.zipIdx.map (routed coerced d entries) := by
  apply List.ext_getElem?
  intro i
  rw [getElem?_route_bind, List.getElem?_map, List.getElem?_zipIdx, Option.map_map, Nat.zero_add]
  rfl

theorem replaces_route
    (ih : ∀ sub ∈ d.subAttributes, ∀ v, ((Attribute.bind sub).assignUncoerced v).isValid = true →
      ((Attribute.bind sub).assignUncoerced v).Replaces ((Attribute.bind sub).assign v))
    (h : ((route false (bind d) entries).check .empty).isEmpty = true) :
    Content.Replaces d (.object (route false (bind d) entries))
      (.object (route true (bind d) entries)) := by
  obtain ⟨-, hvalid, hkeys⟩ := isEmpty_check_composite.1 h
  rw [undeclared_route_bind] at hkeys
  rw [attributes_route_bind, List.forall_mem_map] at hvalid
  have subs (e : Descriptor × Nat) (he : e ∈ d.subAttributes.zipIdx) :
      (routed false d entries e).Replaces (routed true d entries e) := by
    have hsub := hvalid e he
    unfold routed at hsub ⊢
    cases hr : routed? d.names e.2 entries with
    | none =>
      rw [hr] at hsub
      exact ⟨rfl, hsub, rfl, fun _ => rfl⟩
    | some v =>
      rw [hr] at hsub
      exact ih e.1 (List.fst_mem_of_mem_zipIdx he) v hsub
  refine ⟨?_, ?_, fun mode => ?_⟩
  · rw [Content.check, isEmpty_check_composite, undeclared_route_bind, hkeys,
      attributes_route_bind, List.forall_mem_map]
    exact ⟨rfl, fun e he => (subs e he).valid, rfl⟩
  · rw [Content.isBlank, Content.isBlank, Bool.eq_iff_iff, isBlank_composite, isBlank_composite,
      attributes_route_bind, attributes_route_bind, List.forall_mem_map, List.forall_mem_map]
    refine forall₂_congr fun e he => ?_
    rw [(subs e he).blank]
  · rw [Content.render, Content.render, render_eq, render_eq, Attribute.members_eq,
      Attribute.members_eq, attributes_route_bind, attributes_route_bind, List.filterMap_map,
      List.filterMap_map]
    congr 1
    exact List.filterMap_congr fun e he => (subs e he).member?_eq mode

end Composite

/-! ## Elements of lists -/

theorem Item.replaces_list {d : Descriptor} {items : List Value}
    (objects : ∀ entries, ((Composite.route false (.bind d) entries).check .empty).isEmpty = true →
      Content.Replaces d (.object (.route false (.bind d) entries))
        (.object (.route true (.bind d) entries)))
    (h : (checkAll d .empty (items.map (ofValue false d))).isEmpty = true) :
    Content.Replaces d (.items (items.map (ofValue false d)))
      (.items (items.map (ofValue true d))) := by
  obtain ⟨-, hobjects, hothers⟩ := isEmpty_checkAll_items.1 h
  have object {entries : List (String × Value)} (he : .map entries ∈ items) :
      Content.Replaces d (.object (.route false (.bind d) entries))
        (.object (.route true (.bind d) entries)) := by
    have hitem : ofValue false d (.map entries) ∈ items.map (ofValue false d) :=
      List.mem_map_of_mem he
    exact objects entries (hobjects _ hitem)
  refine ⟨?_, ?_, fun mode => ?_⟩
  · rw [Content.check, isEmpty_checkAll_items]
    refine ⟨rfl, fun c hc => ?_, fun v hv => ?_⟩
    · obtain ⟨entries, he, rfl⟩ := mem_map_object hc
      exact (object he).valid
    · obtain ⟨hv, hmap⟩ := mem_map_other hv
      have hitem : ofValue false d v ∈ items.map (ofValue false d) := List.mem_map_of_mem hv
      rw [ofValue_other hmap] at hitem
      exact hothers v hitem
  · simp [Content.isBlank]
  · simp only [Content.render, renderAll_eq, List.map_map]
    congr 1
    refine List.map_congr_left fun v hv => ?_
    cases v with
    | map entries => exact (object hv).shown mode
    | _ => rfl

/-! ## Main result -/

theorem Content.replaces_ofValue (d : Descriptor) {v : Value}
    (h : ((ofValue false d v).check d .empty).isEmpty = true) :
    Replaces d (ofValue false d v) (ofValue true d v) := by
  induction d using Descriptor.induct generalizing v with
  | step d ih =>
    have objects (entries : List (String × Value))
        (h : ((Composite.route false (.bind d) entries).check .empty).isEmpty = true) :
        Replaces d (.object (.route false (.bind d) entries))
          (.object (.route true (.bind d) entries)) := by
      refine Composite.replaces_route (fun sub hsub v hvalid => ?_) h
      have hcontent := ih sub hsub (isValid_assignUncoerced.1 hvalid).2
      refine Attribute.replaces rfl hvalid ?_
      simpa [Attribute.assign, Attribute.assignUncoerced] using hcontent
    cases hc : d.isComplex with
    | false =>
      rw [ofValue_simple hc] at h ⊢
      rw [ofValue_simple hc]
      exact Descriptor.replaces_value h
    | true =>
      by_cases hr : d.Refuses v
      · rw [ofValue_refused hc hr] at h ⊢
        rw [ofValue_refused hc hr]
        exact ⟨h, rfl, fun _ => rfl⟩
      cases v with
      | null =>
        rw [ofValue_null hc] at h ⊢
        rw [ofValue_null hc]
        exact ⟨h, rfl, fun _ => rfl⟩
      | list items =>
        have hm : d.multiValued = true := by simpa [Descriptor.Refuses] using hr
        rw [ofValue_items hc hm] at h ⊢
        rw [ofValue_items hc hm]
        exact Item.replaces_list objects h
      | map entries =>
        have hm : d.multiValued = false := by simpa [Descriptor.Refuses] using hr
        rw [ofValue_object hc hm] at h ⊢
        rw [ofValue_object hc hm]
        exact objects entries h
      | _ => exact absurd trivial hr

/-- **Coercion does not spoil a valid value.** What an attribute takes as it is without a problem, a new
one takes without a problem when it is coerced, and shows the same in every mode. -/
theorem Attribute.isValid_assign_of_assignUncoerced (a : Attribute) (v : Value)
    (h : (a.assignUncoerced v).isValid = true) :
    ((bind a.descriptor).assign v).isValid = true ∧
      ∀ mode, ((bind a.descriptor).assign v).render mode = (a.assignUncoerced v).render mode := by
  have hcontent : Content.Replaces a.descriptor (.ofValue false a.descriptor v)
      (.ofValue true a.descriptor v) := Content.replaces_ofValue a.descriptor (isValid_iff.1 h).2
  have hreplaces : (a.assignUncoerced v).Replaces ((bind a.descriptor).assign v) := by
    refine replaces ?_ h ?_
    · simp [assign, assignUncoerced]
    · simpa [assign, assignUncoerced] using hcontent
  exact ⟨hreplaces.valid, hreplaces.shown⟩

/-- Pictures with octets, an integer among decimals, and null for several tags. -/
theorem Attribute.isValid_assign_photos :
    let photo : Descriptor := { (((Descriptor.new "photos" .complex).addSub
      { Descriptor.new "value" .binary with required := true }).addSub (.new "scale" .decimal)).addSub
        { Descriptor.new "tags" .string with multiValued := true, mutability := .writeOnly } with
      multiValued := true }
    let v : Value := .list [.map [("Value", .binary [104, 105]), ("scale", .integer 2),
      ("tags", .null)], .null]
    let shown := Json.array [.object [("scale", .decimal ⟨.ofInt 2, by decide⟩),
      ("value", .string "aGk=")], .null]
    ((bind photo).assignUncoerced v).isValid = true ∧ ((bind photo).assign v).isValid = true ∧
      ((bind photo).assignUncoerced v).render .client = some shown ∧
      ((bind photo).assign v).render .client = some shown := by
  intro photo v shown
  have hvalid : ((bind photo).assignUncoerced v).isValid = true := by decide
  have hshown : ((bind photo).assignUncoerced v).render .client = some shown := by rfl
  obtain ⟨hassign, hrender⟩ := isValid_assign_of_assignUncoerced (bind photo) v hvalid
  rw [descriptor_bind] at hassign hrender
  exact ⟨hvalid, hassign, hshown, (hrender .client).trans hshown⟩

end Scim
