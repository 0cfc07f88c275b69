import Mathlib.Data.List.Nodup
import Scim.Proofs.Attribute.Conformance
import Scim.Proofs.Attribute.RoundTrip

/-!
# Reading back

What is read from an attribute settles: a new attribute to which it is assigned reads back the same and
is blank if the first one is (`Attribute.value_assign_value`), provided no two sub-attributes have one
name. Coercion is done once (`Descriptor.coerce_coerce`), and the members of the map that is read from
an object go back to the sub-attributes from which they come (`Composite.attributes_reassigned`). What
does not read back, the keys that are not declared, does not count for being blank.
-/

set_option autoImplicit false

namespace Scim

/-! ## Coercion -/

/-- The result of a coercion is not coerced any further. -/
theorem DataType.coerce_coerce (datatype : DataType) (v : Value) :
    datatype.coerce (datatype.coerce v) = datatype.coerce v := by
  cases datatype with
  | string => cases v <;> rfl
  | decimal =>
    cases v with
    | text s => cases hs : Value.finite? s <;> simp [coerce, Value.toDecimal, hs]
    | _ => rfl
  | integer =>
    cases v with
    | decimal x => cases hx : x.toInt64? <;> simp [coerce, Value.toInteger, hx]
    | text s => cases hs : Value.integerOfText? s <;> simp [coerce, Value.toInteger, hs]
    | _ => rfl
  | dateTime =>
    cases v with
    | text s => cases hs : Time.DateTime.ofText? s <;> simp [coerce, Value.toDateTime, hs]
    | _ => rfl
  | binary => cases v <;> rfl
  | boolean => rfl
  | reference => rfl
  | complex => rfl

namespace Descriptor

variable {d : Descriptor}

theorem coerce_coerce (d : Descriptor) (v : Value) : d.coerce (d.coerce v) = d.coerce v := by
  by_cases hsingle : v.IsSingle
  · rw [coerce_single hsingle, coerce_single (DataType.isSingle_coerce hsingle),
      DataType.coerce_coerce]
  cases hm : d.multiValued with
  | true =>
    cases v with
    | null => simp [coerce, hm]
    | list items => simp [coerce, hm, DataType.coerce_coerce]
    | _ => exact absurd (by simp [Value.IsSingle]) hsingle
  | false =>
    have hcoerce (w : Value) : d.coerce w = d.datatype.coerce w := by simp [coerce, hm]
    rw [hcoerce, hcoerce, DataType.coerce_coerce]

theorem coerce_fresh (d : Descriptor) :
    d.coerce (if d.multiValued then .list [] else .null) = if d.multiValued then .list [] else .null := by
  cases hm : d.multiValued <;> simp [coerce, hm, DataType.coerce_null]

end Descriptor

/-- What assignment leaves: a simple attribute keeps coerced values only. -/
def Kept.coerced : Kept where
  whole d v := (d.isComplex = true → d.Refuses v) ∧ (d.isComplex = false → d.coerce v = v)
  element _ v := ∀ entries, v ≠ .map entries
  fresh d h := ⟨fun hc => absurd hc (by simp [h]), fun _ => d.coerce_fresh⟩

theorem Kept.Takes.coerced : Kept.coerced.Takes true fun _ => True where
  simple d v h _ := ⟨fun hc => absurd hc (by simp [h]), fun _ => d.coerce_coerce v⟩
  refused d v h hr _ := ⟨fun _ => hr, fun hc => absurd h (by simp [hc])⟩
  element _ _ h _ := h
  ofItem _ _ _ _ := trivial
  ofMember _ _ _ _ := trivial

/-! ## What is read -/

namespace Attribute

theorem value_eq (a : Attribute) : a.value = a.content.value := by
  obtain ⟨d, content, report⟩ := a
  rw [value, Attribute.content]

/-- What is read from an attribute as a member of an object; null is left out. -/
def read? (a : Attribute) : Option Value :=
  if a.value.isNull then none else some a.value

theorem entries_eq (attributes : List Attribute) :
    entries attributes = attributes.filterMap fun a => a.read?.map (Prod.mk a.name) := by
  induction attributes with
  | nil => rfl
  | cons a attributes ih =>
    rw [entries, List.filterMap_cons, read?, ih]
    cases a.value.isNull <;> rfl

/-- A new attribute to which is assigned what is read. -/
def reassigned (a : Attribute) : Attribute :=
  (bind a.descriptor).assign a.value

end Attribute

/-- An element of a list; an object is a map here, also if all in it is blank. -/
def Item.value : Item → Value
  | object c => c.value
  | other v => v

theorem Item.values_eq (items : List Item) : values items = items.map value := by
  induction items with
  | nil => rfl
  | cons item items ih => cases item <;> simp [values, value, ih]

theorem Composite.value_eq (c : Composite) :
    c.value = .map (Entries.ofList (Attribute.entries c.attributes)) := by
  obtain ⟨attributes, undeclared⟩ := c
  rfl

/-! ## Members of objects -/

namespace Attribute

variable {attributes : List Attribute}

/-- Where no name stands twice, each attribute finds what it put under its name. -/
theorem get?_ofList_filterMap (h : (attributes.map name).Nodup) (f : Attribute → Option Value)
    {a : Attribute} (ha : a ∈ attributes) :
    Entries.get? (Entries.ofList (attributes.filterMap fun b => (f b).map (Prod.mk b.name))) a.name =
      f a := by
  have hkeys : ((attributes.filterMap fun b => (f b).map (Prod.mk b.name)).map Prod.fst).Nodup := by
    rw [List.Nodup, List.pairwise_map, List.pairwise_filterMap]
    rw [List.Nodup, List.pairwise_map] at h
    refine h.imp fun hne e he e' he' => ?_
    obtain ⟨_, -, rfl⟩ := Option.map_eq_some_iff.1 he
    obtain ⟨_, -, rfl⟩ := Option.map_eq_some_iff.1 he'
    exact hne
  rw [Entries.get?_ofList hkeys]
  cases hf : f a with
  | none =>
    refine Entries.get?_eq_none fun hk => ?_
    obtain ⟨e, he, hname⟩ := List.mem_map.1 hk
    obtain ⟨b, hb, he⟩ := List.mem_filterMap.1 he
    obtain ⟨v, hv, rfl⟩ := Option.map_eq_some_iff.1 he
    obtain rfl : b = a := List.inj_on_of_nodup_map h hb ha hname
    rw [hf] at hv
    cases hv
  | some v =>
    refine (Entries.get?_eq_some_iff hkeys (e := (a.name, v))).2 (List.mem_filterMap.2 ⟨a, ha, ?_⟩)
    rw [hf]
    rfl

theorem store_null (d : Descriptor) : (bind d).store true .null = bind d := by
  have hnull : Content.ofValue true d .null = .empty d := Content.ofValue_ofJson_null d
  rw [bind_eq]
  show mk d (.ofValue true d .null) .empty = mk d (.empty d) .empty
  rw [hnull]

end Attribute

namespace Composite

variable {d : Descriptor} {c : Composite}

/-- The members that are read from an object go back to the sub-attributes from which they come. -/
theorem attributes_reassigned (hn : d.names.Nodup)
    (hd : c.attributes.map Attribute.descriptor = d.subAttributes) :
    (route true (bind d) (Entries.ofList (Attribute.entries c.attributes))).attributes =
      c.attributes.map Attribute.reassigned := by
  have hnames : c.attributes.map Attribute.name = d.names := names_of_descriptors hd
  have hkeys : ∀ e ∈ Entries.ofList (Attribute.entries c.attributes), e.1 ∈ d.names := by
    intro e he
    have he := Entries.mem_of_mem_ofList he
    rw [Attribute.entries_eq] at he
    obtain ⟨a, ha, he⟩ := List.mem_filterMap.1 he
    obtain ⟨_, -, rfl⟩ := Option.map_eq_some_iff.1 he
    exact hnames ▸ List.mem_map_of_mem ha
  rw [attributes_route_named hn hd hkeys (Entries.ascending_ofList _).nodup]
  refine List.map_congr_left fun a ha => ?_
  have hget : Entries.get? (Entries.ofList (Attribute.entries c.attributes)) a.name = a.read? := by
    rw [Attribute.entries_eq]
    exact Attribute.get?_ofList_filterMap (hnames ▸ hn) _ ha
  rw [hget, Attribute.read?, Attribute.reassigned]
  cases hv : a.value with
  | null =>
    show Attribute.bind a.descriptor = (Attribute.bind a.descriptor).store true .null
    rw [Attribute.store_null]
  | _ => rfl

end Composite

/-! ## What reads back -/

/-- The content of an attribute of `d` to which is assigned what is read from a content. -/
def Content.reassigned (d : Descriptor) (content : Content) : Content :=
  .ofValue true d content.value

/-- The same is read again, and it is as blank. -/
structure Content.ReadsBack (d : Descriptor) (content : Content) : Prop where
  value : (content.reassigned d).value = content.value
  blank : (content.reassigned d).isBlank = content.isBlank

namespace Attribute

theorem content_reassigned (a : Attribute) :
    a.reassigned.content = a.content.reassigned a.descriptor := by
  rw [reassigned, assign, content_store, descriptor_bind, value_eq]
  rfl

theorem read?_reassigned {a : Attribute} (h : a.content.ReadsBack a.descriptor) :
    a.reassigned.read?.map (Prod.mk a.reassigned.name) = a.read?.map (Prod.mk a.name) := by
  have hvalue : a.reassigned.value = a.value := by
    rw [value_eq, content_reassigned, h.value, ← value_eq]
  have hname : a.reassigned.name = a.name := by
    simp [reassigned, assign, name]
  rw [read?, read?, hvalue, hname]

end Attribute

namespace Composite

variable {d : Descriptor} {c : Composite}

/-- An object reads back as the map that it was, and is as blank, if each sub-attribute does so. -/
theorem readsBack (hn : d.names.Nodup)
    (hd : c.attributes.map Attribute.descriptor = d.subAttributes)
    (hsubs : ∀ a ∈ c.attributes, a.content.ReadsBack a.descriptor) :
    (route true (bind d) (Entries.ofList (Attribute.entries c.attributes))).value = c.value ∧
      (route true (bind d) (Entries.ofList (Attribute.entries c.attributes))).isBlank =
        c.isBlank := by
  have hattributes := attributes_reassigned hn hd
  constructor
  · rw [value_eq, value_eq, hattributes, Attribute.entries_eq, Attribute.entries_eq,
      List.filterMap_map]
    congr 2
    exact List.filterMap_congr fun a ha => Attribute.read?_reassigned (hsubs a ha)
  · rw [Bool.eq_iff_iff, isBlank_composite, isBlank_composite, hattributes, List.forall_mem_map]
    refine forall₂_congr fun a ha => ?_
    rw [Attribute.content_reassigned, (hsubs a ha).blank]

end Composite

namespace Content

variable {d : Descriptor}

theorem readsBack_plain {v : Value} (hv : Kept.coerced.whole d v) : ReadsBack d (.plain v) := by
  have hkept : reassigned d (.plain v) = .plain v := by
    rw [reassigned, Content.value]
    cases hc : d.isComplex with
    | false => simp [ofValue_simple hc, hv.2 hc]
    | true => exact ofValue_refused hc (hv.1 hc)
  exact ⟨by rw [hkept], by rw [hkept]⟩

/-- An object of which all is blank reads back as null, which leaves a new object. -/
theorem readsBack_object (hc : d.isComplex = true) (hm : d.multiValued = false) (hn : d.names.Nodup)
    {c : Composite} (hd : c.attributes.map Attribute.descriptor = d.subAttributes)
    (hsubs : ∀ a ∈ c.attributes, a.content.ReadsBack a.descriptor) : ReadsBack d (.object c) := by
  cases hblank : c.isBlank with
  | true =>
    have hfresh : (Composite.bind d).isBlank = true := by
      have hempty := isBlank_empty d
      rwa [empty_object hc hm] at hempty
    have hkept : reassigned d (.object c) = .object (.bind d) := by
      rw [reassigned, Content.value, hblank, if_pos rfl, ofValue_null hc, empty_object hc hm]
    constructor
    · rw [hkept, Content.value, Content.value, hblank, hfresh, if_pos rfl, if_pos rfl]
    · rw [hkept, isBlank, isBlank, hblank, hfresh]
  | false =>
    obtain ⟨hvalue, hagain⟩ := Composite.readsBack hn hd hsubs
    have hkept : reassigned d (.object c) =
        .object (.route true (.bind d) (Entries.ofList (Attribute.entries c.attributes))) := by
      rw [reassigned, Content.value, hblank, if_neg (by simp), Composite.value_eq,
        ofValue_object hc hm]
    constructor
    · rw [hkept, Content.value, Content.value, hagain, hvalue]
    · rw [hkept, isBlank, isBlank, hagain]

theorem readsBack_items (hc : d.isComplex = true) (hm : d.multiValued = true) (hn : d.names.Nodup)
    {items : List Item}
    (hd : ∀ c, .object c ∈ items → c.attributes.map Attribute.descriptor = d.subAttributes)
    (hsubs : ∀ c, .object c ∈ items → ∀ a ∈ c.attributes, a.content.ReadsBack a.descriptor)
    (hother : ∀ v, .other v ∈ items → ∀ entries, v ≠ .map entries) :
    ReadsBack d (.items items) := by
  have hkept : reassigned d (.items items) =
      .items (items.map fun item => .ofValue true d item.value) := by
    rw [reassigned, Content.value, Item.values_eq, ofValue_items hc hm, List.map_map]
    rfl
  have hvalue (item : Item) (hitem : item ∈ items) :
      (Item.ofValue true d item.value).value = item.value := by
    cases item with
    | object c =>
      obtain ⟨hvalue, -⟩ := Composite.readsBack hn (hd c hitem) (hsubs c hitem)
      rw [Item.value, Composite.value_eq, Item.ofValue, Item.value, hvalue, Composite.value_eq]
    | other v =>
      rw [Item.value, Item.ofValue_other (hother v hitem), Item.value]
  constructor
  · rw [hkept, Content.value, Content.value, Item.values_eq, Item.values_eq, List.map_map]
    congr 1
    exact List.map_congr_left hvalue
  · rw [hkept, isBlank, isBlank, List.isEmpty_map]

/-- Whatever coerced assignments leave reads back, if no two sub-attributes have one name. -/
theorem Shaped.readsBack {content : Content} (h : content.Shaped .coerced d) (hdistinct : d.Distinct) :
    content.ReadsBack d := by
  induction h with
  | plain hv => exact readsBack_plain hv
  | object hc hm hd _ _ ih =>
    obtain ⟨hn, hdistinct⟩ := hdistinct
    exact readsBack_object hc hm hn hd fun a ha =>
      ih a ha (hdistinct _ (hd ▸ List.mem_map_of_mem ha))
  | items hc hm hd _ hother _ ih =>
    obtain ⟨hn, hdistinct⟩ := hdistinct
    exact readsBack_items hc hm hn hd
      (fun c hmem a ha => ih c hmem a ha (hdistinct _ (hd c hmem ▸ List.mem_map_of_mem ha))) hother

end Content

/-! ## Main result -/

/-- **Reading back and assigning again is a fixed point.** What is read after any assignment is read
again from a new attribute to which it is assigned, and that is blank exactly if the first one is. -/
theorem Attribute.value_assign_value (a : Attribute) (h : a.descriptor.Distinct) (v : Value) :
    ((bind a.descriptor).assign (a.assign v).value).value = (a.assign v).value ∧
      ((bind a.descriptor).assign (a.assign v).value).isBlank = (a.assign v).isBlank := by
  have hshaped : (a.assign v).Shaped .coerced := .store .coerced trivial a
  have hreads : (a.assign v).content.ReadsBack a.descriptor := hshaped.readsBack h
  have hcontent : ((bind a.descriptor).assign (a.assign v).value).content =
      (a.assign v).content.reassigned a.descriptor := (a.assign v).content_reassigned
  rw [value_eq, isBlank_eq, hcontent]
  exact ⟨hreads.value.trans (value_eq _).symm, hreads.blank.trans (isBlank_eq _).symm⟩

/-- Addresses with an unknown key, text for a decimal, no text for another, and an element that is no
object. What is read has no key that is not declared. -/
theorem Attribute.value_assign_value_addresses :
    let address : Descriptor := { (((Descriptor.new "addresses" .complex).addSub
      (.new "street" .string)).addSub { Descriptor.new "tags" .string with multiValued := true }).addSub
        ((Descriptor.new "position" .complex).addSub (.new "latitude" .decimal)) with
      multiValued := true }
    let v : Value := .list [.map [("STREET", .integer 7), ("position", .map [("latitude", .text "1.5")]),
      ("tags", .null), ("zone", .text "x")], .map [("position", .text "here")], .text "home"]
    let w : Value := .list [.map [("position", .map [("latitude", .decimal ⟨0x3FF8000000000000⟩)]),
      ("street", .text "7"), ("tags", .list [])],
      .map [("position", .text "here"), ("tags", .list [])], .text "home"]
    address.Distinct ∧ ((bind address).assign v).value = w ∧ ((bind address).assign w).value = w ∧
      ((bind address).assign w).isBlank = false := by
  intro address v w
  have hdistinct : address.Distinct := by
    have leaf {sub : Descriptor} (h : sub.subAttributes = []) : sub.Distinct :=
      .intro (by simp [Descriptor.names, h]) (by simp [h])
    refine .intro (by decide) fun sub hsub => ?_
    simp only [address, Descriptor.addSub, Descriptor.new, List.nil_append, List.cons_append,
      List.mem_cons, List.not_mem_nil, or_false] at hsub
    rcases hsub with rfl | rfl | rfl
    · exact leaf rfl
    · exact leaf rfl
    · exact .intro (by decide) fun sub hsub => List.mem_singleton.1 hsub ▸ leaf rfl
  have hw : ((bind address).assign v).value = w := by rfl
  obtain ⟨hvalue, hblank⟩ := value_assign_value (bind address) (by simpa using hdistinct) v
  rw [descriptor_bind, hw] at hvalue hblank
  exact ⟨hdistinct, hw, hvalue, hblank⟩

end Scim
