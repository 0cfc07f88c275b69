import Scim.Proofs.Attribute.Visibility
import Scim.Proofs.Time.RoundTrip

/-!
# Assigning what is shown

`Descriptor.Settles d j`: an attribute of `d` shows `j` again when `j` is assigned to it. What an
attribute shows to a server settles (`Content.Shaped.settles`), if no two sub-attributes have one name
and all that is kept as a whole came from documents. For one value this is `DataType.reread`: a value
that was coerced is rendered, read and coerced to the same rendering.
-/

set_option autoImplicit false

namespace Scim

/-! ## One value -/

/-- Neither null nor a list, which stand for several values. -/
def Value.IsSingle (v : Value) : Prop :=
  v ≠ .null ∧ ∀ items, v ≠ .list items

theorem Value.isSingle_of_ofJson {v : Value} (h : ofJson v.toJson = v) (hv : v.IsSingle) :
    (ofJson v.toJson).IsSingle :=
  h.symm ▸ hv

namespace DataType

variable {datatype : DataType} {j : Json}

/-- A value is rendered as it is, but for truth values in text and for integers among decimals. -/
theorem renderScalar_cases (datatype : DataType) (v : Value) :
    (datatype = .boolean ∧ ∃ b, datatype.renderScalar v = .bool b) ∨
      (datatype = .decimal ∧ ∃ n, v = .integer n ∧
        datatype.renderScalar v = .ofBinary64 (.ofInt n.toInt)) ∨
      datatype.renderScalar v = v.toJson := by
  unfold renderScalar
  split
  · split
    · exact .inl ⟨rfl, _, rfl⟩
    · exact .inr (.inr rfl)
  · exact .inr (.inl ⟨rfl, _, rfl, rfl⟩)
  · exact .inr (.inr rfl)

/-- A word is finite among decimals. -/
theorem isFinite_ofInt_toInt (n : Int64) : (Binary64.ofInt n.toInt).isFinite = true := by
  have hlow := n.le_toInt
  have hhigh := n.toInt_lt
  exact Binary64.isFinite_ofInt hlow (by omega)

/-- Elements that are not coerced: rendering them again changes nothing. -/
theorem rerender (datatype : DataType) (hj : j.Words) :
    datatype.renderScalar (.ofJson (datatype.renderScalar (.ofJson j))) =
      datatype.renderScalar (.ofJson j) := by
  rcases renderScalar_cases datatype (.ofJson j) with ⟨rfl, b, h⟩ | ⟨rfl, n, -, h⟩ | h
  · rw [h]
    rfl
  · rw [h, Json.Words.ofBinary64_finite (isFinite_ofInt_toInt n)]
    show (Value.decimal _).toJson = _
    rw [Value.toJson, Json.Words.ofBinary64_finite (isFinite_ofInt_toInt n)]
  · conv => lhs; rw [h, hj.ofJson_toJson]

theorem ofJson_toJson_text (s : String) : Value.ofJson (Value.text s).toJson = .text s := rfl

theorem isFinite_of_finite? {s : String} {x : Binary64} (h : Value.finite? s = some x) :
    x.isFinite = true := by
  unfold Value.finite? at h
  split at h
  · split at h
    · cases h
      assumption
    · cases h
  · cases h

/-- Coercion reads a date-time, or it is final: its result is the value of a document and is not
coerced any further. -/
theorem coerce_cases (datatype : DataType) (hj : j.Words) :
    (∃ s t, datatype = .dateTime ∧ Time.DateTime.ofText? s = some t ∧
        datatype.coerce (.ofJson j) = .dateTime t) ∨
      (Value.ofJson (datatype.coerce (.ofJson j)).toJson = datatype.coerce (.ofJson j) ∧
        datatype.coerce (datatype.coerce (.ofJson j)) = datatype.coerce (.ofJson j)) := by
  have hv := hj.ofJson_toJson
  generalize Value.ofJson j = v at hv
  cases datatype with
  | dateTime =>
    cases v with
    | text s =>
      cases hs : Time.DateTime.ofText? s with
      | none => exact .inr (by simp [coerce, Value.toDateTime, hs, ofJson_toJson_text])
      | some t => exact .inl ⟨s, t, rfl, hs, by simp [coerce, Value.toDateTime, hs]⟩
    | _ => exact .inr ⟨hv, rfl⟩
  | string => cases v <;> first | exact .inr ⟨hv, rfl⟩ | exact .inr ⟨rfl, rfl⟩
  | boolean => exact .inr ⟨hv, rfl⟩
  | reference => exact .inr ⟨hv, rfl⟩
  | complex => exact .inr ⟨hv, rfl⟩
  | binary => cases v <;> first | exact .inr ⟨hv, rfl⟩ | exact .inr ⟨rfl, rfl⟩
  | decimal =>
    cases v with
    | integer n => exact .inr ⟨Json.Words.ofJson_toJson_decimal (isFinite_ofInt_toInt n), rfl⟩
    | text s =>
      cases hs : Value.finite? s with
      | none => exact .inr (by simp [coerce, Value.toDecimal, hs, ofJson_toJson_text])
      | some x =>
        refine .inr ?_
        simp [coerce, Value.toDecimal, hs, Json.Words.ofJson_toJson_decimal (isFinite_of_finite? hs)]
    | _ => exact .inr ⟨hv, rfl⟩
  | integer =>
    cases v with
    | decimal x =>
      cases hx : x.toInt64? with
      | none => exact .inr (by simp [coerce, Value.toInteger, hx, hv])
      | some n => exact .inr (by simp [coerce, Value.toInteger, hx, Json.Words.ofJson_toJson_integer])
    | text s =>
      cases hs : Value.integerOfText? s with
      | none => exact .inr (by simp [coerce, Value.toInteger, hs, ofJson_toJson_text])
      | some n => exact .inr (by simp [coerce, Value.toInteger, hs, Json.Words.ofJson_toJson_integer])
    | _ => exact .inr ⟨hv, rfl⟩

theorem coerce_null (datatype : DataType) : datatype.coerce .null = .null := by
  cases datatype <;> rfl

theorem isSingle_coerce {v : Value} (h : v.IsSingle) : (datatype.coerce v).IsSingle := by
  obtain ⟨hnull, hlist⟩ := h
  cases datatype <;> cases v <;>
    simp_all [coerce, Value.IsSingle, Value.toText, Value.toDecimal, Value.toInteger,
      Value.toDateTime, Value.toBinary, Value.ofChars]
  all_goals split <;> simp

/-- **A coerced value is rendered, read and coerced to the same rendering**, and one value stays one. -/
theorem reread (datatype : DataType) (hj : j.Words) :
    datatype.renderScalar (datatype.coerce (.ofJson
        (datatype.renderScalar (datatype.coerce (.ofJson j))))) =
      datatype.renderScalar (datatype.coerce (.ofJson j)) ∧
    ((Value.ofJson j).IsSingle →
      (Value.ofJson (datatype.renderScalar (datatype.coerce (.ofJson j)))).IsSingle) := by
  rcases coerce_cases datatype hj with ⟨s, t, rfl, hs, h⟩ | ⟨hread, hcoerce⟩
  · have hshown : dateTime.renderScalar (.dateTime t) = .string (String.ofList t.text) := rfl
    have hagain : dateTime.coerce (.text (String.ofList t.text)) = .dateTime t := by
      simp only [coerce, Value.toDateTime, Time.DateTime.ofText?_text hs]
    rw [h, hshown, Value.ofJson, hagain, hshown]
    exact ⟨rfl, fun _ => by simp [Value.IsSingle]⟩
  · have hsingle := Value.isSingle_of_ofJson hread
    have hkept (h : (Value.ofJson j).IsSingle) := @isSingle_coerce datatype _ h
    generalize datatype.coerce (.ofJson j) = u at hread hcoerce hsingle hkept
    rcases renderScalar_cases datatype u with ⟨rfl, b, h⟩ | ⟨rfl, n, rfl, -⟩ | h
    · rw [h]
      exact ⟨rfl, fun _ => by simp [Value.ofJson, Value.IsSingle]⟩
    · cases hcoerce
    · rw [h]
      refine ⟨?_, fun hs => hsingle (hkept hs)⟩
      rw [hread, hcoerce, h]

end DataType

/-! ## Values that are kept as a whole -/

namespace Descriptor

variable {d : Descriptor} {j : Json}

/-- The document is shown again by an attribute to which it is assigned. -/
def Settles (d : Descriptor) (j : Json) : Prop :=
  (Content.ofValue true d (.ofJson j)).render .server d = j

theorem coerce_single {v : Value} (h : v.IsSingle) : d.coerce v = d.datatype.coerce v := by
  obtain ⟨hnull, hlist⟩ := h
  unfold coerce
  split
  · exact absurd rfl hnull
  · exact absurd rfl (hlist _)
  · rfl

theorem renderValue_single {v : Value} (h : v.IsSingle) :
    d.renderValue v = d.datatype.renderScalar v := by
  obtain ⟨hnull, hlist⟩ := h
  unfold renderValue
  split
  · exact absurd rfl hnull
  · exact absurd rfl (hlist _)
  · rfl

/-- The shapes of the value of a document: null, a list, or a single value. -/
theorem shape_ofJson (j : Json) :
    j = .null ∨ (∃ items, j = .array items) ∨ (Value.ofJson j).IsSingle := by
  cases j with
  | null => exact .inl rfl
  | array items => exact .inr (.inl ⟨items, rfl⟩)
  | integer n =>
    refine .inr (.inr ?_)
    rw [Value.ofJson]
    split <;> simp [Value.IsSingle]
  | _ => exact .inr (.inr (by simp [Value.IsSingle, Value.ofJson]))

theorem settles_iff_simple (h : d.isComplex = false) :
    d.Settles j ↔ d.renderValue (d.coerce (.ofJson j)) = j := by
  rw [Settles, Content.ofValue_simple h, Content.render]
  rfl

theorem ofJson_array (items : List Json) :
    Value.ofJson (.array items) = .list (items.map Value.ofJson) := by
  rw [Value.ofJson, Value.ofJsonAll_eq]

theorem renderValue_list (values : List Value) :
    d.renderValue (.list values) = .array (values.map d.datatype.renderScalar) := rfl

theorem settles_simple (h : d.isComplex = false) (hj : j.Words) :
    d.Settles (d.renderValue (d.coerce (.ofJson j))) := by
  rw [settles_iff_simple h]
  rcases shape_ofJson j with rfl | ⟨items, rfl⟩ | hsingle
  · cases hm : d.multiValued with
    | true => simp [coerce, renderValue, Value.ofJson, Value.ofJsonAll, hm]
    | false => simp [coerce, renderValue, Value.ofJson, hm, DataType.coerce_null]
  · have hitems : ∀ j ∈ items, j.Words := by
      cases hj with
      | array h => exact h
    rw [ofJson_array]
    cases hm : d.multiValued with
    | true =>
      simp only [coerce, hm, renderValue_list, ofJson_array, List.map_map]
      congr 1
      exact List.map_congr_left fun j hj => (DataType.reread d.datatype (hitems j hj)).1
    | false =>
      -- where one value is declared, the elements of a list are not coerced
      have hlist (values : List Value) : d.coerce (.list values) = .list values := by
        unfold coerce
        rw [hm]
        cases d.datatype <;> rfl
      simp only [hlist, renderValue_list, ofJson_array, List.map_map]
      congr 1
      exact List.map_congr_left fun j hj => DataType.rerender d.datatype (hitems j hj)
  · obtain ⟨hrender, hkept⟩ := DataType.reread d.datatype hj
    have hkept := hkept hsingle
    have hcoerced := @DataType.isSingle_coerce d.datatype _ hsingle
    rw [coerce_single hsingle, renderValue_single hcoerced, coerce_single hkept,
      renderValue_single (DataType.isSingle_coerce hkept), hrender]

theorem settles_refused (h : d.isComplex = true) (hj : j.Words) (hr : d.Refuses (.ofJson j)) :
    d.Settles (d.renderValue (.ofJson j)) := by
  rw [renderValue_refused h hr, Settles, hj.ofJson_toJson, Content.ofValue_refused h hr,
    Content.render, renderValue_refused h hr]

end Descriptor

/-- What comes from documents: as a whole it settles, and as an element it is read as it was. -/
def Kept.settled : Kept where
  whole d v := d.Settles (d.renderValue v)
  element _ v := (∀ entries, v ≠ .map entries) ∧ Value.ofJson v.toJson = v
  fresh d h := by
    rw [Descriptor.settles_iff_simple h]
    cases hm : d.multiValued with
    | true => simp [Descriptor.coerce, Descriptor.renderValue, Value.ofJson, Value.ofJsonAll, hm]
    | false => simp [Descriptor.coerce, Descriptor.renderValue, Value.ofJson, hm, DataType.coerce_null]

theorem Kept.Takes.settled : Kept.settled.Takes true fun v => ∃ j : Json, j.Words ∧ v = .ofJson j where
  simple := by
    rintro d _ h ⟨j, hj, rfl⟩
    exact Descriptor.settles_simple h hj
  refused := by
    rintro d _ h hr ⟨j, hj, rfl⟩
    exact Descriptor.settles_refused h hj hr
  element := by
    rintro _ _ h ⟨j, hj, rfl⟩
    exact ⟨h, hj.ofJson_toJson⟩
  ofItem := by
    rintro values ⟨j, hj, h⟩ v hv
    obtain ⟨items, rfl, rfl⟩ := Value.ofJson_eq_list_iff.1 h.symm
    obtain ⟨j, hm, rfl⟩ := List.mem_map.1 hv
    cases hj with
    | array hitems => exact ⟨j, hitems j hm, rfl⟩
  ofMember := by
    rintro entries ⟨j, hj, h⟩ e he
    obtain ⟨members, rfl, rfl⟩ := Value.ofJson_eq_map_iff.1 h.symm
    obtain ⟨m, hm, rfl⟩ := List.mem_map.1 he
    cases hj with
    | object hmembers => exact ⟨m.2, hmembers m hm, rfl⟩

/-! ## Objects -/

/-- No two sub-attributes have one name, at any level. -/
inductive Descriptor.Distinct : Descriptor → Prop
  | intro {d : Descriptor} : d.names.Nodup → (∀ sub ∈ d.subAttributes, Distinct sub) → Distinct d

theorem Content.ofValue_ofJson_null (d : Descriptor) :
    Content.ofValue true d (.ofJson .null) = .empty d := by
  cases hc : d.isComplex with
  | true => exact Content.ofValue_null hc
  | false =>
    rw [Content.ofValue_simple hc, Content.empty_simple hc]
    cases hm : d.multiValued <;> simp [Descriptor.coerce, Value.ofJson, hm, DataType.coerce_null]

namespace Attribute

/-- What an attribute adds to the object in which it is. -/
def member? (mode : Mode) (a : Attribute) : Option (String × Json) :=
  (a.render mode).bind fun j => if j.isNull then none else some (a.name, j)

theorem members_eq (mode : Mode) (attributes : List Attribute) :
    members mode attributes = attributes.filterMap (member? mode) := by
  induction attributes with
  | nil => rfl
  | cons a attributes ih =>
    rw [members, List.filterMap_cons, member?]
    cases a.render mode with
    | none => exact ih
    | some j => cases h : j.isNull <;> simp [h, ih]

theorem name_of_member? {mode : Mode} {a : Attribute} {m : String × Json}
    (h : a.member? mode = some m) : m.1 = a.name := by
  obtain ⟨j, -, h⟩ := Option.bind_eq_some_iff.1 h
  split at h
  · cases h
  · cases h
    rfl

/-- What an attribute shows, under its own name. -/
def shown? (a : Attribute) : Option Json :=
  (a.member? .server).map Prod.snd

/-- An attribute that is assigned what it shows, or nothing where it shows nothing. -/
def again (a : Attribute) : Attribute :=
  a.shown?.elim (.bind a.descriptor) fun j => (Attribute.bind a.descriptor).store true (.ofJson j)

@[simp] theorem descriptor_again (a : Attribute) : a.again.descriptor = a.descriptor := by
  rw [again]
  cases a.shown? with
  | none => exact descriptor_bind _
  | some j => exact descriptor_bind _

/-- It adds to its object what it added before. -/
theorem member?_again {a : Attribute}
    (h : a.descriptor.Settles (a.content.render .server a.descriptor)) :
    a.again.member? .server = a.member? .server := by
  cases hh : a.descriptor.isHidden .server with
  | true => simp [member?, render_server, hh]
  | false =>
    obtain ⟨j, hj⟩ : ∃ j, j = a.content.render .server a.descriptor := ⟨_, rfl⟩
    have hmember : a.member? .server = if j.isNull then none else some (a.name, j) := by
      simp [member?, render_server, hh, hj]
    have hagain : a.again.member? .server =
        if (a.again.content.render .server a.descriptor).isNull then none
        else some (a.name, a.again.content.render .server a.descriptor) := by
      simp [member?, render_server, hh, Attribute.name]
    have hrender : a.again.content.render .server a.descriptor = j := by
      rw [← hj] at h
      cases hnull : j.isNull with
      | true =>
        obtain rfl := Json.isNull_iff.1 hnull
        have hagain : a.again = .bind a.descriptor := by simp [again, shown?, hmember, Json.isNull]
        rw [hagain, content_bind, ← Content.ofValue_ofJson_null]
        exact h
      | false =>
        have hagain : a.again = (Attribute.bind a.descriptor).store true (.ofJson j) := by
          simp [again, shown?, hmember, hnull]
        rw [hagain, content_store, descriptor_bind]
        exact h
    rw [hagain, hmember, hrender]

theorem members_again {attributes : List Attribute}
    (h : ∀ a ∈ attributes, a.descriptor.Settles (a.content.render .server a.descriptor)) :
    members .server (attributes.map again) = members .server attributes := by
  rw [members_eq, members_eq]
  induction attributes with
  | nil => rfl
  | cons a attributes ih =>
    rw [List.map_cons, List.filterMap_cons, List.filterMap_cons, member?_again (h a List.mem_cons_self),
      ih fun b hb => h b (List.mem_cons_of_mem _ hb)]

theorem nodup_members (mode : Mode) {attributes : List Attribute}
    (h : (attributes.map name).Nodup) : ((members mode attributes).map Prod.fst).Nodup := by
  rw [members_eq, List.Nodup, List.pairwise_map, List.pairwise_filterMap]
  rw [List.Nodup, List.pairwise_map] at h
  refine h.imp fun hne m hm m' hm' => ?_
  rwa [name_of_member? hm, name_of_member? hm']

/-- Among the members of an object stands what the attribute adds to it. -/
theorem get?_members {mode : Mode} {attributes : List Attribute} (h : (attributes.map name).Nodup)
    {a : Attribute} (ha : a ∈ attributes) :
    Entries.get? (members mode attributes) a.name = (a.member? mode).map Prod.snd := by
  induction attributes with
  | nil => cases ha
  | cons b attributes ih =>
    rw [List.map_cons, List.nodup_cons] at h
    have hkeys {name : String} (hname : name ∉ attributes.map Attribute.name) :
        Entries.get? (members mode attributes) name = none := by
      refine Entries.get?_eq_none fun hk => hname ?_
      obtain ⟨m, hm, rfl⟩ := List.mem_map.1 hk
      obtain ⟨x, hx, hxm, -⟩ := mem_members hm
      exact List.mem_map.2 ⟨x, hx, hxm⟩
    rw [members_eq, List.filterMap_cons, ← members_eq]
    rcases List.mem_cons.1 ha with rfl | ha
    · cases hm : a.member? mode with
      | none => exact hkeys h.1
      | some m =>
        rw [Entries.get?_cons, if_pos (name_of_member? hm).symm]
        rfl
    · cases hm : b.member? mode with
      | none => exact ih h.2 ha
      | some m =>
        have hne : a.name ≠ m.1 := by
          rw [name_of_member? hm]
          intro he
          exact h.1 (he ▸ List.mem_map_of_mem ha)
        show Entries.get? ((m.1, m.2) :: members mode attributes) a.name = _
        rw [Entries.get?_cons, if_neg hne]
        exact ih h.2 ha

end Attribute

/-- Where no name stands twice, an entry goes to the place of its key. -/
theorem routed?_eq_get? {names : List String} (hn : names.Nodup) {entries : List (String × Value)}
    (hkeys : ∀ e ∈ entries, e.1 ∈ names) (hd : (entries.map Prod.fst).Nodup) {i : Nat}
    {name : String} (hi : names[i]? = some name) :
    routed? names i entries = Entries.get? entries name := by
  induction entries with
  | nil => rfl
  | cons e entries ih =>
    rw [List.map_cons, List.nodup_cons] at hd
    have ih := ih (fun e' he' => hkeys e' (List.mem_cons_of_mem _ he')) hd.2
    show (routed? names i entries).or _ = Entries.get? ((e.1, e.2) :: entries) name
    rw [ih, Entries.get?_cons]
    obtain ⟨k, hk⟩ := List.mem_iff_getElem?.1 (hkeys e List.mem_cons_self)
    have hplace := placeOf?_of_nodup hn hk
    by_cases he : name = e.1
    · have hik : placeOf? names e.1 = some i := placeOf?_of_nodup hn (he ▸ hi)
      rw [if_pos he, he, Entries.get?_eq_none hd.1, hik, if_pos rfl]
      rfl
    · have hik : ¬ k = i := by
        rintro rfl
        exact he (Option.some.inj (hi.symm.trans hk))
      rw [if_neg he, hplace, if_neg (fun h => hik (Option.some.inj h)), Option.or_none]

namespace Composite

variable {d : Descriptor} {c : Composite}

/-- Members of an object under names of sub-attributes, no name twice, go each to the sub-attribute of
its name. -/
theorem attributes_route_named (hn : d.names.Nodup)
    (hd : c.attributes.map Attribute.descriptor = d.subAttributes) {entries : List (String × Value)}
    (hkeys : ∀ e ∈ entries, e.1 ∈ d.names) (hentries : (entries.map Prod.fst).Nodup) :
    (route true (bind d) entries).attributes = c.attributes.map fun a =>
      (Entries.get? entries a.name).elim (.bind a.descriptor) fun v =>
        (Attribute.bind a.descriptor).store true v := by
  apply List.ext_getElem?
  intro i
  rw [getElem?_route_bind, ← hd, List.getElem?_map, List.getElem?_map]
  cases ha : c.attributes[i]? with
  | none => rfl
  | some a =>
    have hi : d.names[i]? = some a.name := by
      rw [← names_of_descriptors hd, names, List.getElem?_map, ha]
      rfl
    rw [routed?_eq_get? hn hkeys hentries hi]
    rfl

/-- The object that is shown goes back to the sub-attributes, each of which is assigned what it
shows. -/
theorem attributes_again (hn : d.names.Nodup)
    (hd : c.attributes.map Attribute.descriptor = d.subAttributes) {members : List (String × Json)}
    (h : c.render .server = .object members) :
    (route true (bind d) (Value.ofJsonMembers members)).attributes =
      c.attributes.map Attribute.again := by
  have hnames : c.attributes.map Attribute.name = d.names := names_of_descriptors hd
  have hmembers : members = Entries.ofList (Attribute.members .server c.attributes) := by
    rw [render_eq, Json.map, Json.object.injEq] at h
    exact h.symm
  have hshown := Attribute.nodup_members .server (hnames ▸ hn)
  have hkeys : ∀ e ∈ Value.ofJsonMembers members, e.1 ∈ d.names := by
    intro e he
    rw [Value.ofJsonMembers_eq] at he
    obtain ⟨m, hm, rfl⟩ := List.mem_map.1 he
    rw [hmembers] at hm
    obtain ⟨a, ha, hname, -⟩ := Attribute.mem_members (Entries.mem_of_mem_ofList hm)
    exact hnames ▸ List.mem_map.2 ⟨a, ha, hname⟩
  have hentries : ((Value.ofJsonMembers members).map Prod.fst).Nodup := by
    rw [Value.ofJsonMembers_eq, List.map_map]
    exact hmembers ▸ (Entries.ascending_ofList _).nodup
  rw [attributes_route_named hn hd hkeys hentries]
  refine List.map_congr_left fun a ha => ?_
  have hget : Entries.get? (Value.ofJsonMembers members) a.name = a.shown?.map Value.ofJson := by
    rw [Value.ofJsonMembers_eq, Entries.get?_map, hmembers, Entries.get?_ofList hshown,
      Attribute.get?_members (hnames ▸ hn) ha]
    rfl
  rw [hget, Attribute.again]
  cases a.shown? <;> rfl

theorem render_again (hn : d.names.Nodup)
    (hd : c.attributes.map Attribute.descriptor = d.subAttributes)
    (hs : ∀ a ∈ c.attributes, a.descriptor.Settles (a.content.render .server a.descriptor))
    {members : List (String × Json)} (h : c.render .server = .object members) :
    (route true (bind d) (Value.ofJsonMembers members)).render .server = .object members := by
  rw [render_eq, attributes_again hn hd h, Attribute.members_again hs, ← render_eq, h]

end Composite

theorem Composite.exists_members (mode : Mode) (c : Composite) :
    ∃ members, c.render mode = .object members := by
  obtain ⟨attributes, undeclared⟩ := c
  exact ⟨_, rfl⟩

/-- An element of a list is shown again, an object or another. -/
theorem Item.render_again {d : Descriptor} {item : Item} (hn : d.names.Nodup)
    (hd : ∀ c, item = .object c → c.attributes.map Attribute.descriptor = d.subAttributes)
    (hs : ∀ c, item = .object c → ∀ a ∈ c.attributes,
      a.descriptor.Settles (a.content.render .server a.descriptor))
    (hother : ∀ v, item = .other v → (∀ entries, v ≠ .map entries) ∧ Value.ofJson v.toJson = v) :
    (ofValue true d (.ofJson (item.render .server))).render .server = item.render .server := by
  cases item with
  | object c =>
    obtain ⟨members, hmembers⟩ := c.exists_members .server
    have hagain := Composite.render_again hn (hd c rfl) (hs c rfl) hmembers
    simp only [render, hmembers, Value.ofJson, ofValue, hagain]
  | other v =>
    obtain ⟨hmap, hread⟩ := hother v rfl
    simp only [render, hread, ofValue_other hmap]

/-! ## Main result -/

/-- **What an attribute shows settles**: assigned to a new attribute it is shown again, whatever the
attribute holds. -/
theorem Content.Shaped.settles {d : Descriptor} {content : Content} (h : content.Shaped .settled d)
    (hd : d.Distinct) : d.Settles (content.render .server d) := by
  induction h with
  | plain hv => exact hv
  | @object d c hc hm hdescriptors _ _ ih =>
    cases hd with
    | intro hn hsubs =>
      obtain ⟨members, hmembers⟩ := c.exists_members .server
      have hsub (a : Attribute) (ha : a ∈ c.attributes) :
          a.descriptor.Settles (a.content.render .server a.descriptor) :=
        ih a ha (hsubs _ (hdescriptors ▸ List.mem_map_of_mem ha))
      show d.Settles (c.render .server)
      rw [hmembers, Descriptor.Settles, Value.ofJson, Content.ofValue_object hc hm]
      exact Composite.render_again hn hdescriptors hsub hmembers
  | @items d items hc hm hdescriptors _ helement _ ih =>
    cases hd with
    | intro hn hsubs =>
      show d.Settles (.array (Item.renderAll .server items))
      rw [Descriptor.Settles, Descriptor.ofJson_array, Content.ofValue_items hc hm, Content.render,
        Item.renderAll_eq, Item.renderAll_eq, List.map_map, List.map_map, List.map_map]
      congr 1
      refine List.map_congr_left fun item hitem => Item.render_again hn ?_ ?_ ?_
      · rintro c rfl
        exact hdescriptors c hitem
      · rintro c rfl a ha
        exact ih c hitem a ha (hsubs _ (hdescriptors c hitem ▸ List.mem_map_of_mem ha))
      · rintro v rfl
        exact helement v hitem

end Scim
