import Scim.Proofs.Attribute.Acceptance
import Scim.Proofs.Attribute.Output

/-!
# Values that are shown

`Attribute.StoresAt mode a path d v`: the value `v` stands at a place of `a`, in an attribute of `d`, and
nothing on the way to it is hidden. The place is said as a path into the document that `a` shows, so that
what has become of the value can be looked up there (`Attribute.shownAt?`).

Of all values but null only decimals that are not finite are written as null
(`DataType.renderScalar_eq_null_iff`), and these have no problem among decimals only
(`Descriptor.datatype_of_nonFinite`). So an attribute without problems shows all else that it stores,
wherever it stands (`Attribute.StoresAt.shown`).
-/

set_option autoImplicit false

namespace Scim

/-! ## Places in documents -/

inductive Json.Step where
  | member (name : String)
  | element (i : Nat)

/-- What stands in a document at the end of a path. -/
def Json.at? : List Step → Json → Option Json
  | [], j => some j
  | .member name :: path, .object members => (Entries.get? members name).bind (at? path)
  | .element i :: path, .array items => items[i]?.bind (at? path)
  | _, _ => none

/-- Null holds nothing but itself. -/
theorem Json.ne_null_of_at? {path : List Step} {root j : Json} (h : root.at? path = some j)
    (hj : j ≠ .null) : root ≠ .null := by
  rintro rfl
  cases path with
  | nil => exact hj (Option.some.inj h).symm
  | cons step path => cases step <;> simp [at?] at h

/-! ## Scalars that are written as null -/

/-- An infinity or no number at all. -/
def Value.NonFinite (v : Value) : Prop :=
  ∃ x : Binary64, v = .decimal x ∧ x.isFinite = false

theorem Json.ofBinary64_eq_null_iff {x : Binary64} :
    Json.ofBinary64 x = .null ↔ x.isFinite = false := by
  unfold Json.ofBinary64
  split <;> simp_all

theorem Value.toJson_eq_null_iff {v : Value} : v.toJson = .null ↔ v = .null ∨ v.NonFinite := by
  cases v <;> simp [toJson, NonFinite, Json.ofBinary64_eq_null_iff]

theorem DataType.renderScalar_eq_null_iff {datatype : DataType} {v : Value} :
    datatype.renderScalar v = .null ↔ v = .null ∨ v.NonFinite := by
  rcases datatype.renderScalar_cases v with ⟨rfl, b, h⟩ | ⟨-, n, rfl, h⟩ | h
  · -- a truth value is written as one, also where it is kept as text
    have hfinite : Value.toJson v ≠ .null := by
      intro hnull
      rcases Value.toJson_eq_null_iff.1 hnull with rfl | ⟨x, rfl, -⟩ <;>
        simp_all [renderScalar, Value.toJson]
    rw [← Value.toJson_eq_null_iff, h]
    exact iff_of_false (by simp) hfinite
  · rw [h, Json.Words.ofBinary64_finite (isFinite_ofInt_toInt n)]
    simp [Value.NonFinite]
  · rw [h, Value.toJson_eq_null_iff]

/-- A decimal that is not finite is accepted among decimals only. -/
theorem Descriptor.datatype_of_nonFinite {d : Descriptor} {v : Value} (h : d.checkScalar v = none)
    (hv : v.NonFinite) : d.datatype = .decimal := by
  obtain ⟨x, rfl, -⟩ := hv
  rcases checkScalar_eq_none_iff.1 h with h | h
  · cases h
  · unfold Matches at h
    generalize d.datatype = datatype at h
    cases datatype <;> simp_all

/-! ## Values at their places -/

/-- A sub-attribute behind which none of the same name shows, so that its member is not replaced. -/
def Composite.Prevails (mode : Mode) (c : Composite) (a : Attribute) : Prop :=
  ∃ before after, c.attributes = before ++ a :: after ∧
    ∀ b ∈ after, b.name = a.name → b.member? mode = none

namespace Attribute

variable {mode : Mode}

/-- A value of an attribute that shows: the only one, an element of a list, or one of a sub-attribute
that shows in the object in which it is. -/
inductive StoresAt (mode : Mode) : Attribute → List Json.Step → Descriptor → Value → Prop
  | single {a : Attribute} {v : Value} : a.isVisible mode = true → a.content = .plain v →
      v.IsSingle → StoresAt mode a [] a.descriptor v
  | listed {a : Attribute} {values : List Value} {i : Nat} {v : Value} : a.isVisible mode = true →
      a.content = .plain (.list values) → values[i]? = some v →
      StoresAt mode a [.element i] a.descriptor v
  | other {a : Attribute} {items : List Item} {i : Nat} {v : Value} : a.isVisible mode = true →
      a.content = .items items → items[i]? = some (.other v) →
      StoresAt mode a [.element i] a.descriptor v
  | object {a b : Attribute} {c : Composite} {path : List Json.Step} {d : Descriptor} {v : Value} :
      a.isVisible mode = true → a.content = .object c → c.Prevails mode b →
      StoresAt mode b path d v → StoresAt mode a (.member b.name :: path) d v
  | item {a b : Attribute} {c : Composite} {items : List Item} {i : Nat} {path : List Json.Step}
      {d : Descriptor} {v : Value} : a.isVisible mode = true → a.content = .items items →
      items[i]? = some (.object c) → c.Prevails mode b → StoresAt mode b path d v →
      StoresAt mode a (.element i :: .member b.name :: path) d v

/-- What an attribute shows at a place. -/
def shownAt? (mode : Mode) (a : Attribute) (path : List Json.Step) : Option Json :=
  (a.render mode).bind (Json.at? path)

theorem shownAt?_visible {a : Attribute} (h : a.isVisible mode = true) (path : List Json.Step) :
    a.shownAt? mode path = (a.content.render mode a.descriptor).at? path := by
  rw [shownAt?, render_of_isVisible h]
  rfl

/-- What is shown is a member of the object around it, unless it is null. -/
theorem member?_shown {a : Attribute} {j : Json} (h : a.render mode = some j) (hj : j ≠ .null) :
    a.member? mode = some (a.name, j) := by
  simp [member?, h, Json.isNull_eq_false_iff.2 hj]

end Attribute

theorem Composite.Prevails.mem {mode : Mode} {c : Composite} {a : Attribute}
    (h : c.Prevails mode a) : a ∈ c.attributes := by
  obtain ⟨before, after, hsplit, -⟩ := h
  simp [hsplit]

/-- Under the name of a sub-attribute stands what it shows, unless one after it shows. -/
theorem Composite.Prevails.at?_render {mode : Mode} {c : Composite} {a : Attribute}
    (h : c.Prevails mode a) {path : List Json.Step} {j : Json}
    (hj : a.shownAt? mode path = some j) (hnull : j ≠ .null) :
    (c.render mode).at? (.member a.name :: path) = some j := by
  obtain ⟨root, hroot, hat⟩ := Option.bind_eq_some_iff.1 hj
  have hmember : a.member? mode = some (a.name, root) :=
    Attribute.member?_shown hroot (Json.ne_null_of_at? hat hnull)
  obtain ⟨before, after, hsplit, hafter⟩ := h
  have hlast : a.name ∉ (after.filterMap (Attribute.member? mode)).map Prod.fst := by
    intro hname
    obtain ⟨m, hm, hkey⟩ := List.mem_map.1 hname
    obtain ⟨b, hb, hbm⟩ := List.mem_filterMap.1 hm
    have hbname : b.name = a.name := (Attribute.name_of_member? hbm).symm.trans hkey
    rw [hafter b hb hbname] at hbm
    cases hbm
  have hget : Entries.get? (Entries.ofList (Attribute.members mode c.attributes)) a.name =
      some root := by
    rw [Attribute.members_eq, hsplit, List.filterMap_append, List.filterMap_cons, hmember]
    exact Entries.get?_ofList_last _ hlast
  rw [Composite.render_eq, Json.map, Json.at?, hget]
  exact hat

/-! ## Main result -/

namespace Attribute.StoresAt

variable {mode : Mode} {a : Attribute} {path : List Json.Step} {d : Descriptor} {v : Value}

/-- Nothing that stands in a content without problems has one. -/
theorem checkScalar (h : a.StoresAt mode path d v)
    (hcheck : (a.content.check a.descriptor .empty).isEmpty = true) : d.checkScalar v = none := by
  induction h with
  | single _ hcontent hsingle =>
    rw [hcontent, Content.check] at hcheck
    exact ((Descriptor.isEmpty_checkValue_single hsingle).1 hcheck).2
  | listed _ hcontent hi =>
    rw [hcontent, Content.check] at hcheck
    exact (Descriptor.isEmpty_checkValue_list.1 hcheck).2 _ (List.mem_of_getElem? hi)
  | other _ hcontent hi =>
    rw [hcontent, Content.check] at hcheck
    exact (isEmpty_checkAll_items.1 hcheck).2.2 _ (List.mem_of_getElem? hi)
  | object _ hcontent hb _ ih =>
    rw [hcontent, Content.check] at hcheck
    exact ih (isEmpty_check_of_mem hcheck hb.mem)
  | item _ hcontent hi hb _ ih =>
    rw [hcontent, Content.check] at hcheck
    have hobject := (isEmpty_checkAll_items.1 hcheck).2.1 _ (List.mem_of_getElem? hi)
    exact ih (isEmpty_check_of_mem hobject hb.mem)

/-- What is stored is shown at its place, unless it is written as null. -/
theorem shown (h : a.StoresAt mode path d v) (hv : v ≠ .null) (hfinite : ¬ v.NonFinite) :
    ∃ j, a.shownAt? mode path = some j ∧ j ≠ .null := by
  have hscalar (datatype : DataType) : datatype.renderScalar v ≠ .null := by
    simp [DataType.renderScalar_eq_null_iff, hv, hfinite]
  induction h with
  | @single a v hvisible hcontent hsingle =>
    refine ⟨_, ?_, hscalar a.descriptor.datatype⟩
    rw [shownAt?_visible hvisible, hcontent, Content.render,
      Descriptor.renderValue_single hsingle, Json.at?]
  | @listed a values i v hvisible hcontent hi =>
    refine ⟨_, ?_, hscalar a.descriptor.datatype⟩
    rw [shownAt?_visible hvisible, hcontent, Content.render, Descriptor.renderValue_list, Json.at?,
      List.getElem?_map, hi]
    rfl
  | @other a items i v hvisible hcontent hi =>
    have hjson : v.toJson ≠ .null := by simp [Value.toJson_eq_null_iff, hv, hfinite]
    refine ⟨_, ?_, hjson⟩
    rw [shownAt?_visible hvisible, hcontent, Content.render, Item.renderAll_eq, Json.at?,
      List.getElem?_map, hi]
    rfl
  | @object a b c path d v hvisible hcontent hb _ ih =>
    obtain ⟨j, hj, hnull⟩ := ih hv hfinite hscalar
    refine ⟨j, ?_, hnull⟩
    rw [shownAt?_visible hvisible, hcontent, Content.render]
    exact hb.at?_render hj hnull
  | @item a b c items i path d v hvisible hcontent hi hb _ ih =>
    obtain ⟨j, hj, hnull⟩ := ih hv hfinite hscalar
    refine ⟨j, ?_, hnull⟩
    rw [shownAt?_visible hvisible, hcontent, Content.render, Item.renderAll_eq, Json.at?,
      List.getElem?_map, hi]
    exact hb.at?_render hj hnull

/-- **An attribute without problems shows what it stores**, but for decimals that are not finite. -/
theorem shown_of_isValid (h : a.StoresAt mode path d v) (hvalid : a.isValid = true) (hv : v ≠ .null)
    (hfinite : d.datatype = .decimal → ¬ v.NonFinite) :
    ∃ j, a.shownAt? mode path = some j ∧ j ≠ .null := by
  refine h.shown hv fun hn => ?_
  have hscalar := h.checkScalar (isValid_iff.1 hvalid).2
  exact hfinite (Descriptor.datatype_of_nonFinite hscalar hn) hn

end Attribute.StoresAt

end Scim
