import Scim.Proofs.Attribute.Retention
import Scim.Proofs.Resource.Authenticity

/-!
# Required values in documents

A simple attribute that requires one value has it if it is valid, so a resource shows it in every mode
that does not hide it (`shows_valid`). Two things take its place all the same: null, where the value
is a decimal that is not finite, and the metadata, where the attribute has the name of that.
-/

set_option autoImplicit false

namespace Scim

/-- A simple attribute that requires one value, is without a problem and shows in a mode. -/
structure Attribute.Provides (mode : Mode) (a : Attribute) : Prop where
  simple : a.descriptor.isComplex = false
  single : a.descriptor.multiValued = false
  required : a.descriptor.required = true
  valid : a.isValid = true
  visible : a.isVisible mode = true

namespace Attribute.Provides

variable {mode : Mode} {a : Attribute} {K : Kept}

theorem content_eq (h : a.Provides mode) (hshaped : a.Shaped K) :
    a.content = .plain a.value ∧ a.value.IsSingle := by
  obtain ⟨hrequired, hcheck⟩ := isValid_iff.1 h.valid
  have hblank := hrequired h.required
  obtain ⟨v, hcontent⟩ : ∃ v, a.content = .plain v := by
    have hsimple := h.simple
    obtain ⟨d, content, report⟩ := a
    cases hshaped with
    | plain _ => exact ⟨_, rfl⟩
    | object hc => simp [hc] at hsimple
    | items hc => simp [hc] at hsimple
  have hvalue : a.value = v := by
    obtain ⟨d, content, report⟩ := a
    rw [Attribute.value, show content = .plain v from hcontent, Content.value]
  rw [hvalue]
  refine ⟨hcontent, ?_, ?_⟩
  · rintro rfl
    rw [hcontent] at hblank
    cases hblank
  · rintro items rfl
    rw [hcontent, Content.check, Descriptor.isEmpty_checkValue_list, h.single] at hcheck
    cases hcheck.1

/-- What it holds it adds to the object in which it is. -/
theorem exists_member (h : a.Provides mode) (hshaped : a.Shaped K)
    (hfinite : a.descriptor.datatype = .decimal → ¬ a.value.NonFinite) :
    ∃ j, a.render mode = some j ∧ j ≠ .null ∧ a.member? mode = some (a.name, j) := by
  obtain ⟨hcontent, hsingle⟩ := h.content_eq hshaped
  have hstores : a.StoresAt mode [] a.descriptor a.value := .single h.visible hcontent hsingle
  obtain ⟨j, hj, hnull⟩ := hstores.shown_of_isValid h.valid hsingle.1 hfinite
  obtain ⟨root, hrender, hroot⟩ := Option.bind_eq_some_iff.1 hj
  obtain rfl : root = j := Option.some.inj hroot
  exact ⟨root, hrender, hnull, member?_shown hrender hnull⟩

end Attribute.Provides

namespace Resource

theorem member?_toJson_attribute {r : Resource} (hnames : (r.attributes.map Attribute.name).Nodup)
    {a : Attribute} (ha : a ∈ r.attributes) (hmeta : a.name ≠ "meta") {j : Json}
    (hj : a.member? r.mode = some (a.name, j)) : r.toJson.member? a.name = some j := by
  have hget : Entries.get? (Attribute.members r.mode r.attributes) a.name = some j :=
    (Entries.get?_eq_some_iff (e := (a.name, j)) (Attribute.nodup_members r.mode hnames)).2
      (Attribute.mem_members_iff.2 ⟨a, ha, hj⟩)
  rw [member?_toJson hnames hmeta, hget]
  rfl

/-! ## Main result -/

/-- **No valid value is lost.** An attribute without problems shows every value that stands in it where
nothing is hidden, at the place of the value; null and decimals that are not finite are not shown. So the
attributes of a resource that require a simple value are in its document, each with what it shows itself,
but for one that has the name of the metadata. -/
theorem shows_valid :
    (∀ (a : Attribute) (mode : Mode) (path : List Json.Step) (d : Descriptor) (v : Value),
      a.isValid = true → a.StoresAt mode path d v → v ≠ .null →
      (d.datatype = .decimal → ¬ v.NonFinite) →
      ∃ j, a.shownAt? mode path = some j ∧ j ≠ .null) ∧
    ∀ (schemas : List Schema) (location : String) (r₀ : Resource), bind schemas location = .ok r₀ →
      ∀ operations : List Operation, ∀ a ∈ (r₀.run operations).attributes,
        a.Provides (r₀.run operations).mode →
        (a.descriptor.datatype = .decimal → ¬ a.value.NonFinite) →
        ∃ j, (r₀.run operations).toJson.member? a.name = some j ∧ j ≠ .null ∧
          (a.name ≠ "meta" → a.render (r₀.run operations).mode = some j) := by
  constructor
  · intro a mode path d v hvalid hstores hv hfinite
    exact hstores.shown_of_isValid hvalid hv hfinite
  intro schemas location r₀ h operations a ha hprovides hfinite
  have hbound := (Bound.bind .anything h).run (.anything true) (.anything false) operations
  obtain ⟨j, hrender, hnull, hmember⟩ := hprovides.exists_member (hbound.shaped a ha) hfinite
  have hnames : ((r₀.run operations).attributes.map Attribute.name).Nodup := by
    rw [hbound.names]
    exact Descriptor.nodup_bound schemas
  by_cases hmeta : a.name = "meta"
  · rw [hmeta, member?_toJson_meta]
    exact ⟨_, rfl, by simp [Meta.toJson], fun hne => absurd rfl hne⟩
  · exact ⟨j, member?_toJson_attribute hnames ha hmeta hmember, hnull, fun _ => hrender⟩

/-- A decimal that is required. -/
def score : Descriptor :=
  { Descriptor.new "score" .decimal with required := true }

def rated : Schema :=
  { Schema.new "urn:review" "Review" "/Schemas/Review" with attributes := [score] }

/-- An integer among decimals, in an object of a list and as what a resource requires. -/
theorem shows_valid_score :
    let weight : Descriptor := .new "weight" .decimal
    let remarks : Descriptor := { (((Descriptor.new "remarks" .complex).addSub weight).addSub
      (.new "text" .string)) with multiValued := true }
    let held := (Attribute.bind remarks).assignUncoerced
      (.list [.null, .map [("text", .text "fine"), ("weight", .integer 2)]])
    let operations := [Operation.work "score" [] (.assign (.integer 4))]
    (∃ j, held.shownAt? .client [.element 1, .member "weight"] = some j ∧ j ≠ .null) ∧
      ∃ r₀, bind [rated] "/Reviews/1" = .ok r₀ ∧
        ∃ j, (r₀.run operations).toJson.member? "score" = some j ∧ j ≠ .null := by
  intro weight remarks held operations
  have hvalid : held.isValid = true := by decide
  let weighed := (Attribute.bind weight).assignUncoerced (.integer 2)
  let text := (Attribute.bind (.new "text" .string)).assignUncoerced (.text "fine")
  have hweighed : weighed.StoresAt .client [] weight (.integer 2) :=
    .single rfl rfl (by simp [Value.IsSingle])
  have hprevails : (Composite.mk [weighed, text] []).Prevails .client weighed := by
    refine ⟨[], [text], rfl, fun b hb hname => ?_⟩
    obtain rfl := List.mem_singleton.1 hb
    exact absurd hname (by decide)
  have hstores : held.StoresAt .client [.element 1, .member "weight"] weight (.integer 2) :=
    .item rfl rfl rfl hprevails hweighed
  obtain ⟨r₀, h⟩ := @exists_bind [rated] (by simp) "/Reviews/1"
  refine ⟨?_, r₀, h, ?_⟩
  · exact shows_valid.1 held .client _ weight _ hvalid hstores (by simp) (by simp [Value.NonFinite])
  · let scored := (Attribute.bind score).assign (.integer 4)
    have hscored : scored ∈ (r₀.run operations).attributes ∧ (r₀.run operations).mode = .server := by
      cases h
      exact ⟨List.mem_singleton_self _, rfl⟩
    have hfinite : ¬ scored.value.NonFinite := by
      rintro ⟨x, hx, hfinite⟩
      cases hx
      revert hfinite
      decide
    obtain ⟨j, hj, hnull, -⟩ := shows_valid.2 [rated] "/Reviews/1" r₀ h operations scored
      hscored.1 (hscored.2 ▸ ⟨rfl, rfl, rfl, by decide, rfl⟩) fun _ => hfinite
    exact ⟨j, hj, hnull⟩

/-- An infinity is valid and is shown as null, so the resource does not have what it requires; and of two
sub-attributes with one name the second shows in the place of the first. -/
theorem not_shows_valid :
    (¬ ∀ (a : Attribute) (mode : Mode) (path : List Json.Step) (d : Descriptor) (v : Value),
      a.isValid = true → a.StoresAt mode path d v → v ≠ .null →
      ∃ j, a.shownAt? mode path = some j ∧ j ≠ .null) ∧
    (∃ r₀, bind [rated] "/Reviews/1" = .ok r₀ ∧
      let r := r₀.run [.setId (some "1"),
        .work "score" [] (.assign (.decimal (.ofMagnitude false Binary64.infinity)))]
      r.isValid = true ∧ (∃ a ∈ r.attributes, a.name = "score" ∧ a.Provides r.mode) ∧
        r.toJson.member? "score" = none) ∧
    (let tags : Descriptor := { Descriptor.new "tags" .string with multiValued := true }
      let held := (Attribute.bind (((Descriptor.new "labels" .complex).addSub tags).addSub
        tags)).assign (.map [("tags", .list [.text "new"])])
      let first := (Attribute.bind tags).assign (.list [.text "new"])
      held.isValid = true ∧ held.content = .object (.mk [first, .bind tags] []) ∧
        first.shownAt? .server [.element 0] = some (.string "new") ∧
        held.shownAt? .server [.member "tags", .element 0] = none) := by
  refine ⟨fun hall => ?_, ?_, ?_⟩
  · let infinite : Value := .decimal (.ofMagnitude false Binary64.infinity)
    have hstores : ((Attribute.bind score).assign infinite).StoresAt .server [] score infinite :=
      .single rfl rfl (by simp [infinite, Value.IsSingle])
    obtain ⟨j, hj, hnull⟩ := hall _ _ _ _ _ (by decide) hstores (by simp [infinite])
    exact hnull (Option.some.inj hj).symm
  · obtain ⟨r₀, h⟩ := @exists_bind [rated] (by simp) "/Reviews/1"
    refine ⟨r₀, h, ?_⟩
    cases h
    refine ⟨by decide, ⟨_, List.mem_singleton_self _, rfl, rfl, rfl, rfl, by decide, rfl⟩, rfl⟩
  · exact ⟨by decide, rfl, rfl, rfl⟩

end Resource

end Scim
