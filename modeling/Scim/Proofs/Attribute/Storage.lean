import Scim.Attribute.Check
import Scim.Proofs.Attribute.Routing

/-!
# What attributes hold

`Content.Shaped K d content`: `content` is what an attribute of `d` can hold. An object has the
declared sub-attributes, in order; only complex attributes have objects, in a list where several
values are declared; and whatever is kept as a whole, or of keys that are not declared, is as `K` says.
Every assignment, validation and look-up on the way to a sub-attribute keeps it (`Shaped.ofValue`,
`Shaped.visit`), so it holds after every run of operations (`Shaped.run_storing`, `Shaped.run`).
-/

set_option autoImplicit false

namespace Scim

/-- What may be kept as a whole: by an attribute, and as an element among objects; and what an object
may keep of keys that are not declared. -/
structure Kept where
  whole : Descriptor → Value → Prop
  element : Descriptor → Value → Prop
  undeclared : Descriptor → List String → Prop := fun _ _ => True
  /-- An attribute to which nothing is assigned keeps an empty list or null. -/
  fresh : ∀ d, d.isComplex = false → whole d (if d.multiValued then .list [] else .null)
  /-- A new object keeps no keys. -/
  bare : ∀ d, undeclared d [] := by exact fun _ => trivial

/-- What can stand in an attribute of a descriptor. -/
inductive Content.Shaped (K : Kept) : Descriptor → Content → Prop
  | plain {d : Descriptor} {v : Value} : K.whole d v → Shaped K d (.plain v)
  | object {d : Descriptor} {c : Composite} : d.isComplex = true → d.multiValued = false →
      c.attributes.map Attribute.descriptor = d.subAttributes →
      (∀ a ∈ c.attributes, Shaped K a.descriptor a.content) → K.undeclared d c.undeclared →
      Shaped K d (.object c)
  | items {d : Descriptor} {items : List Item} : d.isComplex = true → d.multiValued = true →
      (∀ c, .object c ∈ items → c.attributes.map Attribute.descriptor = d.subAttributes) →
      (∀ c, .object c ∈ items → ∀ a ∈ c.attributes, Shaped K a.descriptor a.content) →
      (∀ v, .other v ∈ items → K.element d v) →
      (∀ c, .object c ∈ items → K.undeclared d c.undeclared) → Shaped K d (.items items)

/-- An attribute holds what its descriptor allows. -/
def Attribute.Shaped (K : Kept) (a : Attribute) : Prop :=
  Content.Shaped K a.descriptor a.content

/-- Storing values with a property keeps only what `K` allows. The property is one of every value
inside a value too. -/
structure Kept.Takes (K : Kept) (coerced : Bool) (P : Value → Prop) : Prop where
  simple : ∀ d v, d.isComplex = false → P v → K.whole d (if coerced then d.coerce v else v)
  refused : ∀ d v, d.isComplex = true → d.Refuses v → P v → K.whole d v
  element : ∀ d v, (∀ entries, v ≠ .map entries) → P v → K.element d v
  ofItem : ∀ items, P (.list items) → ∀ v ∈ items, P v
  ofMember : ∀ entries, P (.map entries) → ∀ e ∈ entries, P e.2
  undeclared : ∀ d entries, P (.map entries) → K.undeclared d (d.undeclared entries) := by
    exact fun _ _ _ => trivial

namespace Content.Shaped

variable {K : Kept}

/-! ## Assignment -/

theorem empty (K : Kept) (d : Descriptor) : Shaped K d (.empty d) := by
  induction d using Descriptor.induct with
  | step d ih =>
    cases h : d.isComplex with
    | false =>
      rw [Content.empty_simple h]
      exact .plain (K.fresh d h)
    | true =>
      cases hm : d.multiValued with
      | true =>
        rw [Content.empty_items h hm]
        exact .items h hm (by simp) (by simp) (by simp) (by simp)
      | false =>
        rw [Content.empty_object h hm]
        refine .object h hm (Composite.descriptors_bind d) ?_ (K.bare d)
        rw [Composite.attributes_bind]
        intro a ha
        obtain ⟨sub, hsub, rfl⟩ := List.mem_map.1 ha
        simpa using ih sub hsub

theorem ofValue {coerced : Bool} {P : Value → Prop} (h : K.Takes coerced P) (d : Descriptor)
    {v : Value} (hv : P v) : Shaped K d (.ofValue coerced d v) := by
  induction d using Descriptor.induct generalizing v with
  | step d ih =>
    -- the members of an object, whether it stands alone or in a list
    have subs {entries : List (String × Value)} (he : P (.map entries)) :
        ∀ a ∈ (Composite.route coerced (.bind d) entries).attributes,
          Shaped K a.descriptor a.content := by
      rw [Composite.forall_mem_route]
      intro i sub hsub
      cases hr : routed? d.names i entries with
      | none => simpa using empty K sub
      | some w =>
        obtain ⟨key, hm, -⟩ := mem_of_routed? hr
        simpa using ih sub (List.mem_of_getElem? hsub) (h.ofMember entries he _ hm)
    have same (entries : List (String × Value)) :
        (Composite.route coerced (.bind d) entries).attributes.map Attribute.descriptor =
          d.subAttributes := by
      rw [Composite.descriptors_route, Composite.descriptors_bind]
    have keys {entries : List (String × Value)} (he : P (.map entries)) :
        K.undeclared d (Composite.route coerced (.bind d) entries).undeclared := by
      rw [Composite.undeclared_route_bind]
      exact h.undeclared d entries he
    cases hc : d.isComplex with
    | false =>
      rw [Content.ofValue_simple hc]
      exact .plain (h.simple d v hc hv)
    | true =>
      by_cases hr : d.Refuses v
      · rw [Content.ofValue_refused hc hr]
        exact .plain (h.refused d v hc hr hv)
      cases v with
      | null =>
        rw [Content.ofValue_null hc]
        exact empty K d
      | list items =>
        have hm : d.multiValued = true := by simpa [Descriptor.Refuses] using hr
        rw [Content.ofValue_items hc hm]
        refine .items hc hm (fun c hc => ?_) (fun c hc => ?_) (fun w hw => ?_) fun c hc => ?_
        · obtain ⟨entries, -, rfl⟩ := Item.mem_map_object hc
          exact same entries
        · obtain ⟨entries, he, rfl⟩ := Item.mem_map_object hc
          exact subs (h.ofItem items hv _ he)
        · obtain ⟨hw, hmap⟩ := Item.mem_map_other hw
          exact h.element d w hmap (h.ofItem items hv _ hw)
        · obtain ⟨entries, he, rfl⟩ := Item.mem_map_object hc
          exact keys (h.ofItem items hv _ he)
      | map entries =>
        have hm : d.multiValued = false := by simpa [Descriptor.Refuses] using hr
        rw [Content.ofValue_object hc hm]
        exact .object hc hm (same entries) (subs hv) (keys hv)
      | _ => exact absurd trivial hr

end Content.Shaped

namespace Attribute

variable {K : Kept}

theorem Shaped.bind (K : Kept) (d : Descriptor) : (Attribute.bind d).Shaped K := by
  rw [Attribute.Shaped, descriptor_bind, content_bind]
  exact .empty K d

theorem Shaped.store {coerced : Bool} {P : Value → Prop} (h : K.Takes coerced P) {v : Value}
    (hv : P v) (a : Attribute) : (a.store coerced v).Shaped K :=
  Content.Shaped.ofValue h a.descriptor hv

/-! ## Operations -/

/-- The object on which a look-up for a sub-attribute works. -/
theorem Shaped.opened {a : Attribute} (h : a.Shaped K) :
    a.opened.attributes.map Attribute.descriptor = a.descriptor.subAttributes ∧
      (∀ b ∈ a.opened.attributes, b.Shaped K) ∧
      K.undeclared a.descriptor a.opened.undeclared := by
  have fresh : (Composite.bind a.descriptor).attributes.map Attribute.descriptor =
      a.descriptor.subAttributes ∧ (∀ b ∈ (Composite.bind a.descriptor).attributes, b.Shaped K) ∧
      K.undeclared a.descriptor (Composite.bind a.descriptor).undeclared := by
    refine ⟨Composite.descriptors_bind _, fun b hb => ?_, K.bare _⟩
    rw [Composite.attributes_bind] at hb
    obtain ⟨sub, -, rfl⟩ := List.mem_map.1 hb
    exact .bind K sub
  obtain ⟨d, content, report⟩ := a
  cases h with
  | object hc hm hd hs hk => exact ⟨hd, hs, hk⟩
  | plain hv => exact fresh
  | items hc hm hd hs he hk => exact fresh

/-- A sub-attribute in the place of another of the same descriptor. -/
theorem Shaped.modify {d : Descriptor} {c : Composite} (hc : d.isComplex = true)
    (hm : d.multiValued = false) (hd : c.attributes.map descriptor = d.subAttributes)
    (hs : ∀ b ∈ c.attributes, b.Shaped K) (hk : K.undeclared d c.undeclared) {i : Nat}
    {child new : Attribute}
    (hi : c.attributes[i]? = some child) (hnew : new.descriptor = child.descriptor)
    (hshape : new.Shaped K) : Content.Shaped K d (.object (c.modify i fun _ => new)) := by
  refine .object hc hm ?_ (fun b hb => ?_) hk
  · rw [← hd]
    apply List.ext_getElem?
    intro j
    show ((c.attributes.modify i _).map _)[j]? = _
    rw [List.getElem?_map, List.getElem?_map, List.getElem?_modify]
    by_cases hj : i = j
    · subst hj
      simp [hi, hnew]
    · simp [hj]
  · obtain ⟨j, hj⟩ := List.mem_iff_getElem?.1 hb
    have hj : (c.attributes.modify i fun _ => new)[j]? = some b := hj
    rw [List.getElem?_modify] at hj
    by_cases hij : i = j
    · subst hij
      obtain rfl : new = b := by simpa [hi] using hj
      exact hshape
    · exact hs b (List.mem_of_getElem? (by simpa [hij] using hj))

/-- Work on a sub-attribute keeps what it and all others hold, if it does so there. -/
theorem Shaped.visit {α : Type} {f : Attribute → α × Attribute}
    (hf : ∀ b : Attribute, b.Shaped K → (f b).2.descriptor = b.descriptor ∧ (f b).2.Shaped K)
    (path : List String) {a : Attribute} (h : a.Shaped K) :
    (a.visit f path).2.descriptor = a.descriptor ∧ (a.visit f path).2.Shaped K := by
  induction path generalizing a with
  | nil => exact hf a h
  | cons name path ih =>
    obtain ⟨hd, hs, hk⟩ := h.opened
    cases hc : a.descriptor.isComplex && !a.descriptor.multiValued with
    | false =>
      rw [visit_cons_other hc]
      exact ⟨rfl, h⟩
    | true =>
      obtain ⟨hcomplex, hsingle⟩ : a.descriptor.isComplex = true ∧ a.descriptor.multiValued = false := by
        simpa using hc
      cases hi : placeOf? a.opened.names name with
      | none =>
        rw [visit_cons_none hc hi]
        exact ⟨rfl, .object hcomplex hsingle hd hs hk⟩
      | some i =>
        obtain ⟨child, -, hget⟩ := Composite.find?_some hi
        obtain ⟨hcd, hcs⟩ := ih (hs child (List.mem_of_getElem? hget))
        rw [visit_cons_some hc hi hget]
        exact ⟨rfl, .modify hcomplex hsingle hd hs hk hget hcd hcs⟩

end Attribute

/-! ## Runs -/

/-- What a caller does with an attribute in hand. -/
inductive Operation where
  | assign (v : Value)
  | assignUncoerced (v : Value)
  | validate
  /-- Nothing but the way to the attribute, on which misshapen values give way to objects. -/
  | reach

def Operation.apply : Operation → Attribute → Attribute
  | assign v => Attribute.assign v
  | assignUncoerced v => Attribute.assignUncoerced v
  | validate => Attribute.validate
  | reach => id

/-- Every value that an operation stores has the property. -/
def Operation.Stores (P : Value → Prop) : Operation → Prop
  | assign v => P v
  | assignUncoerced v => P v
  | validate => True
  | reach => True

theorem Operation.stores_any (operation : Operation) : operation.Stores fun _ => True := by
  cases operation <;> trivial

namespace Attribute

/-- An operation on the sub-attribute at the end of a path of names. -/
def perform (a : Attribute) (step : List String × Operation) : Attribute :=
  (a.visit (fun b => ((), step.2.apply b)) step.1).2

/-- Operations one after the other. -/
def run (a : Attribute) (steps : List (List String × Operation)) : Attribute :=
  steps.foldl perform a

variable {K : Kept} {P : Value → Prop}

theorem Shaped.perform_storing (hcoerced : K.Takes true P) (hgiven : K.Takes false P)
    {step : List String × Operation} (hstep : step.2.Stores P) {a : Attribute} (h : a.Shaped K) :
    (a.perform step).descriptor = a.descriptor ∧ (a.perform step).Shaped K := by
  obtain ⟨path, operation⟩ := step
  refine Shaped.visit (fun b hb => ?_) path h
  cases operation with
  | assign v => exact ⟨rfl, .store hcoerced hstep b⟩
  | assignUncoerced v => exact ⟨rfl, .store hgiven hstep b⟩
  | validate => exact ⟨rfl, hb⟩
  | reach => exact ⟨rfl, hb⟩

theorem Shaped.run_storing (hcoerced : K.Takes true P) (hgiven : K.Takes false P)
    {steps : List (List String × Operation)} (hsteps : ∀ step ∈ steps, step.2.Stores P)
    {a : Attribute} (h : a.Shaped K) :
    (a.run steps).descriptor = a.descriptor ∧ (a.run steps).Shaped K := by
  induction steps generalizing a with
  | nil => exact ⟨rfl, h⟩
  | cons step steps ih =>
    obtain ⟨hd, hs⟩ := h.perform_storing hcoerced hgiven (hsteps step List.mem_cons_self)
    obtain ⟨hd', hs'⟩ := ih (fun step hstep => hsteps step (List.mem_cons_of_mem _ hstep)) hs
    exact ⟨hd'.trans hd, hs'⟩

/-! ### Any values -/

section
variable (hcoerced : K.Takes true fun _ => True) (hgiven : K.Takes false fun _ => True)
include hcoerced hgiven

theorem Shaped.perform (step : List String × Operation) {a : Attribute} (h : a.Shaped K) :
    (a.perform step).descriptor = a.descriptor ∧ (a.perform step).Shaped K :=
  h.perform_storing hcoerced hgiven step.2.stores_any

theorem Shaped.run (steps : List (List String × Operation)) {a : Attribute} (h : a.Shaped K) :
    (a.run steps).descriptor = a.descriptor ∧ (a.run steps).Shaped K :=
  h.run_storing hcoerced hgiven fun step _ => step.2.stores_any

end

end Attribute

end Scim
