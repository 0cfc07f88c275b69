import Scim.Attribute.Check
import Scim.Proofs.Attribute.Routing

/-!
# Conformance

What it is for a value to conform to a descriptor, said of the value alone. `isValid_iff_conforms`:
an attribute to which a value is assigned as it is has no problems exactly when the value conforms.

* Reports are empty exactly when nothing is found (`isEmpty_merge`), so each check is empty exactly
  when what it looks at is without a problem (`isEmpty_checkValue`, `isEmpty_check_composite`).
* A scalar is without a problem exactly when it is null or matches the datatype
  (`checkScalar_eq_none_iff`).
* Null for a complex attribute with one value leaves every sub-attribute unassigned, so it conforms
  only where each of them does without a value (`not_isValid_iff_of_null_conforms`).
-/

set_option autoImplicit false

namespace Scim

/-! ## Reports -/

theorem Entries.isEmpty_update {α : Type} (key : String) (f : Option α → α)
    (t : List (String × α)) : (Entries.update key f t).isEmpty = false := by
  cases t with
  | nil => rfl
  | cons e t =>
    unfold update
    split
    · rfl
    · split <;> rfl

namespace Report

@[simp] theorem isEmpty_empty : empty.isEmpty = true := rfl

@[simp] theorem isEmpty_addAll (field : String) (problems : List Problem) (r : Report) :
    (r.addAll field problems).isEmpty = false :=
  Entries.isEmpty_update _ _ _

@[simp] theorem isEmpty_add (field : String) (problem : Problem) (r : Report) :
    (r.add field problem).isEmpty = false :=
  isEmpty_addAll _ _ _

@[simp] theorem isEmpty_merge (r other : Report) :
    (r.merge other).isEmpty = (r.isEmpty && other.isEmpty) := by
  have kept : ∀ (entries : List (String × List Problem)) (r : Report),
      (entries.foldl (fun r e => r.addAll e.1 e.2) r).isEmpty = (r.isEmpty && entries.isEmpty) := by
    intro entries
    induction entries with
    | nil => intro r; simp
    | cons e entries ih => intro r; simp [ih]
  exact kept _ r

end Report

/-! ## The specification -/

namespace Descriptor

mutual

/-- Null, an empty list or, for a complex attribute with one value, an object of whose members those
that go to sub-attributes are blank for them. -/
def Blank (d : Descriptor) (v : Value) : Prop :=
  match d with
  | ⟨_, datatype, multiValued, _, _, _, _, _, _, _, _, subs⟩ =>
    match v with
    | .null => True
    | .list items => items = []
    | .map entries =>
      datatype = .complex ∧ multiValued = false ∧ AllBlank (subs.map name) entries 0 subs
    | _ => False

/-- Sub-attributes, the first of which stands at the given place. -/
def AllBlank (names : List String) (entries : List (String × Value)) : Nat → List Descriptor → Prop
  | _, [] => True
  | i, sub :: rest =>
    (∀ v, routed? names i entries = some v → Blank sub v) ∧ AllBlank names entries (i + 1) rest

end

/-- A text among the canonical values, if these are declared. -/
def Allows (d : Descriptor) (s : String) : Prop :=
  ∀ allowed, d.canonicalValues = some allowed → s ∈ allowed

/-- A value of the datatype, given what the members of an object have to satisfy. -/
def Matches (d : Descriptor) (object : List (String × Value) → Prop) (v : Value) : Prop :=
  match d.datatype with
  | .string => ∃ s, v = .text s ∧ d.Allows s
  | .reference => ∃ s, v = .text s ∧ d.Allows s
  | .boolean =>
    (∃ b, v = .boolean b) ∨
      ∃ s, v = .text s ∧ (Text.sameName s "true" = true ∨ Text.sameName s "false" = true)
  | .decimal => (∃ x, v = .decimal x) ∨ ∃ n, v = .integer n
  | .integer => ∃ n, v = .integer n
  | .dateTime => ∃ t, v = .dateTime t
  | .binary =>
    (∃ bytes, v = .binary bytes) ∨ ∃ s, v = .text s ∧ (Base64.decode? s.toList).isSome = true
  | .complex => ∃ entries, v = .map entries ∧ object entries

mutual

/-- What a descriptor asks of a value. An object may have declared names only, and each sub-attribute
gets the last of the members that go to it, or null. Null for a complex attribute with one value
stands for the object that has no members. -/
def Conforms (d : Descriptor) (v : Value) : Prop :=
  match d with
  | ⟨_, _, _, _, _, _, _, _, _, _, _, subs⟩ =>
    let object entries :=
      (∀ e ∈ entries, (placeOf? (subs.map name) e.1).isSome = true) ∧
        AllConform (subs.map name) entries 0 subs
    (d.required = true → ¬ d.Blank v) ∧
      match v with
      | .null => d.isComplex = true → d.multiValued = false → object []
      | .list items => d.multiValued = true ∧ ∀ item ∈ items, item = .null ∨ d.Matches object item
      | v => d.multiValued = false ∧ d.Matches object v

/-- Sub-attributes, the first of which stands at the given place. -/
def AllConform (names : List String) (entries : List (String × Value)) :
    Nat → List Descriptor → Prop
  | _, [] => True
  | i, sub :: rest =>
    Conforms sub ((routed? names i entries).getD .null) ∧ AllConform names entries (i + 1) rest

end

/-! ### Sub-attributes by place -/

/-- What the members of an object have to satisfy. -/
def ObjectConforms (d : Descriptor) (entries : List (String × Value)) : Prop :=
  (∀ e ∈ entries, (placeOf? d.names e.1).isSome = true) ∧
    ∀ (i : Nat) (sub : Descriptor), d.subAttributes[i]? = some sub →
      sub.Conforms ((routed? d.names i entries).getD .null)

/-- A property of a list that is one of each element and its place. -/
theorem forall_places {α : Type} {F : Nat → List α → Prop} {Q : Nat → α → Prop}
    (nil : ∀ i, F i []) (cons : ∀ i a l, F i (a :: l) ↔ Q i a ∧ F (i + 1) l) (l : List α) (i : Nat) :
    F i l ↔ ∀ (j : Nat) (a : α), l[j]? = some a → Q (i + j) a := by
  induction l generalizing i with
  | nil => simp [nil]
  | cons a l ih =>
    rw [cons, ih]
    constructor
    · rintro ⟨h, hs⟩ j b hj
      cases j with
      | zero =>
        obtain rfl : a = b := by simpa using hj
        exact h
      | succ j =>
        rw [show i + (j + 1) = i + 1 + j by omega]
        exact hs j b (by simpa using hj)
    · intro h
      refine ⟨h 0 a rfl, fun j b hj => ?_⟩
      rw [show i + 1 + j = i + (j + 1) by omega]
      exact h (j + 1) b (by simpa using hj)

theorem allBlank_iff {names : List String} {entries : List (String × Value)}
    {subs : List Descriptor} :
    AllBlank names entries 0 subs ↔ ∀ (i : Nat) (sub : Descriptor), subs[i]? = some sub →
      ∀ v, routed? names i entries = some v → sub.Blank v := by
  rw [forall_places (F := AllBlank names entries)
    (Q := fun i sub => ∀ v, routed? names i entries = some v → sub.Blank v)
    (fun i => by rw [AllBlank]; trivial) (fun i a l => by rw [AllBlank])]
  simp only [Nat.zero_add]

theorem allConform_iff {names : List String} {entries : List (String × Value)}
    {subs : List Descriptor} :
    AllConform names entries 0 subs ↔ ∀ (i : Nat) (sub : Descriptor), subs[i]? = some sub →
      sub.Conforms ((routed? names i entries).getD .null) := by
  rw [forall_places (F := AllConform names entries)
    (Q := fun i sub => sub.Conforms ((routed? names i entries).getD .null))
    (fun i => by rw [AllConform]; trivial) (fun i a l => by rw [AllConform])]
  simp only [Nat.zero_add]

theorem blank_iff {d : Descriptor} {v : Value} :
    d.Blank v ↔ match v with
      | .null => True
      | .list items => items = []
      | .map entries => d.isComplex = true ∧ d.multiValued = false ∧
        ∀ (i : Nat) (sub : Descriptor), d.subAttributes[i]? = some sub →
          ∀ v, routed? d.names i entries = some v → sub.Blank v
      | _ => False := by
  obtain ⟨_, _, _, _, _, _, _, _, _, _, _, subs⟩ := d
  rw [Blank.eq_def]
  simp only [allBlank_iff, isComplex, beq_iff_eq]
  rfl

theorem conforms_iff {d : Descriptor} {v : Value} :
    d.Conforms v ↔ (d.required = true → ¬ d.Blank v) ∧
      match v with
      | .null => d.isComplex = true → d.multiValued = false → d.ObjectConforms []
      | .list items =>
        d.multiValued = true ∧ ∀ item ∈ items, item = .null ∨ d.Matches d.ObjectConforms item
      | v => d.multiValued = false ∧ d.Matches d.ObjectConforms v := by
  obtain ⟨_, _, _, _, _, _, _, _, _, _, _, subs⟩ := d
  rw [Conforms.eq_def]
  simp only [allConform_iff]
  rfl

end Descriptor

/-! ## Scalars -/

theorem isSome_boolean? {s : String} :
    (boolean? s).isSome = true ↔ Text.sameName s "true" = true ∨ Text.sameName s "false" = true := by
  unfold boolean?
  cases Text.sameName s "true" <;> cases Text.sameName s "false" <;> simp

namespace Descriptor

theorem checkCanonical_eq_none_iff {d : Descriptor} {s : String} :
    d.checkCanonical s = none ↔ d.Allows s := by
  unfold checkCanonical Allows
  cases d.canonicalValues <;> simp

theorem checkOther_ne_none (d : Descriptor) (v : Value) : d.checkOther v ≠ none := by
  unfold checkOther
  cases v <;> simp <;> split <;> simp

theorem ite_checkOther_eq_none_iff {d : Descriptor} {v : Value} {p : Prop} [Decidable p] :
    (if p then none else d.checkOther v) = none ↔ p := by
  by_cases h : p <;> simp [h, checkOther_ne_none]

/-- A scalar has no problem exactly when it is null or a value of the datatype; of an object the
members are looked at elsewhere. -/
theorem checkScalar_eq_none_iff {d : Descriptor} {v : Value} :
    d.checkScalar v = none ↔ v = .null ∨ d.Matches (fun _ => True) v := by
  unfold checkScalar Matches
  cases h : d.datatype <;> cases v <;>
    simp [ite_checkOther_eq_none_iff, checkCanonical_eq_none_iff, checkOther_ne_none,
      isSome_boolean?, -ite_eq_left_iff]

theorem matches_simple {d : Descriptor} (h : d.isComplex = false)
    {p q : List (String × Value) → Prop} {v : Value} : d.Matches p v ↔ d.Matches q v := by
  have h : d.datatype ≠ .complex := by simpa [isComplex] using h
  unfold Matches
  cases hd : d.datatype <;> first | exact absurd hd h | rfl

theorem matches_complex {d : Descriptor} (h : d.isComplex = true)
    {object : List (String × Value) → Prop} {v : Value} :
    d.Matches object v ↔ ∃ entries, v = .map entries ∧ object entries := by
  have h : d.datatype = .complex := by simpa [isComplex] using h
  rw [Matches, h]

/-- A value kept whole has no problem when it is null, a list of scalars without problems where several
values are declared, or such a scalar where one is. -/
theorem isEmpty_checkValue {d : Descriptor} {v : Value} {r : Report} :
    (d.checkValue v r).isEmpty = true ↔ r.isEmpty = true ∧
      match v with
      | .null => True
      | .list items => d.multiValued = true ∧ ∀ item ∈ items, d.checkScalar item = none
      | v => d.multiValued = false ∧ d.checkScalar v = none := by
  have report (p : Option Problem) (r : Report) :
      (d.report p r).isEmpty = true ↔ r.isEmpty = true ∧ p = none := by
    cases p <;> simp [Descriptor.report]
  have items (items : List Value) (r : Report) :
      (items.foldl (fun r v => d.report (d.checkScalar v) r) r).isEmpty = true ↔
        r.isEmpty = true ∧ ∀ item ∈ items, d.checkScalar item = none := by
    induction items generalizing r with
    | nil => simp
    | cons v items ih => simp [ih, report, and_assoc]
  unfold checkValue
  cases hm : d.multiValued <;> cases v <;> simp [items, report]

/-- A value that a complex attribute cannot take apart always has a problem. -/
theorem Refuses.not_isEmpty {d : Descriptor} (hc : d.isComplex = true) {v : Value} (h : d.Refuses v) (r : Report) :
    (d.checkValue v r).isEmpty = false := by
  rw [← Bool.not_eq_true, isEmpty_checkValue]
  simp only [checkScalar_eq_none_iff, matches_complex hc]
  cases v <;> simp_all [Refuses]

/-- Without a problem an element of a list that is no object is null. -/
theorem eq_null_of_checkScalar {d : Descriptor} {v : Value} (h : d.isComplex = true)
    (hmap : ∀ entries, v ≠ .map entries) (hcheck : d.checkScalar v = none) : v = .null := by
  rcases checkScalar_eq_none_iff.1 hcheck with hnull | hmatches
  · exact hnull
  · obtain ⟨entries, hv, -⟩ := (matches_complex h).1 hmatches
    exact absurd hv (hmap entries)

end Descriptor

/-! ## Objects and lists -/

theorem isEmpty_check_composite {c : Composite} {r : Report} :
    (c.check r).isEmpty = true ↔ r.isEmpty = true ∧
      (∀ a ∈ c.attributes, a.check.isEmpty = true) ∧ c.undeclared = [] := by
  obtain ⟨attributes, undeclared⟩ := c
  have all (attributes : List Attribute) (r : Report) :
      (Attribute.checkAll r attributes).isEmpty = true ↔
        r.isEmpty = true ∧ ∀ a ∈ attributes, a.check.isEmpty = true := by
    induction attributes generalizing r with
    | nil => simp [Attribute.checkAll]
    | cons a attributes ih => simp [Attribute.checkAll, ih, and_assoc]
  have keys (keys : List String) (r : Report) :
      (keys.foldl (fun r key => r.add key .undeclared) r).isEmpty = true ↔
        r.isEmpty = true ∧ keys = [] := by
    induction keys generalizing r with
    | nil => simp
    | cons key keys ih => simp [ih]
  rw [Composite.check, keys, all, and_assoc]
  rfl

theorem isEmpty_checkAll_items {d : Descriptor} {items : List Item} {r : Report} :
    (Item.checkAll d r items).isEmpty = true ↔ r.isEmpty = true ∧
      (∀ c, .object c ∈ items → (c.check .empty).isEmpty = true) ∧
      ∀ v, .other v ∈ items → d.checkScalar v = none := by
  induction items generalizing r with
  | nil => simp [Item.checkAll]
  | cons item items ih =>
    cases item with
    | object c =>
      rw [Item.checkAll, ih, isEmpty_check_composite]
      simp [isEmpty_check_composite (c := c), and_assoc]
    | other v =>
      rw [Item.checkAll, ih]
      cases h : d.checkScalar v <;> simp [Descriptor.report, h]

theorem isEmpty_check_content {d : Descriptor} {content : Content} {r : Report} :
    (content.check d r).isEmpty = true ↔
      r.isEmpty = true ∧ (content.check d .empty).isEmpty = true := by
  cases content with
  | plain v => simp [Content.check, Descriptor.isEmpty_checkValue]
  | object c => simp [Content.check, isEmpty_check_composite]
  | items items => simp [Content.check, isEmpty_checkAll_items]

theorem isValid_iff {a : Attribute} :
    a.isValid = true ↔ (a.descriptor.required = true → a.content.isBlank = false) ∧
      (a.content.check a.descriptor .empty).isEmpty = true := by
  obtain ⟨d, content, report⟩ := a
  rw [Attribute.isValid, Attribute.check, isEmpty_check_content]
  cases hr : d.required <;> cases hb : content.isBlank <;>
    simp [Attribute.descriptor, Attribute.content, hr, hb]

/-! ## Blank values -/

theorem isBlank_composite {c : Composite} :
    c.isBlank = true ↔ ∀ a ∈ c.attributes, a.content.isBlank = true := by
  obtain ⟨attributes, undeclared⟩ := c
  show Attribute.allBlank attributes = true ↔ _
  have all : Attribute.allBlank attributes = true ↔ ∀ a ∈ attributes, a.content.isBlank = true := by
    induction attributes with
    | nil => simp [Attribute.allBlank]
    | cons a attributes ih =>
      obtain ⟨d, content, report⟩ := a
      simp [Attribute.allBlank, Attribute.isBlank, Attribute.content, ih]
  exact all

theorem isBlank_empty (d : Descriptor) : (Content.empty d).isBlank = true := by
  induction d using Descriptor.induct with
  | step d ih =>
    cases h : d.isComplex with
    | false =>
      rw [Content.empty_simple h]
      cases d.multiValued <;> rfl
    | true =>
      cases hm : d.multiValued with
      | true =>
        rw [Content.empty_items h hm]
        rfl
      | false =>
        rw [Content.empty_object h hm, Content.isBlank, isBlank_composite, Composite.attributes_bind]
        intro a ha
        obtain ⟨sub, hsub, rfl⟩ := List.mem_map.1 ha
        simpa using ih sub hsub

theorem blank_iff_isBlank {d : Descriptor} {v : Value} (h : d.Refuses v ∨ d.isComplex = false) :
    v.isBlank = true ↔ d.Blank v := by
  cases v with
  | map entries =>
    rw [Descriptor.blank_iff]
    rcases h with h | h
    · have hm : d.multiValued = true := h
      simp [Value.isBlank, hm]
    · simp [Value.isBlank, h]
  | _ => simp [Value.isBlank, Descriptor.blank_iff]

/-- What is stored is blank exactly when the value is. -/
theorem isBlank_ofValue {d : Descriptor} {v : Value} :
    (Content.ofValue false d v).isBlank = true ↔ d.Blank v := by
  induction d using Descriptor.induct generalizing v with
  | step d ih =>
    cases h : d.isComplex with
    | false =>
      rw [Content.ofValue_simple h]
      exact blank_iff_isBlank (.inr h)
    | true =>
      by_cases hv : d.Refuses v
      · rw [Content.ofValue_refused h hv]
        exact blank_iff_isBlank (.inl hv)
      cases v with
      | null => simp [Content.ofValue_null h, isBlank_empty, Descriptor.blank_iff]
      | list items =>
        have hm : d.multiValued = true := by simpa [Descriptor.Refuses] using hv
        simp [Content.ofValue_items h hm, Content.isBlank, Descriptor.blank_iff]
      | map entries =>
        have hm : d.multiValued = false := by simpa [Descriptor.Refuses] using hv
        rw [Content.ofValue_object h hm, Content.isBlank, isBlank_composite,
          Composite.forall_mem_route, Descriptor.blank_iff]
        simp only [h, hm, true_and]
        refine forall_congr' fun i => forall_congr' fun sub => forall_congr' fun hsub => ?_
        cases routed? d.names i entries with
        | none => simp [isBlank_empty]
        | some v => simpa using ih sub (List.mem_of_getElem? hsub) (v := v)
      | _ => exact absurd trivial hv

/-! ## Main result -/

theorem isValid_assignUncoerced {d : Descriptor} {v : Value} :
    ((Attribute.bind d).assignUncoerced v).isValid = true ↔ (d.required = true → ¬ d.Blank v) ∧
      ((Content.ofValue false d v).check d .empty).isEmpty = true := by
  rw [isValid_iff, Attribute.assignUncoerced, Attribute.descriptor_store, Attribute.content_store,
    Attribute.descriptor_bind, ← isBlank_ofValue, Bool.not_eq_true]

/-- An attribute to which nothing is assigned has the problems of one to which null is. -/
theorem isValid_bind {d : Descriptor} :
    (Attribute.bind d).isValid = true ↔
      ((Attribute.bind d).assignUncoerced .null).isValid = true := by
  rw [isValid_assignUncoerced, isValid_iff, Attribute.descriptor_bind, Attribute.content_bind,
    isBlank_empty]
  have blank : d.Blank .null := Descriptor.blank_iff.2 trivial
  cases h : d.isComplex with
  | true => simp [Content.ofValue_null h, blank]
  | false =>
    rw [Content.ofValue_simple h, Content.empty_simple h, Content.check, Content.check,
      Descriptor.isEmpty_checkValue, Descriptor.isEmpty_checkValue]
    cases hm : d.multiValued <;> simp [blank]

/-- The members of an object that is taken apart. -/
theorem isEmpty_check_route {d : Descriptor} {entries : List (String × Value)}
    (ih : ∀ sub ∈ d.subAttributes, ∀ v,
      ((Attribute.bind sub).assignUncoerced v).isValid = true ↔ sub.Conforms v) :
    ((Composite.route false (.bind d) entries).check .empty).isEmpty = true ↔
      d.ObjectConforms entries := by
  rw [isEmpty_check_composite, Composite.undeclared_route_bind, Composite.forall_mem_route]
  have keys : d.undeclared entries = [] ↔
      ∀ e ∈ entries, (placeOf? d.names e.1).isSome = true := by
    rw [Descriptor.undeclared, List.filter_eq_nil_iff]
    simp [Option.isSome_iff_ne_none]
  have subs (i : Nat) (sub : Descriptor) (hsub : d.subAttributes[i]? = some sub) :
      ((routed? d.names i entries).elim (Attribute.bind sub)
          fun v => (Attribute.bind sub).store false v).check.isEmpty = true ↔
        sub.Conforms ((routed? d.names i entries).getD .null) := by
    have ih := ih sub (List.mem_of_getElem? hsub)
    cases routed? d.names i entries with
    | none => exact isValid_bind.trans (ih .null)
    | some v => exact ih v
  rw [keys, Report.isEmpty_empty, Descriptor.ObjectConforms]
  constructor
  · rintro ⟨-, h, hk⟩
    exact ⟨hk, fun i sub hsub => (subs i sub hsub).1 (h i sub hsub)⟩
  · rintro ⟨hk, h⟩
    exact ⟨rfl, fun i sub hsub => (subs i sub hsub).2 (h i sub hsub), hk⟩

/-- The elements of a list that is taken apart. -/
theorem isEmpty_check_items {d : Descriptor} (h : d.isComplex = true) {items : List Value}
    (ih : ∀ entries, ((Composite.route false (.bind d) entries).check .empty).isEmpty = true ↔
      d.ObjectConforms entries) :
    (Item.checkAll d .empty (items.map (Item.ofValue false d))).isEmpty = true ↔
      ∀ item ∈ items, item = .null ∨ d.Matches d.ObjectConforms item := by
  rw [isEmpty_checkAll_items]
  constructor
  · rintro ⟨-, hc, ho⟩ v hv
    have hm : Item.ofValue false d v ∈ items.map (Item.ofValue false d) := List.mem_map_of_mem hv
    by_cases hmap : ∃ entries, v = .map entries
    · obtain ⟨entries, rfl⟩ := hmap
      exact .inr ((Descriptor.matches_complex h).2 ⟨entries, rfl, (ih entries).1 (hc _ hm)⟩)
    · have hmap : ∀ entries, v ≠ .map entries := fun entries he => hmap ⟨entries, he⟩
      rw [Item.ofValue_other hmap] at hm
      exact .inl (Descriptor.eq_null_of_checkScalar h hmap (ho v hm))
  · intro hall
    refine ⟨rfl, fun c hc => ?_, fun v hv => ?_⟩
    · obtain ⟨entries, hentries, rfl⟩ := Item.mem_map_object hc
      rcases hall _ hentries with he | hv
      · cases he
      · obtain ⟨_, he, hobject⟩ := (Descriptor.matches_complex h).1 hv
        cases he
        exact (ih entries).2 hobject
    · obtain ⟨hv, hmap⟩ := Item.mem_map_other hv
      rcases hall v hv with rfl | hv
      · exact Descriptor.checkScalar_eq_none_iff.2 (.inl rfl)
      · obtain ⟨entries, he, -⟩ := (Descriptor.matches_complex h).1 hv
        exact absurd he (hmap entries)

/-- **Validation accepts exactly the values that conform.** -/
theorem isValid_iff_conforms (d : Descriptor) (v : Value) :
    ((Attribute.bind d).assignUncoerced v).isValid = true ↔ d.Conforms v := by
  induction d using Descriptor.induct generalizing v with
  | step d ih =>
    rw [isValid_assignUncoerced, Descriptor.conforms_iff]
    refine and_congr_right fun _ => ?_
    have objects (entries : List (String × Value)) :
        ((Composite.route false (.bind d) entries).check .empty).isEmpty = true ↔
          d.ObjectConforms entries := isEmpty_check_route ih
    cases h : d.isComplex with
    | false =>
      rw [Content.ofValue_simple h, Content.check, Descriptor.isEmpty_checkValue]
      simp only [Descriptor.checkScalar_eq_none_iff,
        Descriptor.matches_simple h (p := fun _ => True) (q := d.ObjectConforms)]
      cases v <;> simp
    | true =>
      by_cases hv : d.Refuses v
      · rw [Content.ofValue_refused h hv, Content.check, Descriptor.isEmpty_checkValue]
        simp only [Descriptor.checkScalar_eq_none_iff, Descriptor.matches_complex h]
        cases v <;> simp_all [Descriptor.Refuses]
      cases v with
      | null =>
        rw [Content.ofValue_null h]
        cases hm : d.multiValued with
        | false => simpa [Content.empty_object h hm, Content.check, Composite.route] using objects []
        | true => simp [Content.empty_items h hm, Content.check, Item.checkAll]
      | list items =>
        have hm : d.multiValued = true := by simpa [Descriptor.Refuses] using hv
        rw [Content.ofValue_items h hm, Content.check, isEmpty_check_items h objects]
        simp [hm]
      | map entries =>
        have hm : d.multiValued = false := by simpa [Descriptor.Refuses] using hv
        rw [Content.ofValue_object h hm, Content.check, objects]
        simp [hm, Descriptor.matches_complex h]
      | _ => exact absurd trivial hv

/-- Null is no value that every optional attribute takes: an optional name without its required family
name has a problem. -/
theorem not_isValid_iff_of_null_conforms :
    ¬ ∃ conforms : Descriptor → Value → Prop,
      (∀ d, d.required = false → d.multiValued = false → conforms d .null) ∧
        ∀ d v, ((Attribute.bind d).assignUncoerced v).isValid = true ↔ conforms d v := by
  rintro ⟨conforms, hnull, hiff⟩
  have invalid : ((Attribute.bind ((Descriptor.new "name" .complex).addSub
      { Descriptor.new "familyName" .string with required := true })).assignUncoerced
        .null).isValid = false := by decide
  exact Bool.false_ne_true (invalid.symm.trans ((hiff _ .null).2 (hnull _ rfl rfl)))

end Scim
