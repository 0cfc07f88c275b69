import Scim.Attribute.Render
import Scim.Proofs.Attribute.Storage
import Scim.Proofs.Table
import Scim.Proofs.Value

/-!
# Hidden sub-attributes

What is taken apart into sub-attributes is rendered without those that a mode hides
(`Composite.not_conceals`). A value of the wrong shape is not taken apart and is rendered as it
is, so `shows_concealed_iff` says when a hidden name shows: exactly when a complex attribute keeps an
object where several values are declared, or a list of objects where one is, with that name as a key.
-/

set_option autoImplicit false

namespace Scim

/-! ## Keys of objects -/

/-- An object with the key stands as the document or as an element of it. -/
def Json.Shows (j : Json) (key : String) : Prop :=
  ∃ members, (j = .object members ∨ ∃ items, j = .array items ∧ .object members ∈ items) ∧
    key ∈ members.map Prod.fst

/-- An object with the key stands as the value or as an element of it. -/
def Value.Shows (v : Value) (key : String) : Prop :=
  ∃ entries, (v = .map entries ∨ ∃ items, v = .list items ∧ .map entries ∈ items) ∧
    key ∈ entries.map Prod.fst

namespace Value

theorem shows_toJson {v : Value} {key : String} : v.toJson.Shows key ↔ v.Shows key := by
  constructor
  · rintro ⟨members, h | ⟨items, h, hm⟩, hkey⟩
    · obtain ⟨entries, rfl, rfl⟩ := toJson_eq_object_iff.1 h
      exact ⟨entries, .inl rfl, by simpa using hkey⟩
    · obtain ⟨values, rfl, rfl⟩ := toJson_eq_array_iff.1 h
      obtain ⟨v, hv, he⟩ := List.mem_map.1 hm
      obtain ⟨entries, rfl, rfl⟩ := toJson_eq_object_iff.1 he
      exact ⟨entries, .inr ⟨values, rfl, hv⟩, by simpa using hkey⟩
  · rintro ⟨entries, rfl | ⟨values, rfl, hm⟩, hkey⟩
    · exact ⟨_, .inl (toJson_eq_object_iff.2 ⟨entries, rfl, rfl⟩), by simpa using hkey⟩
    · refine ⟨_, .inr ⟨_, toJson_eq_array_iff.2 ⟨values, rfl, rfl⟩,
        List.mem_map.2 ⟨_, hm, toJson_eq_object_iff.2 ⟨entries, rfl, rfl⟩⟩⟩, by simpa using hkey⟩

end Value

/-! ## What a mode hides -/

/-- What is never returned, and what the side of a mode never sends. -/
def Descriptor.isHidden (mode : Mode) (d : Descriptor) : Bool :=
  d.returned == .never ||
    match mode, d.mutability with
    | .server, .writeOnly => true
    | .client, .readOnly => true
    | _, _ => false

/-- The name of a hidden sub-attribute, in any letter case, that no visible one has too. -/
def Descriptor.Conceals (d : Descriptor) (mode : Mode) (key : String) : Prop :=
  (∃ sub ∈ d.subAttributes, sub.isHidden mode = true ∧ Text.sameName sub.name key = true) ∧
    ∀ sub ∈ d.subAttributes, Text.sameName sub.name key = true → sub.isHidden mode = true

theorem Attribute.isBlank_eq (a : Attribute) : a.isBlank = a.content.isBlank := by
  obtain ⟨d, content, report⟩ := a
  rw [isBlank, Attribute.content]

theorem Attribute.render_eq (mode : Mode) (a : Attribute) : a.render mode =
    if a.isVisible mode then some (a.content.render mode a.descriptor) else none := by
  obtain ⟨d, content, report⟩ := a
  rw [render, Attribute.content, descriptor]

theorem Composite.render_eq (mode : Mode) (c : Composite) :
    c.render mode = .map (Attribute.members mode c.attributes) := by
  obtain ⟨attributes, undeclared⟩ := c
  rw [render, Composite.attributes]

theorem Attribute.isHidden_of_render {mode : Mode} {a : Attribute} {j : Json}
    (h : a.render mode = some j) :
    a.descriptor.isHidden mode = false ∧ a.content.render mode a.descriptor = j := by
  obtain ⟨d, content, report⟩ := a
  rw [Attribute.render] at h
  split at h
  · rename_i hv
    refine ⟨?_, Option.some.inj h⟩
    simp only [isVisible, descriptor, Bool.and_eq_true, bne_iff_ne] at hv
    obtain ⟨hr, hm⟩ := hv
    simp only [Descriptor.isHidden, descriptor, Bool.or_eq_false_iff, beq_eq_false_iff_ne]
    refine ⟨hr, ?_⟩
    cases mode <;> cases hd : d.mutability <;> simp_all
  · cases h

namespace Attribute

variable {mode : Mode} {a : Attribute}

theorem render_of_isVisible (h : a.isVisible mode = true) :
    a.render mode = some (a.content.render mode a.descriptor) := by
  rw [render_eq, if_pos h]

theorem isHidden_of_isVisible (h : a.isVisible mode = true) : a.descriptor.isHidden mode = false :=
  (isHidden_of_render (render_of_isVisible h)).1

theorem isVisible_of_isHidden (h : a.descriptor.isHidden mode = true) : a.isVisible mode = false := by
  cases hv : a.isVisible mode with
  | false => rfl
  | true =>
    rw [isHidden_of_isVisible hv] at h
    cases h

theorem isSome_render (mode : Mode) (a : Attribute) : (a.render mode).isSome = a.isVisible mode := by
  rw [render_eq]
  cases a.isVisible mode <;> rfl

theorem render_of_isHidden (h : a.descriptor.isHidden mode = true) : a.render mode = none := by
  rw [render_eq, isVisible_of_isHidden h]
  rfl

end Attribute

/-- To a server everything shows that its descriptor does not hide. -/
theorem Attribute.render_server (a : Attribute) : a.render .server =
    if a.descriptor.isHidden .server then none else some (a.content.render .server a.descriptor) := by
  obtain ⟨d, content, report⟩ := a
  have hvisible : isVisible .server (.mk d content report) = !d.isHidden .server := by
    simp only [isVisible, Descriptor.isHidden, descriptor]
    cases hr : d.returned <;> cases hm : d.mutability <;> rfl
  rw [render, hvisible]
  cases h : d.isHidden .server <;> simp [h, descriptor, Attribute.content]

/-! ## Objects that are taken apart -/

theorem Attribute.mem_members {mode : Mode} {attributes : List Attribute} {m : String × Json}
    (h : m ∈ members mode attributes) :
    ∃ a ∈ attributes, a.name = m.1 ∧ a.render mode = some m.2 ∧ m.2.isNull = false := by
  induction attributes with
  | nil => cases h
  | cons a attributes ih =>
    have tail (h : m ∈ members mode attributes) : ∃ b ∈ a :: attributes, b.name = m.1 ∧
        b.render mode = some m.2 ∧ m.2.isNull = false := by
      obtain ⟨b, hb, hm⟩ := ih h
      exact ⟨b, List.mem_cons_of_mem _ hb, hm⟩
    rw [members] at h
    split at h
    · rename_i j hj
      split at h
      · exact tail h
      · rename_i hnull
        rcases List.mem_cons.1 h with rfl | h
        · exact ⟨a, List.mem_cons_self, rfl, hj, by simpa using hnull⟩
        · exact tail h
    · exact tail h

/-- A rendered object has keys of visible sub-attributes only. -/
theorem Composite.exists_visible {mode : Mode} {c : Composite} {members : List (String × Json)}
    (h : c.render mode = .object members) {key : String} (hkey : key ∈ members.map Prod.fst) :
    ∃ a ∈ c.attributes, a.name = key ∧ a.descriptor.isHidden mode = false := by
  obtain ⟨attributes, undeclared⟩ := c
  rw [Composite.render, Json.map, Json.object.injEq] at h
  obtain ⟨m, hm, rfl⟩ := List.mem_map.1 hkey
  rw [← h] at hm
  obtain ⟨a, ha, hname, hj, -⟩ := Attribute.mem_members (Entries.mem_of_mem_ofList hm)
  exact ⟨a, ha, hname, (Attribute.isHidden_of_render hj).1⟩

/-- An element of a rendered list. -/
def Item.render (mode : Mode) : Item → Json
  | .object c => c.render mode
  | .other v => v.toJson

theorem Item.renderAll_eq (mode : Mode) (items : List Item) :
    renderAll mode items = items.map (render mode) := by
  induction items with
  | nil => rfl
  | cons item items ih => cases item <;> rw [renderAll, ih] <;> rfl

theorem Composite.not_conceals {mode : Mode} {d : Descriptor} {c : Composite}
    (hd : c.attributes.map Attribute.descriptor = d.subAttributes) {members : List (String × Json)}
    (h : c.render mode = .object members) {key : String} (hkey : key ∈ members.map Prod.fst) :
    ¬ d.Conceals mode key := by
  rintro ⟨-, hall⟩
  obtain ⟨a, ha, rfl, hvisible⟩ := c.exists_visible h hkey
  have hmem : a.descriptor ∈ d.subAttributes := by
    rw [← hd]
    exact List.mem_map_of_mem ha
  rw [hall a.descriptor hmem (Text.sameName_refl _)] at hvisible
  cases hvisible

/-! ## Values of the wrong shape -/

/-- Complex attributes keep as a whole only what has the wrong shape, and among the elements of a list
no objects. -/
def Kept.misshapen : Kept where
  whole d v := d.isComplex = true → d.Refuses v
  element _ v := ∀ entries, v ≠ .map entries
  fresh d h hc := absurd hc (by simp [h])

theorem Kept.takes_misshapen (coerced : Bool) : misshapen.Takes coerced fun _ => True where
  simple d v h _ hc := absurd hc (by simp [h])
  refused _ _ _ hr _ _ := hr
  element _ _ h _ := h
  ofItem _ _ _ _ := trivial
  ofMember _ _ _ _ := trivial

/-- An attribute, or a sub-attribute at any depth in it. -/
inductive Attribute.Within : Attribute → Attribute → Prop
  | self (a : Attribute) : Within a a
  | object {a b x : Attribute} {c : Composite} : a.content = .object c → b ∈ c.attributes →
      Within x b → Within x a
  | item {a b x : Attribute} {c : Composite} {items : List Item} : a.content = .items items →
      .object c ∈ items → b ∈ c.attributes → Within x b → Within x a

theorem Attribute.Shaped.within {K : Kept} {a b : Attribute} (h : a.Shaped K) (hb : b.Within a) :
    b.Shaped K := by
  induction hb with
  | self a => exact h
  | @object a b x c hcontent hmem _ ih =>
    rw [Attribute.Shaped, hcontent] at h
    cases h with
    | object _ _ _ hs _ => exact ih (hs b hmem)
  | @item a b x c items hcontent hc hmem _ ih =>
    rw [Attribute.Shaped, hcontent] at h
    cases h with
    | items _ _ _ hs _ _ => exact ih (hs c hc b hmem)

/-- What is reached in any run of operations keeps a value as a whole only where it must. -/
theorem Attribute.Within.shaped {d : Descriptor} {steps : List (List String × Operation)}
    {a : Attribute} (ha : a.Within ((bind d).run steps)) : a.Shaped .misshapen :=
  ((Shaped.bind _ d).run (Kept.takes_misshapen true) (Kept.takes_misshapen false) steps).2.within ha

theorem Descriptor.renderValue_refused {d : Descriptor} (hc : d.isComplex = true) {v : Value}
    (hv : d.Refuses v) : d.renderValue v = v.toJson := by
  have hd : d.datatype = .complex := by simpa [isComplex] using hc
  have scalar (v : Value) : DataType.renderScalar .complex v = v.toJson := by
    cases v <;> rfl
  cases v with
  | null => exact absurd hv id
  | list items =>
    rw [renderValue, hd, Value.toJson, Value.toJsonAll_eq]
    exact congrArg Json.array (List.map_congr_left fun v _ => scalar v)
  | _ =>
    show d.datatype.renderScalar _ = _
    rw [hd]
    exact scalar _

/-! ## Main result -/

/-- What shows of a complex attribute, whatever it holds. -/
theorem Content.shows_iff {mode : Mode} {d : Descriptor} {content : Content}
    (h : content.Shaped .misshapen d) (hc : d.isComplex = true) {key : String}
    (hkey : d.Conceals mode key) :
    (content.render mode d).Shows key ↔
      ∃ v, content = .plain v ∧ d.Refuses v ∧ v.Shows key := by
  cases h with
  | @plain _ v hv =>
    have hv : d.Refuses v := hv hc
    rw [Content.render, Descriptor.renderValue_refused hc hv, Value.shows_toJson]
    constructor
    · exact fun hs => ⟨v, rfl, hv, hs⟩
    · rintro ⟨w, hw, -, hs⟩
      obtain rfl : v = w := by simpa using hw
      exact hs
  | @object _ c _ _ hd _ _ =>
    refine iff_of_false ?_ (by rintro ⟨_, h, -⟩; cases h)
    rintro ⟨members, h | ⟨items, h, -⟩, hm⟩
    · exact Composite.not_conceals hd h hm hkey
    · obtain ⟨attributes, undeclared⟩ := c
      simp [Content.render, Composite.render, Json.map] at h
  | @items _ items _ _ hd _ he _ =>
    refine iff_of_false ?_ (by rintro ⟨_, h, -⟩; cases h)
    rintro ⟨members, h | ⟨js, h, hj⟩, hm⟩
    · simp [Content.render] at h
    · rw [Content.render, Item.renderAll_eq, Json.array.injEq] at h
      subst h
      obtain ⟨item, hitem, hr⟩ := List.mem_map.1 hj
      cases item with
      | object c => exact Composite.not_conceals (hd c hitem) hr hm hkey
      | other v =>
        obtain ⟨entries, rfl, -⟩ := Value.toJson_eq_object_iff.1 hr
        exact he _ hitem entries rfl

/-- **A hidden name shows exactly where a value of the wrong shape has it as a key**: in any run of
operations, of any complex attribute at any depth, an object that is kept where several values are
declared, or a list of objects where one is. What is taken apart never shows it. -/
theorem Attribute.shows_concealed_iff (d : Descriptor) (steps : List (List String × Operation))
    (mode : Mode) {a : Attribute} (ha : a.Within ((Attribute.bind d).run steps))
    (hc : a.descriptor.isComplex = true) {j : Json} (hj : a.render mode = some j) :
    (∃ key, a.descriptor.Conceals mode key ∧ j.Shows key) ↔
      ∃ v key, a.content = .plain v ∧ a.descriptor.Refuses v ∧
        a.descriptor.Conceals mode key ∧ v.Shows key := by
  have shaped : a.Shaped .misshapen := Within.shaped ha
  have hrender := (isHidden_of_render hj).2
  subst hrender
  constructor
  · rintro ⟨key, hkey, hs⟩
    obtain ⟨v, hv, hr, hs⟩ := (Content.shows_iff shaped hc hkey).1 hs
    exact ⟨v, key, hv, hr, hkey, hs⟩
  · rintro ⟨v, key, hv, hr, hkey, hs⟩
    exact ⟨key, hkey, (Content.shows_iff shaped hc hkey).2 ⟨v, hv, hr, hs⟩⟩

/-- A server shows the secret of a bare object that stands for several values. -/
theorem Attribute.shows_concealed_bare_object :
    let secret : Descriptor := { Descriptor.new "secret" .string with mutability := .writeOnly }
    let tokens : Descriptor := { (Descriptor.new "tokens" .complex).addSub secret with
      multiValued := true }
    let held := (Attribute.bind tokens).run [([], .assign (.map [("secret", .text "s")]))]
    held.Within held ∧ tokens.isComplex = true ∧
      held.render .server = some (.object [("secret", .string "s")]) ∧
      ∃ key, tokens.Conceals .server key ∧ (Json.object [("secret", .string "s")]).Shows key := by
  intro secret tokens held
  have hj : held.render .server = some (.object [("secret", .string "s")]) := by rfl
  have hkey : tokens.Conceals .server "secret" :=
    ⟨⟨secret, by simp [tokens, Descriptor.addSub], by decide, Text.sameName_refl _⟩, by
      simp [tokens, secret, Descriptor.addSub, Descriptor.new, Descriptor.isHidden]⟩
  refine ⟨.self held, by decide, hj, ?_⟩
  exact (shows_concealed_iff tokens _ .server (.self held) (by decide) hj).2
    ⟨.map [("secret", .text "s")], "secret", rfl, rfl, hkey, _, .inl rfl, by simp⟩

end Scim
