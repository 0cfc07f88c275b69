import Scim.Proofs.Attribute.RoundTrip

/-!
# What a mode hides

Two attributes are alike in a mode (`Attribute.Alike`) if they differ only below descriptors that the mode
hides, and in what no output shows: reports, and keys that are not declared.

For a server it depends on the descriptor alone whether an attribute shows (`Attribute.render_server`); so
what a server shows of attributes that are alike to it is the same (`Attribute.Alike.render_eq`), and the
proof follows the two trees down to the first hidden descriptor and no further.

A client does not show either what it could write but has not. An object for which all sub-attributes are
blank is blank, the hidden ones too, so of two objects that are alike to a client one may be shown and
the other not (`Attribute.not_alike_render_client`). It is no more than that: what a client shows of
attributes that are alike to it is the same if in both the same is withheld for being blank, and, where
siblings have different names, only then (`Attribute.Alike.render_client_iff`). No attribute that clients
only write depends on what is hidden if nothing is hidden in it (`Descriptor.Discreet`).
-/

set_option autoImplicit false

namespace Scim

/-! ## Trees that differ in what is hidden -/

mutual

/-- Attributes of one descriptor: one that is hidden in the mode may hold anything. -/
inductive Attribute.Alike (mode : Mode) : Attribute → Attribute → Prop
  | hidden {d : Descriptor} {content content' : Content} {report report' : Report} :
      d.isHidden mode = true → Attribute.Alike mode (.mk d content report) (.mk d content' report')
  | shown {d : Descriptor} {content content' : Content} {report report' : Report} :
      Content.Alike mode content content' →
      Attribute.Alike mode (.mk d content report) (.mk d content' report')

/-- Contents of one shape, with the same values in the same places. A value is the same only if it is
written the same: that two are equal as numbers or as instants is not enough. -/
inductive Content.Alike (mode : Mode) : Content → Content → Prop
  | plain (v : Value) : Content.Alike mode (.plain v) (.plain v)
  | object {c c' : Composite} : Composite.Alike mode c c' → Content.Alike mode (.object c) (.object c')
  | items {items items' : List Item} : Item.AllAlike mode items items' →
      Content.Alike mode (.items items) (.items items')

inductive Item.AllAlike (mode : Mode) : List Item → List Item → Prop
  | nil : Item.AllAlike mode [] []
  | object {c c' : Composite} {rest rest' : List Item} : Composite.Alike mode c c' →
      Item.AllAlike mode rest rest' → Item.AllAlike mode (.object c :: rest) (.object c' :: rest')
  | other (v : Value) {rest rest' : List Item} : Item.AllAlike mode rest rest' →
      Item.AllAlike mode (.other v :: rest) (.other v :: rest')

/-- The keys that are not declared may differ. -/
inductive Composite.Alike (mode : Mode) : Composite → Composite → Prop
  | mk {attributes attributes' : List Attribute} {undeclared undeclared' : List String} :
      Attribute.AllAlike mode attributes attributes' →
      Composite.Alike mode (.mk attributes undeclared) (.mk attributes' undeclared')

inductive Attribute.AllAlike (mode : Mode) : List Attribute → List Attribute → Prop
  | nil : Attribute.AllAlike mode [] []
  | cons {a a' : Attribute} {rest rest' : List Attribute} : Attribute.Alike mode a a' →
      Attribute.AllAlike mode rest rest' → Attribute.AllAlike mode (a :: rest) (a' :: rest')

end

theorem Attribute.Alike.descriptor_eq {mode : Mode} {a a' : Attribute} (h : a.Alike mode a') :
    a.descriptor = a'.descriptor := by
  cases h <;> rfl

theorem Attribute.Alike.name_eq {mode : Mode} {a a' : Attribute} (h : a.Alike mode a') :
    a.name = a'.name := by
  cases h <;> rfl

/-! ## What a server shows of them -/

mutual

theorem Attribute.Alike.render_eq {a a' : Attribute} :
    a.Alike .server a' → a.render .server = a'.render .server
  | .hidden hidden => by simp [Attribute.render_server, Attribute.descriptor, hidden]
  | @Attribute.Alike.shown _ d _ _ _ _ hcontent => by
    rw [Attribute.render_server, Attribute.render_server]
    exact congrArg (fun j => if d.isHidden .server then none else some j) hcontent.render_eq

theorem Content.Alike.render_eq {d : Descriptor} {content content' : Content} :
    content.Alike .server content' → content.render .server d = content'.render .server d
  | .plain _ => rfl
  | .object hc => hc.render_eq
  | .items hitems => by rw [Content.render, Content.render, hitems.render_eq]

theorem Item.AllAlike.render_eq {items items' : List Item} :
    Item.AllAlike .server items items' → Item.renderAll .server items = Item.renderAll .server items'
  | .nil => rfl
  | .object hc hrest => by
    rw [Item.renderAll, Item.renderAll, hc.render_eq, hrest.render_eq]
  | .other _ hrest => by rw [Item.renderAll, Item.renderAll, hrest.render_eq]

theorem Composite.Alike.render_eq {c c' : Composite} :
    c.Alike .server c' → c.render .server = c'.render .server
  | .mk hattributes => by rw [Composite.render, Composite.render, hattributes.members_eq]

theorem Attribute.AllAlike.members_eq {attributes attributes' : List Attribute} :
    Attribute.AllAlike .server attributes attributes' →
      Attribute.members .server attributes = Attribute.members .server attributes'
  | .nil => rfl
  | .cons ha hrest => by
    rw [Attribute.members, Attribute.members, ha.name_eq, ha.render_eq, hrest.members_eq]

end

/-! ## What a client withholds -/

/-- A step down from an attribute: to a sub-attribute of its object, or of one of the objects in its
list. -/
inductive Content.Step where
  | sub (i : Nat)
  | subOf (item i : Nat)

def Item.sub? : Item → Nat → Option Attribute
  | .object c, i => c.attributes[i]?
  | .other _, _ => none

/-- The attribute to which a step leads. -/
def Content.at? : Content → Step → Option Attribute
  | .object c, .sub i => c.attributes[i]?
  | .items elements, .subOf k i => elements[k]?.bind (Item.sub? · i)
  | _, _ => none

namespace Attribute

/-- At the end of a way down, on which a client shows every attribute, stands one that clients only write
and that it does not show: not because it is never returned, but because it is blank. -/
def withholds : Attribute → List Content.Step → Bool
  | a, [] => !a.descriptor.isHidden .client && a.descriptor.mutability == .writeOnly && a.isBlank
  | a, step :: place => a.isVisible .client && (a.content.at? step).any fun b => b.withholds place

theorem withholds_cons (a : Attribute) (step : Content.Step) (place : List Content.Step) :
    a.withholds (step :: place) =
      (a.isVisible .client && (a.content.at? step).any (Attribute.withholds · place)) := rfl

/-- What is neither hidden nor withheld is shown. -/
theorem withholds_nil (a : Attribute) :
    a.withholds [] = (!a.descriptor.isHidden .client && !a.isVisible .client) := by
  simp only [withholds, isVisible, Descriptor.isHidden]
  cases a.descriptor.returned <;> cases a.descriptor.mutability <;> cases a.isBlank <;> rfl

/-- The same is withheld below two attributes, each of which may be missing. -/
def WithholdSame (a? a'? : Option Attribute) : Prop :=
  ∀ place, a?.any (withholds · place) = a'?.any (withholds · place)

theorem withholds_of_isHidden {a : Attribute} (h : a.descriptor.isHidden .client = true)
    (place : List Content.Step) : a.withholds place = false := by
  cases place with
  | nil => simp [withholds_nil, h]
  | cons step place => simp [withholds_cons, isVisible_of_isHidden h]

theorem isVisible_eq_iff {a a' : Attribute} (h : a.descriptor = a'.descriptor) :
    a.isVisible .client = a'.isVisible .client ↔ a.withholds [] = a'.withholds [] := by
  rw [withholds_nil, withholds_nil, ← h]
  cases hhidden : a.descriptor.isHidden .client with
  | true => simp [isVisible_of_isHidden hhidden, isVisible_of_isHidden (h ▸ hhidden)]
  | false => simp

end Attribute

/-! ## What a client shows of them -/

mutual

theorem Attribute.Alike.render_client {a a' : Attribute} :
    a.Alike .client a' → (∀ place, a.withholds place = a'.withholds place) →
      a.render .client = a'.render .client
  | .hidden hd, _ =>
    (Attribute.render_of_isHidden hd).trans (Attribute.render_of_isHidden hd).symm
  | @Attribute.Alike.shown _ d content content' report report' hcontent, h => by
    have hvisible : (Attribute.mk d content report).isVisible .client =
        (Attribute.mk d content' report').isVisible .client :=
      (Attribute.isVisible_eq_iff (by rfl)).2 (h [])
    rw [Attribute.render_eq, Attribute.render_eq, hvisible]
    cases hv : (Attribute.mk d content' report').isVisible .client with
    | false => rfl
    | true =>
      have hbelow (step : Content.Step) :
          Attribute.WithholdSame (content.at? step) (content'.at? step) := by
        intro place
        have h := h (step :: place)
        rwa [Attribute.withholds_cons, Attribute.withholds_cons, hvisible, hv, Bool.true_and,
          Bool.true_and] at h
      rw [if_pos rfl, if_pos rfl]
      exact congrArg some (hcontent.render_client hbelow)

theorem Content.Alike.render_client {d : Descriptor} {content content' : Content} :
    content.Alike .client content' →
      (∀ step, Attribute.WithholdSame (content.at? step) (content'.at? step)) →
      content.render .client d = content'.render .client d
  | .plain _, _ => rfl
  | .object hc, h => hc.render_client fun i => h (.sub i)
  | .items hitems, h => by
    rw [Content.render, Content.render, hitems.render_client fun k i => h (.subOf k i)]

theorem Item.AllAlike.render_client {items items' : List Item} :
    Item.AllAlike .client items items' →
      (∀ k i : Nat, Attribute.WithholdSame (items[k]?.bind (Item.sub? · i))
        (items'[k]?.bind (Item.sub? · i))) →
      Item.renderAll .client items = Item.renderAll .client items'
  | .nil, _ => rfl
  | .object hc hrest, h => by
    rw [Item.renderAll, Item.renderAll, hc.render_client fun i => h 0 i,
      hrest.render_client fun k i => h (k + 1) i]
  | .other _ hrest, h => by
    rw [Item.renderAll, Item.renderAll, hrest.render_client fun k i => h (k + 1) i]

theorem Composite.Alike.render_client {c c' : Composite} :
    c.Alike .client c' →
      (∀ i : Nat, Attribute.WithholdSame c.attributes[i]? c'.attributes[i]?) →
      c.render .client = c'.render .client
  | .mk hattributes, h => by
    rw [Composite.render, Composite.render, hattributes.members_client h]

theorem Attribute.AllAlike.members_client {attributes attributes' : List Attribute} :
    Attribute.AllAlike .client attributes attributes' →
      (∀ i : Nat, Attribute.WithholdSame attributes[i]? attributes'[i]?) →
      Attribute.members .client attributes = Attribute.members .client attributes'
  | .nil, _ => rfl
  | .cons ha hrest, h => by
    rw [Attribute.members, Attribute.members, ha.name_eq, ha.render_client (h 0),
      hrest.members_client fun i => h (i + 1)]

end

/-! ## What is withheld can be seen -/

namespace Attribute

/-- What an attribute adds to its object is all that it shows, if that is not null. -/
theorem map_member? {mode : Mode} {a : Attribute}
    (h : (a.content.render mode a.descriptor).isNull = false) :
    (a.member? mode).map Prod.snd = a.render mode := by
  rw [member?, render_eq]
  cases a.isVisible mode with
  | false => rfl
  | true => simp [h]

/-- Attributes that are alike show the same if they add the same to their objects: what shows as null
is the same in both. -/
theorem Alike.render_of_member? {a a' : Attribute} (h : a.Alike .client a')
    (hm : (a.member? .client).map Prod.snd = (a'.member? .client).map Prod.snd) :
    a.render .client = a'.render .client := by
  cases h with
  | hidden hd => exact (render_of_isHidden hd).trans (render_of_isHidden hd).symm
  | shown hcontent =>
    cases hcontent with
    | plain v =>
      -- only this can show as null, and it is blank in both or in neither
      rw [render, render]
      rfl
    | object hc =>
      cases hc
      rwa [map_member? rfl, map_member? rfl] at hm
    | items hitems => rwa [map_member? rfl, map_member? rfl] at hm

theorem AllAlike.names_eq {mode : Mode} {attributes attributes' : List Attribute} :
    AllAlike mode attributes attributes' → attributes.map name = attributes'.map name
  | .nil => rfl
  | .cons ha hrest => by rw [List.map_cons, List.map_cons, ha.name_eq, hrest.names_eq]

theorem AllAlike.getElem? {mode : Mode} {attributes attributes' : List Attribute} :
    AllAlike mode attributes attributes' →
      ∀ i : Nat, Option.Rel (Alike mode) attributes[i]? attributes'[i]?
  | .nil, _ => .none
  | .cons ha _, 0 => .some ha
  | .cons _ hrest, i + 1 => hrest.getElem? i

/-- Where no name stands twice, objects that show the same get the same from each sub-attribute. -/
theorem AllAlike.map_render_eq {attributes attributes' : List Attribute}
    (h : AllAlike .client attributes attributes') (hnodup : (attributes.map name).Nodup)
    (hmembers : Json.map (members .client attributes) = .map (members .client attributes')) :
    attributes.map (render .client) = attributes'.map (render .client) := by
  have hnodup' : (attributes'.map name).Nodup := h.names_eq ▸ hnodup
  have hget (key : String) : Entries.get? (members .client attributes) key =
      Entries.get? (members .client attributes') key := by
    rw [← Entries.get?_ofList (nodup_members .client hnodup),
      ← Entries.get?_ofList (nodup_members .client hnodup'), Json.object.inj hmembers]
  apply List.ext_getElem?
  intro i
  rw [List.getElem?_map, List.getElem?_map]
  have hi := h.getElem? i
  generalize hb : attributes[i]? = b?, hb' : attributes'[i]? = b'? at hi ⊢
  cases hi with
  | none => rfl
  | @some b b' halike =>
    have hm := hget b.name
    rw [get?_members hnodup (List.mem_of_getElem? hb), halike.name_eq,
      get?_members hnodup' (List.mem_of_getElem? hb')] at hm
    rw [Option.map_some, Option.map_some, halike.render_of_member? hm]

/-- Two sub-attributes that stand in one place of contents of `d`, and that show the same where the
contents are seen to be the same. -/
structure Counterparts (K : Kept) (d : Descriptor) (seen : Prop) (b b' : Attribute) : Prop where
  alike : b.Alike .client b'
  shaped : b.Shaped K
  declared : b.descriptor ∈ d.subAttributes
  render_eq : seen → b.render .client = b'.render .client

end Attribute

section
variable {K : Kept} {d : Descriptor} {seen : Prop}

theorem Composite.Alike.attributes {mode : Mode} {c c' : Composite} :
    c.Alike mode c' → Attribute.AllAlike mode c.attributes c'.attributes
  | .mk hattributes => hattributes

theorem Composite.Alike.counterparts {c c' : Composite} (h : c.Alike .client c')
    (hd : c.attributes.map Attribute.descriptor = d.subAttributes)
    (hs : ∀ b ∈ c.attributes, Content.Shaped K b.descriptor b.content)
    (hseen : seen → d.names.Nodup ∧ c.render .client = c'.render .client) (i : Nat) :
    Option.Rel (Attribute.Counterparts K d seen) c.attributes[i]? c'.attributes[i]? := by
  have hi := h.attributes.getElem? i
  generalize hb : c.attributes[i]? = b?, hb' : c'.attributes[i]? = b'? at hi ⊢
  cases hi with
  | none => exact .none
  | @some b b' halike =>
    have hmem := List.mem_of_getElem? hb
    refine .some ⟨halike, hs b hmem, hd ▸ List.mem_map_of_mem hmem, fun hsame => ?_⟩
    obtain ⟨hnodup, hrender⟩ := hseen hsame
    rw [← names_of_descriptors hd] at hnodup
    rw [Composite.render_eq, Composite.render_eq] at hrender
    have hmap := congrArg (·[i]?) (h.attributes.map_render_eq hnodup hrender)
    simpa [hb, hb'] using hmap

theorem Item.AllAlike.counterparts {items items' : List Item} : Item.AllAlike .client items items' →
    (∀ c, .object c ∈ items → c.attributes.map Attribute.descriptor = d.subAttributes) →
    (∀ c, .object c ∈ items → ∀ b ∈ c.attributes, Content.Shaped K b.descriptor b.content) →
    (seen → d.names.Nodup ∧ Item.renderAll .client items = Item.renderAll .client items') →
    ∀ k i : Nat, Option.Rel (Attribute.Counterparts K d seen) (items[k]?.bind (Item.sub? · i))
      (items'[k]?.bind (Item.sub? · i))
  | .nil, _, _, _, _, _ => .none
  | .object hc _, hd, hs, hseen, 0, i =>
    hc.counterparts (hd _ List.mem_cons_self) (hs _ List.mem_cons_self)
      (fun h => ⟨(hseen h).1, (List.cons.inj (hseen h).2).1⟩) i
  | .object _ hrest, hd, hs, hseen, k + 1, i =>
    hrest.counterparts (fun c hc => hd c (List.mem_cons_of_mem _ hc))
      (fun c hc => hs c (List.mem_cons_of_mem _ hc))
      (fun h => ⟨(hseen h).1, (List.cons.inj (hseen h).2).2⟩) k i
  | .other _ _, _, _, _, 0, _ => .none
  | .other _ hrest, hd, hs, hseen, k + 1, i =>
    hrest.counterparts (fun c hc => hd c (List.mem_cons_of_mem _ hc))
      (fun c hc => hs c (List.mem_cons_of_mem _ hc))
      (fun h => ⟨(hseen h).1, (List.cons.inj (hseen h).2).2⟩) k i

/-- A step leads to nothing from both contents, or to counterparts. -/
theorem Content.Alike.counterparts {content content' : Content} (h : content.Alike .client content')
    (hs : content.Shaped K d)
    (hseen : seen → d.names.Nodup ∧ content.render .client d = content'.render .client d)
    (step : Content.Step) :
    Option.Rel (Attribute.Counterparts K d seen) (content.at? step) (content'.at? step) := by
  cases h with
  | plain v => cases step <;> exact .none
  | object hc =>
    cases hs with
    | object _ _ hdescriptors hshaped _ =>
      cases step with
      | sub i => exact hc.counterparts hdescriptors hshaped hseen i
      | subOf k i => exact .none
  | items hitems =>
    cases hs with
    | items _ _ hdescriptors hshaped _ _ =>
      cases step with
      | sub i => exact .none
      | subOf k i =>
        exact hitems.counterparts hdescriptors hshaped
          (fun h => ⟨(hseen h).1, Json.array.inj (hseen h).2⟩) k i

end

namespace Attribute

variable {K : Kept} {a a' : Attribute}

/-- One step down: the same is withheld below counterparts, and so below the step. -/
theorem Alike.withholds_cons_eq (h : a.Alike .client a') (hs : a.Shaped K)
    (hvisible : a.isVisible .client = a'.isVisible .client) (step : Content.Step)
    {place : List Content.Step}
    (hsub : ∀ b b' : Attribute, a.descriptor.isHidden .client = false →
      Counterparts K a.descriptor
        (a.descriptor.names.Nodup ∧ a.render .client = a'.render .client) b b' →
      b.withholds place = b'.withholds place) :
    a.withholds (step :: place) = a'.withholds (step :: place) := by
  rw [withholds_cons, withholds_cons, hvisible]
  cases hv' : a'.isVisible .client with
  | false => rfl
  | true =>
    have hv := hvisible.trans hv'
    rw [render_of_isVisible hv, render_of_isVisible hv', Option.some_inj] at hsub
    cases h with
    | hidden hd => exact absurd ((isHidden_of_isVisible hv).symm.trans hd) (by decide)
    | @shown d content content' report report' hcontent =>
      have hcounterparts := hcontent.counterparts hs id step
      show (true && (content.at? step).any _) = (true && (content'.at? step).any _)
      generalize content.at? step = b?, content'.at? step = b'? at hcounterparts ⊢
      cases hcounterparts with
      | none => rfl
      | some hb => exact congrArg (true && ·) (hsub _ _ (isHidden_of_isVisible hv) hb)

/-- Where siblings have different names, it can be seen what is withheld. -/
theorem Alike.withholds_eq (h : a.Alike .client a') (hs : a.Shaped K) (hd : a.descriptor.Distinct)
    (hrender : a.render .client = a'.render .client) (place : List Content.Step) :
    a.withholds place = a'.withholds place := by
  have hvisible {a a' : Attribute} (h : a.render .client = a'.render .client) :
      a.isVisible .client = a'.isVisible .client := by
    rw [← isSome_render, ← isSome_render, h]
  -- down the place, with counterparts that show the same at each step
  induction place generalizing a a' with
  | nil => exact (isVisible_eq_iff h.descriptor_eq).1 (hvisible hrender)
  | cons step place ih =>
    obtain ⟨hnames, hsubs⟩ := hd
    exact h.withholds_cons_eq hs (hvisible hrender) step fun b b' _ hb =>
      ih hb.alike hb.shaped (hsubs _ hb.declared) (hb.render_eq ⟨hnames, hrender⟩)

end Attribute

/-! ## Descriptors that hide nothing that counts -/

/-- A client can see whether an attribute of the descriptor is blank: what it holds is no single object,
or one in which nothing is hidden and of all of which the same is true. -/
inductive Descriptor.Telling : Descriptor → Prop
  | other {d : Descriptor} : (d.isComplex && !d.multiValued) = false → Telling d
  | object {d : Descriptor} : (∀ sub ∈ d.subAttributes, sub.isHidden .client = false) →
      (∀ sub ∈ d.subAttributes, Telling sub) → Telling d

/-- A client can see whether what it only writes is blank, at any depth down to what is hidden. -/
inductive Descriptor.Discreet : Descriptor → Prop
  | hidden {d : Descriptor} : d.isHidden .client = true → Discreet d
  | seen {d : Descriptor} : (d.mutability = .writeOnly → d.Telling) →
      (∀ sub ∈ d.subAttributes, Discreet sub) → Discreet d

theorem Attribute.AllAlike.allBlank_eq {mode : Mode} {attributes attributes' : List Attribute} :
    AllAlike mode attributes attributes' →
      (∀ b ∈ attributes, ∀ b', b.Alike mode b' → b.isBlank = b'.isBlank) →
      allBlank attributes = allBlank attributes'
  | .nil, _ => rfl
  | .cons ha hrest, h => by
    rw [allBlank, allBlank, h _ List.mem_cons_self _ ha,
      hrest.allBlank_eq fun b hb => h b (List.mem_cons_of_mem _ hb)]

theorem Content.Alike.isBlank_eq {K : Kept} {d : Descriptor} {content content' : Content}
    (h : content.Alike .client content') (hs : content.Shaped K d) (hd : d.Telling) :
    content.isBlank = content'.isBlank := by
  induction hs generalizing content' with
  | plain _ =>
    cases h
    rfl
  | items =>
    cases h with
    | items hitems => cases hitems <;> rfl
  | object hc hm hdescriptors hs hk ih =>
    cases hd with
    | other hother => simp [hc, hm] at hother
    | object hseen htelling =>
      cases h with
      | object hcomposite =>
        obtain ⟨hattributes⟩ := hcomposite
        refine hattributes.allBlank_eq fun b hb b' halike => ?_
        have hsub := hdescriptors ▸ List.mem_map_of_mem hb
        cases halike with
        | hidden hh => exact absurd ((hseen _ hsub).symm.trans hh) (by decide)
        | shown hcontent => exact ih _ hb hcontent (htelling _ hsub)

namespace Attribute

variable {K : Kept} {a a' : Attribute}

theorem Alike.withholds_nil_of_discreet (h : a.Alike .client a') (hs : a.Shaped K)
    (hd : a.descriptor.Discreet) : a.withholds [] = a'.withholds [] := by
  cases hh : a.descriptor.isHidden .client with
  | true => rw [withholds_of_isHidden hh, withholds_of_isHidden (h.descriptor_eq ▸ hh)]
  | false =>
    have hblank (hw : a.descriptor.mutability = .writeOnly) : a.isBlank = a'.isBlank := by
      cases hd with
      | hidden hd => exact absurd (hh.symm.trans hd) (by decide)
      | seen htelling _ =>
        cases h with
        | hidden hd => exact absurd (hh.symm.trans hd) (by decide)
        | shown hcontent =>
          rw [isBlank, isBlank]
          exact hcontent.isBlank_eq hs (htelling hw)
    rw [withholds, withholds, ← h.descriptor_eq]
    by_cases hw : a.descriptor.mutability = .writeOnly
    · rw [hblank hw]
    · simp [beq_false_of_ne hw]

theorem Alike.withholds_of_discreet (h : a.Alike .client a') (hs : a.Shaped K)
    (hd : a.descriptor.Discreet) (place : List Content.Step) :
    a.withholds place = a'.withholds place := by
  induction place generalizing a a' with
  | nil => exact h.withholds_nil_of_discreet hs hd
  | cons step place ih =>
    have hvisible := (isVisible_eq_iff h.descriptor_eq).2 (h.withholds_nil_of_discreet hs hd)
    refine h.withholds_cons_eq hs hvisible step fun b b' hseen hb => ?_
    cases hd with
    | hidden hd => exact absurd (hseen.symm.trans hd) (by decide)
    | seen _ hsubs => exact ih hb.alike hb.shaped (hsubs _ hb.declared)

end Attribute

/-! ## Main result -/

namespace Attribute

/-- **What a client shows of attributes that are alike to it is the same** if in both the same is withheld
as blank; and where no two sub-attributes have one name, only then. So it is the same for every descriptor
by which a client sees whether what it only writes is blank. -/
theorem Alike.render_client_iff {K : Kept} {a a' : Attribute} (h : a.Alike .client a') :
    ((∀ place, a.withholds place = a'.withholds place) → a.render .client = a'.render .client) ∧
      (a.Shaped K → a.descriptor.Distinct → a.render .client = a'.render .client →
        ∀ place, a.withholds place = a'.withholds place) ∧
      (a.Shaped K → a.descriptor.Discreet → a.render .client = a'.render .client) := by
  refine ⟨h.render_client, h.withholds_eq, fun hs hd => ?_⟩
  have hsame := h.withholds_of_discreet hs hd
  exact h.render_client hsame

/-- A login shows in the same way whether or not it has been changed, password and all. -/
theorem render_client_login :
    let password : Descriptor := { Descriptor.new "password" .string with mutability := .writeOnly }
    let lastChanged : Descriptor := { Descriptor.new "lastChanged" .string with mutability := .readOnly }
    let login : Descriptor := ((Descriptor.new "login" .complex).addSub password).addSub lastChanged
    let held := (bind login).assign (.map [("password", .text "s")])
    let changed := (bind login).assign
      (.map [("lastChanged", .text "2019-01-06"), ("password", .text "s")])
    held.Alike .client changed ∧ held.Shaped .misshapen ∧ login.Distinct ∧ login.Discreet ∧
      (∀ place, held.withholds place = changed.withholds place) ∧
      held.render .client = changed.render .client := by
  intro password lastChanged login held changed
  have halike : held.Alike .client changed :=
    .shown (.object (.mk (.cons (.shown (.plain _)) (.cons (.hidden rfl) .nil))))
  have hshaped : held.Shaped .misshapen := .store (Kept.takes_misshapen true) trivial _
  have forall_sub {P : Descriptor → Prop} (hp : P password) (hl : P lastChanged) :
      ∀ sub ∈ login.subAttributes, P sub := by
    intro sub hsub
    rcases List.mem_cons.1 hsub with rfl | hsub
    · exact hp
    · exact List.mem_singleton.1 hsub ▸ hl
  have hdistinct : login.Distinct :=
    .intro (by decide) (forall_sub (.intro (by decide) (by simp [password, Descriptor.new]))
      (.intro (by decide) (by simp [lastChanged, Descriptor.new])))
  have hdiscreet : login.Discreet :=
    .seen (by simp [login, Descriptor.addSub, Descriptor.new]) (forall_sub
      (.seen (fun _ => .other rfl) (by simp [password, Descriptor.new])) (.hidden rfl))
  obtain ⟨hshow, honly, hdescriptor⟩ := halike.render_client_iff (K := .misshapen)
  have hsame := honly hshaped hdistinct (hdescriptor hshaped hdiscreet)
  exact ⟨halike, hshaped, hdistinct, hdiscreet, hsame, hshow hsame⟩

/-- What clients never send can decide whether an object shows: with it the object is not blank. -/
theorem not_alike_render_client :
    let lastChanged : Descriptor := { Descriptor.new "lastChanged" .string with mutability := .readOnly }
    let credentials : Descriptor :=
      { (Descriptor.new "credentials" .complex).addSub lastChanged with mutability := .writeOnly }
    let fresh := bind credentials
    let held := fresh.assign (.map [("lastChanged", .text "2019-01-06")])
    fresh.Alike .client held ∧ fresh.render .client = none ∧
      held.render .client = some (.object []) := by
  intro lastChanged credentials fresh held
  exact ⟨.shown (.object (.mk (.cons (.hidden rfl) .nil))), rfl, rfl⟩

end Attribute

end Scim
