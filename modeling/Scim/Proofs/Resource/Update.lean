import Scim.Proofs.Resource.Lookup

/-!
# Updates

Under a name that the accessors know, a value is assigned to one attribute and nothing else is touched
(`set_updates`). An accessor leads to a place (`Accessor.LeadsTo`), and every accessor in the table
leads to one that is declared (`Accessor.exists_leadsTo`). Work under the name is work at that place
(`Bound.visit_updates`); on the way to a sub-attribute a value that is no object gives way to an object
with nothing assigned. Under any other name nothing happens.
-/

set_option autoImplicit false

namespace Scim

/-! ## Accessors and places -/

namespace Accessor

/-- The place to which an accessor leads, and what is declared there. Of sub-attributes that are written
the same it is the first. -/
inductive LeadsTo (ds : List Descriptor) : Accessor → Place → Descriptor → Prop
  | top {i : Nat} {d : Descriptor} : ds[i]? = some d → LeadsTo ds ⟨i, none⟩ ⟨i, none⟩ d
  | sub {i k : Nat} {d sub : Descriptor} {child : String} : ds[i]? = some d →
      (d.isComplex && !d.multiValued) = true → d.subAttributes[k]? = some sub → sub.name = child →
      (∀ j < k, ∀ s, d.subAttributes[j]? = some s → s.name ≠ child) →
      LeadsTo ds ⟨i, some child⟩ ⟨i, some k⟩ sub

/-- The sub-attributes that are found through an attribute are declared in it. -/
theorem child_ofDescriptor {i : Nat} {d : Descriptor} {key child : String}
    (h : (key, (⟨i, some child⟩ : Accessor)) ∈ ofDescriptor i d) :
    (d.isComplex && !d.multiValued) = true ∧ ∃ sub ∈ d.subAttributes, sub.name = child := by
  unfold ofDescriptor at h
  split at h
  · rename_i hd
    rcases List.mem_append.1 h with h | h
    · simp at h
    · obtain ⟨sub, hsub, h⟩ := List.mem_flatMap.1 h
      obtain ⟨_, -, he⟩ := List.mem_map.1 h
      cases he
      exact ⟨hd, sub, hsub, rfl⟩
  · simp at h

theorem exists_leadsTo {ds : List Descriptor} {key : String} {accessor : Accessor}
    (h : (table ds).get? key = some accessor) : ∃ p d, accessor.LeadsTo ds p d := by
  obtain ⟨i, d, hd, hmem⟩ := mem_of_get?_table h
  obtain ⟨position, child⟩ := accessor
  obtain rfl : position = i := position_ofDescriptor hmem
  cases child with
  | none => exact ⟨_, d, .top hd⟩
  | some child =>
    obtain ⟨hsingle, sub, hsub, rfl⟩ := child_ofDescriptor hmem
    obtain ⟨first, hfirst⟩ : ∃ first, d.subAttributes.find? (·.name == sub.name) = some first := by
      rw [← Option.isSome_iff_exists, List.find?_isSome]
      exact ⟨sub, hsub, by simp⟩
    obtain ⟨hname, k, hk, hget, hbefore⟩ := List.find?_eq_some_iff_getElem.1 hfirst
    refine ⟨_, first, .sub hd hsingle (List.getElem?_eq_some_iff.2 ⟨hk, hget⟩) (by simpa using hname) ?_⟩
    intro j hj s hs
    obtain ⟨-, rfl⟩ := List.getElem?_eq_some_iff.1 hs
    simpa using hbefore j hj

end Accessor

/-! ## Updates of a resource -/

/-- What is read after an assignment depends on the descriptor and the value only. -/
theorem Attribute.value_assign (a : Attribute) (v : Value) :
    (a.assign v).value = ((bind a.descriptor).assign v).value := by
  have value_eq (a : Attribute) : a.value = a.content.value := by
    obtain ⟨d, content, report⟩ := a
    rw [value, Attribute.content]
  rw [value_eq, value_eq, assign, assign, content_store, content_store, descriptor_bind]

namespace Resource

/-- The second resource differs from the first at the place only. The other sub-attributes of an
attribute that holds no object are those of a new one. -/
structure Updated (r : Resource) (p : Place) (s : Resource) : Prop where
  id : s.id = r.id
  externalId : s.externalId = r.externalId
  metadata : s.metadata = r.metadata
  schemas : s.schemas = r.schemas
  accessors : s.accessors = r.accessors
  mode : s.mode = r.mode
  report : s.report = r.report
  others : ∀ i ≠ p.position, s.attributes[i]? = r.attributes[i]?
  siblings : ∀ k, p.child = some k → ∃ a c, r.attributes[p.position]? = some a ∧
    s.attributes[p.position]? = some (a.withContent (.object c)) ∧
    (∀ held, a.content = .object held →
      c.undeclared = held.undeclared ∧ ∀ m ≠ k, c.attributes[m]? = held.attributes[m]?) ∧
    ((∀ held, a.content ≠ .object held) → c.undeclared = [] ∧
      ∀ m ≠ k, c.attributes[m]? = a.descriptor.subAttributes[m]?.map Attribute.bind)

theorem others_withAttribute (r : Resource) {i j : Nat} (a : Attribute) (h : j ≠ i) :
    (r.withAttribute i a).attributes[j]? = r.attributes[j]? :=
  List.getElem?_set_ne h.symm

theorem Updated.top {r : Resource} (i : Nat) (a : Attribute) :
    r.Updated ⟨i, none⟩ (r.withAttribute i a) :=
  ⟨rfl, rfl, rfl, rfl, rfl, rfl, rfl, fun _ h => r.others_withAttribute a h, nofun⟩

theorem Updated.child {r : Resource} {i k : Nat} {a : Attribute} (ha : r.attributes[i]? = some a)
    (b : Attribute) : r.Updated ⟨i, some k⟩
      (r.withAttribute i (a.withContent (.object (a.opened.modify k fun _ => b)))) := by
  refine ⟨rfl, rfl, rfl, rfl, rfl, rfl, rfl, fun _ h => r.others_withAttribute _ h, ?_⟩
  intro m hm
  obtain rfl : k = m := by simpa using hm
  refine ⟨a, _, ha, attributes_withAttribute ha, fun held hheld => ?_, fun hother => ?_⟩
  · rw [Attribute.opened_object hheld]
    exact ⟨rfl, fun m hm => List.getElem?_modify_ne _ _ hm.symm⟩
  · rw [Attribute.opened_other hother]
    refine ⟨rfl, fun m hm => ?_⟩
    show ((Composite.bind a.descriptor).attributes.modify k _)[m]? = _
    rw [List.getElem?_modify_ne _ _ hm.symm, Composite.attributes_bind, List.getElem?_map]

variable {K : Kept} {ds : List Descriptor} {r : Resource} {name : String} {accessor : Accessor}
  {p : Place} {d : Descriptor}

/-- The object in which a sub-attribute is worked on has it at its place. -/
theorem Bound.opened_at (h : r.Bound K ds) {i k : Nat} {sub : Descriptor} (hd : ds[i]? = some d)
    (hsub : d.subAttributes[k]? = some sub)
    (hfirst : ∀ j < k, ∀ s, d.subAttributes[j]? = some s → s.name ≠ sub.name) :
    ∃ a child, r.attributes[i]? = some a ∧ a.descriptor = d ∧ child.descriptor = sub ∧
      placeOf? a.opened.names sub.name = some k ∧ a.opened.attributes[k]? = some child := by
  obtain ⟨a, ha, rfl⟩ := h.attribute_at hd
  obtain ⟨hdescriptors, -, -⟩ := (h.shaped a (List.mem_of_getElem? ha)).opened
  have hget := hsub
  rw [← hdescriptors, List.getElem?_map] at hget
  obtain ⟨child, hchild, hdescriptor⟩ := Option.map_eq_some_iff.1 hget
  refine ⟨a, child, ha, rfl, hdescriptor, ?_, hchild⟩
  rw [Composite.names_of_descriptors hdescriptors]
  exact Descriptor.placeOf?_of_first hsub hfirst

/-- What stands at the place of an accessor is what is read under its name. -/
theorem Bound.attribute?_eq (h : r.Bound K ds) (hacc : r.accessor? name = some accessor)
    (hp : accessor.LeadsTo ds p d) {b : Attribute} (hb : r.at? p = some b) :
    r.attribute? name = some b := by
  cases hp with
  | @top i _ hd =>
    obtain ⟨a, ha, rfl⟩ := h.attribute_at hd
    rw [at?_top ha] at hb
    simp only [attribute?, hacc, ha]
    exact hb
  | @sub i k parent _ _ hd hsingle hsub hname hfirst =>
    subst hname
    obtain ⟨a, child, ha, rfl, -, hk, -⟩ := h.opened_at hd hsub hfirst
    cases hc : a.content with
    | object c =>
      rw [Attribute.opened_object hc] at hk
      obtain ⟨found, hat, hfound, -⟩ := StandsFor.child hacc ha hsingle hc hk
      rw [hat] at hb
      rw [hfound, hb]
    | plain v => simp [at?, ha, hc] at hb
    | items items => simp [at?, ha, hc] at hb

/-- Work under a name is work on the attribute at the place to which the name leads. -/
theorem Bound.visit_updates (h : r.Bound K ds) (hacc : r.accessor? name = some accessor)
    (hp : accessor.LeadsTo ds p d) {α : Type} (f : Attribute → α × Attribute) :
    ∃ a s, a.descriptor = d ∧ r.visit f name = (some (f a).1, s) ∧ s.at? p = some (f a).2 ∧
      r.Updated p s := by
  cases hp with
  | @top i _ hd =>
    obtain ⟨a, ha, rfl⟩ := h.attribute_at hd
    refine ⟨a, _, rfl, ?_, ?_, .top i (f a).2⟩
    · rw [visit_some hacc ha]
      rfl
    · exact at?_top (attributes_withAttribute ha)
  | @sub i k parent _ _ hd hsingle hsub hname hfirst =>
    subst hname
    obtain ⟨a, child, ha, rfl, hdescriptor, hk, hchild⟩ := h.opened_at hd hsub hfirst
    refine ⟨child, _, hdescriptor, ?_, ?_, .child ha (f child).2⟩
    · rw [visit_some hacc ha]
      show ((a.visit f [d.name]).1, r.withAttribute i (a.visit f [d.name]).2) = _
      rw [Attribute.visit_cons_some hsingle hk hchild]
      rfl
    · rw [at?_child (attributes_withAttribute ha) rfl]
      show (a.opened.attributes.modify k fun _ => (f child).2)[k]? = _
      simp [hchild]

/-! ## Main result -/

/-- **An update is precise.** Under a name that the accessors know, whatever was done with the resource,
a value is assigned to the attribute at the place to which the name leads; it reads back as from an
attribute that is new, and all else is as it was. Under any other name nothing changes. -/
theorem set_updates {schemas : List Schema} (hne : schemas ≠ []) (location : String) :
    ∃ r₀, bind schemas location = .ok r₀ ∧
      ∀ (operations : List Operation) (name : String) (v : Value),
        ((r₀.run operations).accessor? name = none →
          (r₀.run operations).set name v = .error (.unknownAttribute name) ∧
            (r₀.run operations).assign name v = (none, r₀.run operations)) ∧
        ∀ accessor, (r₀.run operations).accessor? name = some accessor →
          ∃ p d s, accessor.LeadsTo (Descriptor.bound schemas) p d ∧
            (r₀.run operations).set name v = .ok s ∧
            s.get name = .ok ((Attribute.bind d).assign v).value ∧
            (r₀.run operations).Updated p s := by
  obtain ⟨r₀, h⟩ := exists_bind hne location
  refine ⟨r₀, h, fun operations name v => ?_⟩
  have hr := (Bound.bind .anything h).run (.anything true) (.anything false) operations
  generalize r₀.run operations = r at hr
  constructor
  · intro hnone
    have hassign : r.assign name v = (none, r) := visit_none hnone
    rw [set, hassign]
    exact ⟨rfl, rfl⟩
  · intro accessor hacc
    have hget := hacc
    rw [hr.accessor?_eq] at hget
    obtain ⟨p, d, hp⟩ := Accessor.exists_leadsTo hget
    obtain ⟨a, s, rfl, hvisit, hat, hupdated⟩ :=
      hr.visit_updates hacc hp fun a => ((), a.assign v)
    have hassign : r.assign name v = (some (), s) := hvisit
    refine ⟨p, _, s, hp, ?_, ?_, hupdated⟩
    · rw [set, hassign]
    · have hs : s.Bound .anything (Descriptor.bound schemas) := by
        have hkept := hr.assign (.anything true) name (v := v) trivial
        rwa [hassign] at hkept
      have hacc' : s.accessor? name = some accessor := by
        rw [accessor?, hupdated.accessors]
        exact hacc
      rw [Resource.get, hs.attribute?_eq hacc' hp hat]
      simp [Attribute.value_assign a v]

/-- A schema of a person's name. -/
def named : Schema :=
  { Schema.new "urn:named" "Named" "/Schemas/Named" with
    attributes := [.new "title" .string,
      ((Descriptor.new "name" .complex).addSub (.new "familyName" .string)).addSub
        (.new "givenName" .string)] }

theorem bound_named : Descriptor.bound [named] = named.attributes := by decide +kernel

/-- A family name is set where the name is a text. The text gives way to a new name. -/
theorem set_updates_named :
    ∃ r₀, bind [named] "/Named/1" = .ok r₀ ∧
      let r := r₀.run [.work "name" [] (.assign (.text "Ann Lee"))]
      r.accessor? "NAME.familyname" = some ⟨1, some "familyName"⟩ ∧
        (∃ s, r.set "NAME.familyname" (.integer 7) = .ok s ∧
          s.get "NAME.familyname" = .ok (.text "7") ∧ r.Updated ⟨1, some 0⟩ s) ∧
        r.set "nickName" (.text "babs") = .error (.unknownAttribute "nickName") := by
  obtain ⟨r₀, h, hall⟩ := @set_updates [named] (by simp) "/Named/1"
  refine ⟨r₀, h, ?_⟩
  intro r
  have hr : r.Bound .anything (Descriptor.bound [named]) :=
    (Bound.bind .anything h).run (.anything true) (.anything false) _
  rw [bound_named] at hr
  have hknown : r.accessor? "NAME.familyname" = some ⟨1, some "familyName"⟩ := by
    rw [hr.accessor?_eq]
    decide +kernel
  have hunknown : r.accessor? "nickName" = none := by
    rw [hr.accessor?_eq]
    decide +kernel
  refine ⟨hknown, ?_, ((hall _ "nickName" (.text "babs")).1 hunknown).1⟩
  obtain ⟨p, d, s, hp, hset, hget, hupdated⟩ :=
    (hall _ "NAME.familyname" (.integer 7)).2 _ hknown
  rw [bound_named] at hp
  cases hp with
  | @sub i k parent _ _ hd hsingle hsub hname hfirst =>
    cases hd
    match k with
    | 0 =>
      cases hsub
      exact ⟨s, hset, hget, hupdated⟩
    | 1 =>
      cases hsub
      exact absurd hname (by decide)
    | k + 2 => cases hsub

end Resource

end Scim
