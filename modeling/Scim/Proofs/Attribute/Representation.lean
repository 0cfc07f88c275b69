import Scim.Proofs.Attribute.Visibility

/-!
# How attributes are represented

`Attribute.Represented a`: the content of `a` has the one shape that its descriptor has for what it
holds. A simple attribute keeps a value; a complex one keeps as a whole only what it cannot take apart
(`Descriptor.Refuses`); and a composite has the declared sub-attributes with the keys that are left
over, in order. Reading, validation and rendering rely on it. Whatever is done with an attribute, it
holds at every depth (`represented_of_run`).

The order of the keys comes from the maps that are assigned, so it is asked of these
(`Value.Ascending`); everything else holds of any value.
-/

set_option autoImplicit false

namespace Scim

/-! ## Values in order -/

namespace Value

theorem ascending_list_iff {items : List Value} :
    (list items).Ascending ↔ ∀ v ∈ items, v.Ascending := by
  rw [Ascending]
  induction items with
  | nil => simp [AscendingAll]
  | cons v items ih => simp [AscendingAll, ih]

theorem ascending_map_iff {entries : List (String × Value)} :
    (map entries).Ascending ↔ Entries.Ascending entries ∧ ∀ e ∈ entries, e.2.Ascending := by
  have all : AscendingEntries entries ↔ ∀ e ∈ entries, e.2.Ascending := by
    induction entries with
    | nil => simp [AscendingEntries]
    | cons e entries ih => simp [AscendingEntries, ih]
  rw [Ascending, all]

end Value

/-! ## Composites -/

/-- The keys ascend, and none of them is the name of a sub-attribute in any letter case. -/
def Descriptor.LeavesOver (d : Descriptor) (keys : List String) : Prop :=
  keys.Pairwise (· < ·) ∧ ∀ key ∈ keys, ∀ sub ∈ d.subAttributes, Text.sameName sub.name key = false

theorem Descriptor.leavesOver_undeclared (d : Descriptor) {entries : List (String × Value)}
    (h : Entries.Ascending entries) : d.LeavesOver (d.undeclared entries) := by
  constructor
  · exact (List.pairwise_map.2 h).filter _
  · intro key hkey sub hsub
    obtain ⟨-, hplace⟩ := List.mem_filter.1 hkey
    exact sameName_of_placeOf?_none (Option.isNone_iff_eq_none.1 hplace) sub.name
      (List.mem_map_of_mem hsub)

/-- The sub-attributes of a descriptor, in order, with the keys that are left over. -/
structure Composite.Declared (d : Descriptor) (c : Composite) : Prop where
  descriptors : c.attributes.map Attribute.descriptor = d.subAttributes
  undeclared : d.LeavesOver c.undeclared

/-- The attribute has the composite as its object or among its items. -/
def Attribute.Holds (a : Attribute) (c : Composite) : Prop :=
  a.content = .object c ∨ ∃ items, a.content = .items items ∧ .object c ∈ items

/-! ## Attributes -/

/-- The shape of what is stored. -/
structure Attribute.Represented (a : Attribute) : Prop where
  simple : a.descriptor.isComplex = false → ∃ v, a.content = .plain v
  single : a.descriptor.isComplex = true → a.descriptor.multiValued = false →
    (∃ c, a.content = .object c) ∨
      ∃ v, a.content = .plain v ∧ v ≠ .null ∧ ∀ entries, v ≠ .map entries
  several : a.descriptor.isComplex = true → a.descriptor.multiValued = true →
    (∃ items, a.content = .items items ∧ ∀ v, .other v ∈ items → ∀ entries, v ≠ .map entries) ∨
      ∃ v, a.content = .plain v ∧ v ≠ .null ∧ ∀ items, v ≠ .list items
  composites : ∀ c, a.Holds c → c.Declared a.descriptor

/-- As `Kept.misshapen`, with the keys that are left over. -/
def Kept.represented : Kept where
  whole := misshapen.whole
  element := misshapen.element
  undeclared := Descriptor.LeavesOver
  fresh := misshapen.fresh
  bare _ := ⟨List.Pairwise.nil, nofun⟩

theorem Kept.takes_represented (coerced : Bool) : represented.Takes coerced Value.Ascending where
  simple d v h _ := (takes_misshapen coerced).simple d v h trivial
  refused d v h hr _ := (takes_misshapen coerced).refused d v h hr trivial
  element d v h _ := (takes_misshapen coerced).element d v h trivial
  ofItem _ h := Value.ascending_list_iff.1 h
  ofMember _ h := (Value.ascending_map_iff.1 h).2
  undeclared d _ h := d.leavesOver_undeclared (Value.ascending_map_iff.1 h).1

theorem Descriptor.refuses_single {d : Descriptor} (h : d.multiValued = false) {v : Value} :
    d.Refuses v ↔ v ≠ .null ∧ ∀ entries, v ≠ .map entries := by
  cases v <;> simp [Refuses, h]

theorem Descriptor.refuses_several {d : Descriptor} (h : d.multiValued = true) {v : Value} :
    d.Refuses v ↔ v ≠ .null ∧ ∀ items, v ≠ .list items := by
  cases v <;> simp [Refuses, h]

theorem Attribute.Shaped.represented {a : Attribute} (h : a.Shaped .represented) :
    a.Represented := by
  obtain ⟨d, content, report⟩ := a
  cases h with
  | @plain _ v hv =>
    have refused (hc : d.isComplex = true) : d.Refuses v := hv hc
    refine ⟨fun _ => ⟨v, rfl⟩, fun hc hm => .inr ⟨v, rfl, ?_⟩, fun hc hm => .inr ⟨v, rfl, ?_⟩, ?_⟩
    · exact (Descriptor.refuses_single hm).1 (refused hc)
    · exact (Descriptor.refuses_several hm).1 (refused hc)
    · intro c hholds
      rcases hholds with hobject | ⟨items, hitems, -⟩
      · cases hobject
      · cases hitems
  | @object _ c hc hm hd _ hk =>
    refine ⟨fun h => ?_, fun _ _ => .inl ⟨c, rfl⟩, fun _ h => ?_, ?_⟩
    · exact absurd (h.symm.trans hc) Bool.false_ne_true
    · exact absurd (hm.symm.trans h) Bool.false_ne_true
    · intro c' hholds
      rcases hholds with hobject | ⟨items, hitems, -⟩
      · cases hobject
        exact ⟨hd, hk⟩
      · cases hitems
  | @items _ items hc hm hd _ he hk =>
    refine ⟨fun h => ?_, fun _ h => ?_, fun _ _ => .inl ⟨items, rfl, he⟩, ?_⟩
    · exact absurd (h.symm.trans hc) Bool.false_ne_true
    · exact absurd (h.symm.trans hm) Bool.false_ne_true
    · intro c hholds
      rcases hholds with hobject | ⟨items', hitems, hmem⟩
      · cases hobject
      · cases hitems
        exact ⟨hd c hmem, hk c hmem⟩

/-! ## Main result -/

/-- **Whatever is done with an attribute, it is represented as its descriptor says**, and so is every
sub-attribute at any depth, in objects and in lists. -/
theorem Attribute.represented_of_run (d : Descriptor) {steps : List (List String × Operation)}
    (hsteps : ∀ step ∈ steps, step.2.Stores Value.Ascending) :
    ((Attribute.bind d).run steps).descriptor = d ∧
      ∀ a : Attribute, a.Within ((Attribute.bind d).run steps) → a.Represented := by
  obtain ⟨hd, hshaped⟩ := (Shaped.bind .represented d).run_storing (Kept.takes_represented true)
    (Kept.takes_represented false) hsteps
  constructor
  · rw [hd, descriptor_bind]
  · intro a ha
    exact (hshaped.within ha).represented

/-- A name that is a text at first; then its family name is set, and at last it is given keys that it
does not have. -/
theorem Attribute.represented_name :
    let name := (Descriptor.new "name" .complex).addSub (.new "familyName" .string)
    let steps : List (List String × Operation) := [([], .assign (.text "Ann")),
      (["FAMILYNAME"], .assign (.integer 7)),
      ([], .assignUncoerced (.map [("Zip", .null), ("familyname", .list []), ("zone", .null)]))]
    (∀ step ∈ steps, step.2.Stores Value.Ascending) ∧
      ((Attribute.bind name).run steps).descriptor = name ∧
        ∀ a : Attribute, a.Within ((Attribute.bind name).run steps) → a.Represented := by
  intro name steps
  have hordered : Entries.Ascending
      [("Zip", Value.null), ("familyname", .list []), ("zone", .null)] := by
    simp only [Entries.Ascending, List.pairwise_cons]
    decide
  have hsteps : ∀ step ∈ steps, step.2.Stores Value.Ascending := by
    simp [steps, Operation.Stores, hordered, Value.Ascending, Value.AscendingAll,
      Value.AscendingEntries]
  exact ⟨hsteps, represented_of_run name hsteps⟩

end Scim
