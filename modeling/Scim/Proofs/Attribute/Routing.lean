import Scim.Attribute.Assign
import Scim.Proofs.Schema.Structure

/-!
# Routing

What an attribute holds after an assignment, said without the order in which it is done. The members
of an object go to the sub-attributes of their names; `attributes_route` says what each of these holds
in the end (the last of its members, or what it held before), and `undeclared_route` which keys are
left over.
-/

set_option autoImplicit false

namespace Scim

/-! ## Descriptors -/

/-- The names under which the sub-attributes are found. -/
def Descriptor.names (d : Descriptor) : List String :=
  d.subAttributes.map Descriptor.name

/-! ## Attributes with nothing assigned -/

namespace Attribute

theorem bindAll_eq (ds : List Descriptor) : bindAll ds = ds.map bind := by
  induction ds with
  | nil => rfl
  | cons d ds ih => rw [bindAll, ih, List.map_cons]

theorem bind_eq (d : Descriptor) : bind d = .mk d (.empty d) .empty := by
  obtain ⟨_, _, _, _, _, _, _, _, _, _, _, subs⟩ := d
  rfl

@[simp] theorem descriptor_bind (d : Descriptor) : (bind d).descriptor = d := by
  rw [bind_eq]
  rfl

@[simp] theorem content_bind (d : Descriptor) : (bind d).content = .empty d := by
  rw [bind_eq]
  rfl

end Attribute

theorem Composite.attributes_bind (d : Descriptor) :
    (Composite.bind d).attributes = d.subAttributes.map Attribute.bind :=
  Attribute.bindAll_eq _

namespace Content

theorem empty_simple {d : Descriptor} (h : d.isComplex = false) :
    empty d = .plain (if d.multiValued then .list [] else .null) := by
  cases hm : d.multiValued <;> simp [empty, initial, h, hm]

theorem empty_object {d : Descriptor} (h : d.isComplex = true) (hm : d.multiValued = false) :
    empty d = .object (.bind d) := by
  simp [empty, initial, h, hm, Composite.bind]

theorem empty_items {d : Descriptor} (h : d.isComplex = true) (hm : d.multiValued = true) :
    empty d = .items [] := by
  simp [empty, initial, h, hm]

end Content

/-! ## Places -/

theorem placeOf?_lt {names : List String} {name : String} {i : Nat}
    (h : placeOf? names name = some i) : i < names.length := by
  rcases Option.or_eq_some_iff.1 h with h | ⟨-, h⟩
  · exact (List.findIdx?_eq_some_iff_findIdx_eq.1 h).1
  · exact (List.findIdx?_eq_some_iff_findIdx_eq.1 h).1

/-- What stands at the place of a name has that name, up to letter case. -/
theorem sameName_of_placeOf? {names : List String} {name n : String} {i : Nat}
    (h : placeOf? names name = some i) (hn : names[i]? = some n) : Text.sameName n name = true := by
  rcases Option.or_eq_some_iff.1 h with h | ⟨-, h⟩
  · obtain ⟨hi, hp, -⟩ := List.findIdx?_eq_some_iff_getElem.1 h
    obtain ⟨-, rfl⟩ := List.getElem?_eq_some_iff.1 hn
    rw [beq_iff_eq.1 hp]
    exact Text.sameName_refl name
  · obtain ⟨hi, hp, -⟩ := List.findIdx?_eq_some_iff_getElem.1 h
    obtain ⟨-, rfl⟩ := List.getElem?_eq_some_iff.1 hn
    exact hp

/-- A name without a place is none of the names, in any letter case. -/
theorem sameName_of_placeOf?_none {names : List String} {name : String}
    (h : placeOf? names name = none) : ∀ n ∈ names, Text.sameName n name = false :=
  List.findIdx?_eq_none_iff.1 (Option.or_eq_none_iff.1 h).2

theorem placeOf?_eq_none_iff {names : List String} {key : String} :
    placeOf? names key = none ↔ ∀ n ∈ names, Text.sameName n key = false := by
  refine ⟨sameName_of_placeOf?_none, fun h => ?_⟩
  cases hi : placeOf? names key with
  | none => rfl
  | some i =>
    obtain ⟨n, hn⟩ : ∃ n, names[i]? = some n := ⟨_, List.getElem?_eq_getElem (placeOf?_lt hi)⟩
    have := sameName_of_placeOf? hi hn
    rw [h n (List.mem_of_getElem? hn)] at this
    cases this

/-- A name that is written exactly leads to the first place that has it. -/
theorem placeOf?_of_first {names : List String} {name : String} {i : Nat}
    (hi : names[i]? = some name) (hfirst : ∀ j < i, names[j]? ≠ some name) :
    placeOf? names name = some i := by
  obtain ⟨hlt, hget⟩ := List.getElem?_eq_some_iff.1 hi
  refine Option.or_eq_some_iff.2 (.inl (List.findIdx?_eq_some_iff_getElem.2 ⟨hlt, ?_, ?_⟩))
  · simpa using hget
  · intro j hj
    have := hfirst j hj
    rw [List.getElem?_eq_getElem (by omega)] at this
    simpa using this

theorem Descriptor.getElem?_names {d sub : Descriptor} {i : Nat}
    (h : d.subAttributes[i]? = some sub) : d.names[i]? = some sub.name := by
  rw [names, List.getElem?_map, h, Option.map_some]

theorem Descriptor.placeOf?_of_first {d sub : Descriptor} {i : Nat}
    (hsub : d.subAttributes[i]? = some sub)
    (hfirst : ∀ j < i, ∀ s, d.subAttributes[j]? = some s → s.name ≠ sub.name) :
    placeOf? d.names sub.name = some i := by
  refine Scim.placeOf?_of_first (getElem?_names hsub) fun j hj hname => ?_
  rw [names, List.getElem?_map] at hname
  obtain ⟨s, hs, he⟩ := Option.map_eq_some_iff.1 hname
  exact hfirst j hj s hs he

theorem placeOf?_of_nodup {names : List String} (h : names.Nodup) {name : String} {i : Nat}
    (hi : names[i]? = some name) : placeOf? names name = some i := by
  refine placeOf?_of_first hi fun j hj hj' => ?_
  obtain ⟨hlt, hget⟩ := List.getElem?_eq_some_iff.1 hi
  obtain ⟨hlt', hget'⟩ := List.getElem?_eq_some_iff.1 hj'
  exact List.pairwise_iff_getElem.1 h j i hlt' hlt hj (hget'.trans hget.symm)

/-! ## Members and their sub-attributes -/

/-- The last of the members that go to the sub-attribute at a place. -/
def routed? (names : List String) (i : Nat) : List (String × Value) → Option Value
  | [] => none
  | (key, v) :: rest =>
    (routed? names i rest).or (if placeOf? names key = some i then some v else none)

/-- The keys of the members that go to no sub-attribute. -/
def Descriptor.undeclared (d : Descriptor) (entries : List (String × Value)) : List String :=
  (entries.map Prod.fst).filter fun key => (placeOf? d.names key).isNone

theorem mem_of_routed? {names : List String} {i : Nat} {entries : List (String × Value)} {v : Value}
    (h : routed? names i entries = some v) :
    ∃ key, (key, v) ∈ entries ∧ placeOf? names key = some i := by
  induction entries with
  | nil => cases h
  | cons e entries ih =>
    rcases Option.or_eq_some_iff.1 h with h | ⟨-, h⟩
    · obtain ⟨key, hm, hp⟩ := ih h
      exact ⟨key, List.mem_cons_of_mem _ hm, hp⟩
    · split at h
      · rename_i hp
        cases h
        exact ⟨e.1, List.mem_cons_self, hp⟩
      · cases h

/-- What a member leads to is something that is routed there. -/
theorem exists_routed? {names : List String} {i : Nat} {entries : List (String × Value)}
    {e : String × Value} (he : e ∈ entries) (hi : placeOf? names e.1 = some i) :
    ∃ v, routed? names i entries = some v := by
  induction entries with
  | nil => cases he
  | cons e' entries ih =>
    rw [routed?]
    rcases List.mem_cons.1 he with rfl | he
    · rw [hi, if_pos rfl]
      cases routed? names i entries with
      | none => exact ⟨_, rfl⟩
      | some v => exact ⟨v, rfl⟩
    · obtain ⟨v, hv⟩ := ih he
      exact ⟨v, by rw [hv]; rfl⟩

namespace Attribute

@[simp] theorem descriptor_store (coerced : Bool) (v : Value) (a : Attribute) :
    (a.store coerced v).descriptor = a.descriptor := rfl

@[simp] theorem content_store (coerced : Bool) (v : Value) (a : Attribute) :
    (a.store coerced v).content = .ofValue coerced a.descriptor v := rfl

/-- Of two values that are stored one after the other the second stays. -/
theorem store_store (coerced : Bool) (v w : Value) (a : Attribute) :
    (a.store coerced v).store coerced w = a.store coerced w := rfl

theorem withContent_content (a : Attribute) : a.withContent a.content = a := by
  obtain ⟨d, content, report⟩ := a
  rfl

end Attribute

namespace Composite

theorem ext {c c' : Composite} (h : c.attributes = c'.attributes)
    (h' : c.undeclared = c'.undeclared) : c = c' := by
  obtain ⟨attributes, undeclared⟩ := c
  obtain ⟨attributes', undeclared'⟩ := c'
  cases h
  cases h'
  rfl

/-- The names under which the sub-attributes are found. -/
def names (c : Composite) : List String :=
  c.attributes.map Attribute.name

theorem names_of_descriptors {c : Composite} {d : Descriptor}
    (h : c.attributes.map Attribute.descriptor = d.subAttributes) : c.names = d.names := by
  rw [Descriptor.names, ← h, List.map_map]
  rfl

theorem names_modify {c : Composite} {i : Nat} {f : Attribute → Attribute}
    (h : ∀ a, (f a).name = a.name) : (c.modify i f).names = c.names := by
  show (c.attributes.modify i f).map Attribute.name = c.attributes.map Attribute.name
  apply List.ext_getElem?
  intro j
  rw [List.getElem?_map, List.getElem?_map, List.getElem?_modify]
  cases c.attributes[j]? with
  | none => rfl
  | some a => by_cases hj : i = j <;> simp [hj, h]

/-- One sub-attribute in the place of another. -/
theorem exists_modify {c : Composite} {i : Nat} {child : Attribute}
    (h : c.attributes[i]? = some child) :
    ∃ before after, c.attributes = before ++ child :: after ∧
      ∀ new, (c.modify i fun _ => new).attributes = before ++ new :: after := by
  obtain ⟨hi, rfl⟩ := List.getElem?_eq_some_iff.1 h
  refine ⟨c.attributes.take i, c.attributes.drop (i + 1), ?_, fun new => ?_⟩
  · rw [← List.drop_eq_getElem_cons hi, List.take_append_drop]
  · exact List.modify_eq_take_cons_drop hi

theorem modify_eq_self {c : Composite} {i : Nat} {child : Attribute}
    (h : c.attributes[i]? = some child) : (c.modify i fun _ => child) = c := by
  obtain ⟨before, after, hattributes, hmodify⟩ := exists_modify h
  exact ext ((hmodify child).trans hattributes.symm) rfl

theorem names_bind (d : Descriptor) : (bind d).names = d.names := by
  rw [names, attributes_bind, List.map_map, Descriptor.names]
  congr 1
  funext sub
  simp [Attribute.name]

theorem route_cons_some {coerced : Bool} {c : Composite} {key : String} {v : Value}
    {rest : List (String × Value)} {i : Nat} (h : Scim.placeOf? c.names key = some i) :
    route coerced c ((key, v) :: rest) =
      route coerced (c.modify i (Attribute.store coerced v)) rest := by
  have h : c.placeOf? key = some i := h
  rw [route, h]
  rfl

theorem route_cons_none {coerced : Bool} {c : Composite} {key : String} {v : Value}
    {rest : List (String × Value)} (h : Scim.placeOf? c.names key = none) :
    route coerced c ((key, v) :: rest) = route coerced (c.addUndeclared key) rest := by
  have h : c.placeOf? key = none := h
  rw [route, h]

theorem names_store (coerced : Bool) (c : Composite) (i : Nat) (v : Value) :
    (c.modify i (Attribute.store coerced v)).names = c.names :=
  names_modify fun _ => rfl

/-- What a sub-attribute holds after the members of an object have gone where they belong. -/
theorem attributes_route (coerced : Bool) (entries : List (String × Value)) (c : Composite) (i : Nat) :
    (route coerced c entries).attributes[i]? = c.attributes[i]?.map fun a =>
      (routed? c.names i entries).elim a fun v => a.store coerced v := by
  induction entries generalizing c with
  | nil => simp [route, routed?]
  | cons e entries ih =>
    obtain ⟨key, v⟩ := e
    cases h : Scim.placeOf? c.names key with
    | none =>
      rw [route_cons_none h, ih]
      simp only [routed?, h, reduceCtorEq, ↓reduceIte, Option.or_none]
      rfl
    | some j =>
      rw [route_cons_some h, ih, names_store]
      have hj : (c.modify j (Attribute.store coerced v)).attributes[i]? =
          c.attributes[i]?.map fun a => if j = i then a.store coerced v else a := by
        show (c.attributes.modify j _)[i]? = _
        rw [List.getElem?_modify]
        rfl
      simp only [hj, Option.map_map, routed?, h, Option.some.injEq]
      congr 1
      funext a
      cases routed? c.names i entries with
      | none => by_cases h : j = i <;> simp [h]
      | some w =>
        by_cases h : j = i
        · simp only [h, if_true, Function.comp_apply, Option.elim_some, Option.some_or]
          exact Attribute.store_store coerced v w a
        · simp [h]

/-- The keys that belong nowhere are kept behind those that were kept before. -/
theorem undeclared_route (coerced : Bool) (entries : List (String × Value)) (c : Composite) :
    (route coerced c entries).undeclared = c.undeclared ++
      (entries.map Prod.fst).filter fun key => (Scim.placeOf? c.names key).isNone := by
  induction entries generalizing c with
  | nil => simp [route]
  | cons e entries ih =>
    obtain ⟨key, v⟩ := e
    cases h : Scim.placeOf? c.names key with
    | none =>
      have hn : (c.addUndeclared key).names = c.names := rfl
      rw [route_cons_none h, ih, hn]
      simp [h, addUndeclared, undeclared]
    | some j =>
      rw [route_cons_some h, ih, names_store]
      simp [h, modify, undeclared]

/-- The keys that a new object keeps of the members that are assigned to it. -/
theorem undeclared_route_bind (coerced : Bool) (d : Descriptor) (entries : List (String × Value)) :
    (route coerced (bind d) entries).undeclared = d.undeclared entries := by
  rw [undeclared_route, names_bind]
  rfl

theorem descriptors_bind (d : Descriptor) :
    (bind d).attributes.map Attribute.descriptor = d.subAttributes := by
  simp [attributes_bind, Function.comp_def]

theorem descriptors_route (coerced : Bool) (entries : List (String × Value)) (c : Composite) :
    (route coerced c entries).attributes.map Attribute.descriptor =
      c.attributes.map Attribute.descriptor := by
  apply List.ext_getElem?
  intro i
  rw [List.getElem?_map, List.getElem?_map, attributes_route, Option.map_map]
  congr 1
  funext a
  cases routed? c.names i entries <;> simp

theorem names_route (coerced : Bool) (entries : List (String × Value)) (c : Composite) :
    (route coerced c entries).names = c.names := by
  have hnames (c : Composite) :
      c.names = (c.attributes.map Attribute.descriptor).map Descriptor.name := by
    rw [List.map_map]
    rfl
  rw [hnames, descriptors_route, ← hnames]

/-- What a new object has at the place of a sub-attribute when members are assigned to it. -/
theorem getElem?_route_bind (coerced : Bool) (d : Descriptor) (entries : List (String × Value))
    (i : Nat) :
    (route coerced (bind d) entries).attributes[i]? = d.subAttributes[i]?.map fun sub =>
      (routed? d.names i entries).elim (.bind sub) fun v => (Attribute.bind sub).store coerced v := by
  rw [attributes_route, names_bind, attributes_bind, List.getElem?_map, Option.map_map]
  rfl

/-- Every sub-attribute of an object to which the members of another are assigned. -/
theorem forall_mem_route {coerced : Bool} {d : Descriptor} {entries : List (String × Value)}
    {Q : Attribute → Prop} :
    (∀ a ∈ (route coerced (bind d) entries).attributes, Q a) ↔
      ∀ (i : Nat) (sub : Descriptor), d.subAttributes[i]? = some sub →
        Q ((routed? d.names i entries).elim (.bind sub)
          fun v => (Attribute.bind sub).store coerced v) := by
  constructor
  · intro h i sub hi
    refine h _ (List.mem_iff_getElem?.2 ⟨i, ?_⟩)
    rw [getElem?_route_bind, hi]
    rfl
  · intro h a ha
    obtain ⟨i, hi⟩ := List.mem_iff_getElem?.1 ha
    rw [getElem?_route_bind] at hi
    obtain ⟨sub, hsub, rfl⟩ := Option.map_eq_some_iff.1 hi
    exact h i sub hsub

end Composite

/-! ## Values -/

/-- A value that a complex attribute cannot take: an object where several values are declared, a list
where one is, or a scalar. -/
def Descriptor.Refuses (d : Descriptor) : Value → Prop
  | .null => False
  | .map _ => d.multiValued = true
  | .list _ => d.multiValued = false
  | _ => True

/-- An element of a list for a complex attribute with several values. -/
def Item.ofValue (coerced : Bool) (d : Descriptor) : Value → Item
  | .map entries => .object (.route coerced (.bind d) entries)
  | v => .other v

theorem Item.ofValues_eq (coerced : Bool) (d : Descriptor) (items : List Value) :
    ofValues coerced d items = items.map (ofValue coerced d) := by
  induction items with
  | nil => rfl
  | cons v items ih => cases v <;> simp [ofValues, ofValue, ih]

theorem Item.ofValue_other {coerced : Bool} {d : Descriptor} {v : Value}
    (h : ∀ entries, v ≠ .map entries) : ofValue coerced d v = .other v := by
  cases v with
  | map entries => exact absurd rfl (h entries)
  | _ => rfl

/-- The elements of a list that are taken apart are its objects. -/
theorem Item.mem_map_object {coerced : Bool} {d : Descriptor} {items : List Value} {c : Composite}
    (h : .object c ∈ items.map (Item.ofValue coerced d)) :
    ∃ entries, .map entries ∈ items ∧ c = .route coerced (.bind d) entries := by
  obtain ⟨v, hv, he⟩ := List.mem_map.1 h
  cases v with
  | map entries =>
    cases he
    exact ⟨entries, hv, rfl⟩
  | _ => cases he

/-- The others are kept as they are. -/
theorem Item.mem_map_other {coerced : Bool} {d : Descriptor} {items : List Value} {v : Value}
    (h : .other v ∈ items.map (Item.ofValue coerced d)) :
    v ∈ items ∧ ∀ entries, v ≠ .map entries := by
  obtain ⟨w, hw, he⟩ := List.mem_map.1 h
  have hmap : ∀ entries, w ≠ .map entries := by
    rintro entries rfl
    cases he
  rw [Item.ofValue_other hmap] at he
  cases he
  exact ⟨hw, hmap⟩

namespace Content

variable {coerced : Bool} {d : Descriptor}

theorem ofValue_simple (h : d.isComplex = false) (v : Value) :
    ofValue coerced d v = .plain (if coerced then d.coerce v else v) := by
  cases v <;> simp [ofValue, ofWhole, h]

theorem ofValue_null (h : d.isComplex = true) : ofValue coerced d .null = .empty d := by
  simp [ofValue, ofWhole, h, Value.isNull]

theorem ofValue_object (h : d.isComplex = true) (hm : d.multiValued = false)
    (entries : List (String × Value)) :
    ofValue coerced d (.map entries) = .object (.route coerced (.bind d) entries) := by
  simp [ofValue, h, hm]

theorem ofValue_items (h : d.isComplex = true) (hm : d.multiValued = true) (items : List Value) :
    ofValue coerced d (.list items) = .items (items.map (Item.ofValue coerced d)) := by
  simp [ofValue, h, hm, Item.ofValues_eq]

theorem ofValue_refused (h : d.isComplex = true) {v : Value} (hv : d.Refuses v) :
    ofValue coerced d v = .plain v := by
  cases v <;> simp_all [ofValue, ofWhole, Descriptor.Refuses, Value.isNull]

end Content

/-- What an attribute for one value that is not complex holds of an assigned value. -/
theorem Attribute.assign_single {a : Attribute} (hc : a.descriptor.isComplex = false)
    (hm : a.descriptor.multiValued = false) (v : Value) :
    a.assign v = a.withContent (.plain (a.descriptor.datatype.coerce v)) := by
  have hcoerce : a.descriptor.coerce v = a.descriptor.datatype.coerce v := by
    simp only [Descriptor.coerce, hm]
  rw [assign, store, Content.ofValue_simple hc, if_pos rfl, hcoerce]

/-! ## Look-ups -/

theorem Composite.find?_some {c : Composite} {name : String} {i : Nat}
    (h : Scim.placeOf? c.names name = some i) :
    ∃ child, c.find? name = some child ∧ c.attributes[i]? = some child := by
  have hi : i < c.attributes.length := by simpa [names] using placeOf?_lt h
  have h : c.placeOf? name = some i := h
  refine ⟨c.attributes[i], ?_, List.getElem?_eq_getElem hi⟩
  rw [find?, h]
  exact List.getElem?_eq_getElem hi

theorem Composite.find?_none {c : Composite} {name : String}
    (h : Scim.placeOf? c.names name = none) : c.find? name = none := by
  have h : c.placeOf? name = none := h
  rw [find?, h]

namespace Attribute

variable {α : Type} {f : Attribute → α × Attribute} {name : String} {path : List String}
  {a : Attribute}

theorem child?_object {c : Composite} (h : a.content = .object c) (name : String) : a.child? name = c.find? name := by
  rw [child?, h]

/-- What is found stands at the place of the name in an object. -/
theorem child?_eq_some {child : Attribute} (h : a.child? name = some child) :
    ∃ c i, a.content = .object c ∧ placeOf? c.names name = some i ∧ c.attributes[i]? = some child := by
  cases hc : a.content with
  | object c =>
    rw [child?_object hc] at h
    cases hi : placeOf? c.names name with
    | none =>
      rw [Composite.find?_none hi] at h
      cases h
    | some i =>
      obtain ⟨child', hfind, hget⟩ := Composite.find?_some hi
      obtain rfl : child' = child := Option.some.inj (hfind.symm.trans h)
      exact ⟨c, i, rfl, hi, hget⟩
  | plain v => simp [child?, hc] at h
  | items items => simp [child?, hc] at h

theorem opened_object {c : Composite} (h : a.content = .object c) : a.opened = c := by
  rw [opened, h]

/-- Where no object is held, work begins with nothing assigned. -/
theorem opened_other (h : ∀ c, a.content ≠ .object c) : a.opened = .bind a.descriptor := by
  unfold opened
  split
  · rename_i c hc
    exact absurd hc (h c)
  · rfl

/-- Only a complex attribute with one value has sub-attributes to work on. -/
theorem visit_cons_other (h : (a.descriptor.isComplex && !a.descriptor.multiValued) = false) :
    a.visit f (name :: path) = (none, a) := by
  rw [visit, h]
  rfl

theorem visit_cons_none (h : (a.descriptor.isComplex && !a.descriptor.multiValued) = true)
    (hn : placeOf? a.opened.names name = none) :
    a.visit f (name :: path) = (none, a.withContent (.object a.opened)) := by
  rw [visit, if_pos h]
  simp only [Composite.find?_none hn]

theorem visit_cons_some (h : (a.descriptor.isComplex && !a.descriptor.multiValued) = true) {i : Nat}
    (hi : placeOf? a.opened.names name = some i) {child : Attribute}
    (hc : a.opened.attributes[i]? = some child) :
    a.visit f (name :: path) = ((child.visit f path).1,
      a.withContent (.object (a.opened.modify i fun _ => (child.visit f path).2))) := by
  obtain ⟨child', hf, hc'⟩ := Composite.find?_some hi
  obtain rfl : child = child' := Option.some.inj (hc.symm.trans hc')
  have hp : a.opened.placeOf? name = some i := hi
  rw [visit, if_pos h]
  simp only [hf, hp]

end Attribute

end Scim
