import Scim.Proofs.Attribute.Visibility

/-!
# Sub-attributes and their declarations

A sub-attribute is looked up in an object by `Attribute.child?` and its declaration in a descriptor
by `Descriptor.sub?`. Both find something for the same names, those of a sub-attribute in any letter
case. In the object the name as it is written goes first, in the descriptor the first of the names
in any case. So they mean the same one exactly if, where the name is declared as it is written, no
other writing of it is declared before (`Attribute.child?_bound_iff`).
-/

set_option autoImplicit false

namespace Scim

/-! ## Places of names -/

/-- A name that is declared as it is written leads to where it is written so. -/
theorem getElem?_placeOf? {names : List String} {name : String} {i : Nat}
    (hi : placeOf? names name = some i) (h : name ∈ names) : names[i]? = some name := by
  rcases Option.or_eq_some_iff.1 hi with hi | ⟨hnone, -⟩
  · obtain ⟨hlt, hname, -⟩ := List.findIdx?_eq_some_iff_getElem.1 hi
    rw [List.getElem?_eq_getElem hlt, beq_iff_eq.1 hname]
  · simpa using List.findIdx?_eq_none_iff.1 hnone name h

/-- The place of a name is the first that has it in any letter case, if that one is written like the
name where any is. -/
theorem placeOf?_eq_first {names : List String} {name : String} {i j : Nat}
    (hi : placeOf? names name = some i) (hj : names.findIdx? (Text.sameName · name) = some j)
    (h : name ∈ names → names[j]? = some name) : i = j := by
  rcases Option.or_eq_some_iff.1 hi with hexact | ⟨-, hany⟩
  · obtain ⟨hlt, hname, hfirst⟩ := List.findIdx?_eq_some_iff_getElem.1 hexact
    obtain ⟨hlt', -, hbefore⟩ := List.findIdx?_eq_some_iff_getElem.1 hj
    have hname : names[i] = name := beq_iff_eq.1 hname
    have hname' : names[j] = name := by
      simpa [List.getElem?_eq_getElem hlt'] using h (hname ▸ List.getElem_mem hlt)
    rcases Nat.lt_trichotomy i j with hij | he | hji
    · simpa [hname] using hbefore i hij
    · exact he
    · simpa [hname'] using hfirst j hji
  · exact Option.some.inj (hany.symm.trans hj)

theorem Descriptor.exists_sub?_iff {d : Descriptor} {name : String} :
    (∃ sub, d.sub? name = some sub) ↔ ∃ i, placeOf? d.names name = some i := by
  rw [← Option.isSome_iff_exists, ← Option.isSome_iff_exists, ← Bool.not_eq_false,
    ← Bool.not_eq_false, Option.isSome_eq_false_iff, Option.isSome_eq_false_iff,
    Option.isNone_iff_eq_none, Option.isNone_iff_eq_none, placeOf?_eq_none_iff, sub?, names]
  simp

/-- What is found in a descriptor is declared at the first place of the name in any letter case. -/
theorem Descriptor.first_of_sub? {d sub : Descriptor} {name : String} (h : d.sub? name = some sub) :
    ∃ j, d.subAttributes[j]? = some sub ∧ d.names.findIdx? (Text.sameName · name) = some j := by
  obtain ⟨hsame, j, hj, hget, hbefore⟩ := List.find?_eq_some_iff_getElem.1 h
  refine ⟨j, List.getElem?_eq_some_iff.2 ⟨hj, hget⟩, ?_⟩
  rw [List.findIdx?_eq_some_iff_getElem]
  refine ⟨by simpa [names] using hj, by simpa [names, hget] using hsame, fun k hk => ?_⟩
  simpa [names] using hbefore k hk

/-! ## Main result -/

namespace Attribute

variable {K : Kept} {a : Attribute} {c : Composite} {name : String}

theorem Shaped.object (h : a.Shaped K) (hc : a.content = .object c) :
    a.descriptor.isComplex = true ∧ a.descriptor.multiValued = false ∧
      ∀ b ∈ c.attributes, b.Shaped K := by
  rw [Attribute.Shaped, hc] at h
  cases h with
  | object hcomplex hsingle _ hs _ => exact ⟨hcomplex, hsingle, hs⟩

theorem Shaped.descriptors (h : a.Shaped K) (hc : a.content = .object c) :
    c.attributes.map descriptor = a.descriptor.subAttributes := by
  rw [Attribute.Shaped, hc] at h
  cases h with
  | object _ _ hd _ _ => exact hd

theorem Shaped.names (h : a.Shaped K) (hc : a.content = .object c) :
    c.names = a.descriptor.names :=
  Composite.names_of_descriptors (h.descriptors hc)

/-- A sub-attribute is bound to what is declared at its place. -/
theorem Shaped.child?_eq (h : a.Shaped K) (hc : a.content = .object c) {i : Nat}
    (hi : placeOf? a.descriptor.names name = some i) :
    ∃ child, a.child? name = some child ∧
      a.descriptor.subAttributes[i]? = some child.descriptor := by
  rw [← h.names hc] at hi
  obtain ⟨child, hfind, hget⟩ := Composite.find?_some hi
  refine ⟨child, by rw [child?_object hc, hfind], ?_⟩
  rw [← h.descriptors hc, List.getElem?_map, hget]
  rfl

theorem Shaped.child?_eq_none (h : a.Shaped K) (hc : a.content = .object c)
    (hnone : placeOf? a.descriptor.names name = none) : a.child? name = none := by
  rw [← h.names hc] at hnone
  rw [child?_object hc, Composite.find?_none hnone]

/-- **When an object and its descriptor mean the same sub-attribute**, in any run of operations and
at any depth. A name leads to one in both or in neither; and what it leads to in the object is bound
to what it leads to in the descriptor exactly if the latter is written like the name, where any is.
-/
theorem child?_bound_iff (d : Descriptor) (steps : List (List String × Operation))
    (ha : a.Within ((bind d).run steps)) (hc : a.content = .object c) (name : String) :
    ((∃ child, a.child? name = some child) ↔ ∃ sub, a.descriptor.sub? name = some sub) ∧
      ∀ child sub, a.child? name = some child → a.descriptor.sub? name = some sub →
        (child.descriptor = sub ↔ (name ∈ a.descriptor.names → sub.name = name)) := by
  have hshaped := ha.shaped
  refine ⟨?_, fun child sub hchild hsub => ?_⟩
  · rw [Descriptor.exists_sub?_iff]
    constructor
    · intro ⟨child, hchild⟩
      cases hi : placeOf? a.descriptor.names name with
      | none =>
        rw [hshaped.child?_eq_none hc hi] at hchild
        cases hchild
      | some i => exact ⟨i, rfl⟩
    · intro ⟨i, hi⟩
      obtain ⟨child, hchild, -⟩ := hshaped.child?_eq hc hi
      exact ⟨child, hchild⟩
  · obtain ⟨i, hi⟩ := Descriptor.exists_sub?_iff.1 ⟨sub, hsub⟩
    obtain ⟨child', hchild', hbound⟩ := hshaped.child?_eq hc hi
    obtain rfl : child' = child := Option.some.inj (hchild'.symm.trans hchild)
    obtain ⟨j, hj, hfirst⟩ := Descriptor.first_of_sub? hsub
    constructor
    · intro he hmem
      have hwritten := getElem?_placeOf? hi hmem
      rw [Descriptor.getElem?_names hbound, he] at hwritten
      exact Option.some.inj hwritten
    · intro h
      obtain rfl := placeOf?_eq_first hi hfirst fun hmem => by
        rw [Descriptor.getElem?_names hj, h hmem]
      exact Option.some.inj (hbound.symm.trans hj)

/-- An object with two sub-attributes that differ in the case of a letter. Its descriptor is sound;
under `value` the object has the second and the descriptor the first, and under `VALUE` both have
the first. -/
theorem child?_bound_item :
    let upper : Descriptor := .new "Value" .string
    let lower : Descriptor := .new "value" .integer
    let item : Descriptor := ((Descriptor.new "item" .complex).addSub upper).addSub lower
    let held := (bind item).run [([], .assign (.map [("value", .integer 7)]))]
    item.check = .ok () ∧ held.Within held ∧ (∃ c, held.content = .object c) ∧
      (∃ child, held.child? "value" = some child ∧ child.descriptor = lower ∧
        item.sub? "value" = some upper ∧ child.descriptor ≠ upper) ∧
      ∃ child, held.child? "VALUE" = some child ∧ item.sub? "VALUE" = some child.descriptor := by
  intro upper lower item held
  have hsound : item.check = .ok () := by
    simp only [item, upper, lower, Descriptor.addSub, Descriptor.new, List.nil_append,
      List.cons_append]
    rfl
  obtain ⟨c, hc⟩ : ∃ c, held.content = .object c := ⟨_, rfl⟩
  have hsub : item.sub? "value" = some upper := by decide
  have hsub' : item.sub? "VALUE" = some upper := by decide
  obtain ⟨-, hvalue⟩ := child?_bound_iff item _ (.self held) hc "value"
  obtain ⟨hfound, hother⟩ := child?_bound_iff item _ (.self held) hc "VALUE"
  refine ⟨hsound, .self held, ⟨c, hc⟩,
    ⟨(bind lower).assign (.integer 7), rfl, by simp [assign], hsub, ?_⟩, ?_⟩
  · intro he
    exact absurd ((hvalue _ upper rfl hsub).1 he (by decide)) (by decide)
  · obtain ⟨child, hchild⟩ := hfound.2 ⟨upper, hsub'⟩
    refine ⟨child, hchild, ?_⟩
    rw [(hother child upper hchild hsub').2 fun h => absurd h (by decide)]
    exact hsub'

end Attribute

end Scim
