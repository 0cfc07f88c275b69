import Scim.Proofs.Attribute.Visibility
import Scim.Proofs.Resource.Update

/-!
# Names that are declared

A name is declared if one of the forms of a bound attribute equals it in any letter case
(`Accessor.Declared`); these are the names that the accessors know (`Accessor.get?_table_eq_none_iff`).
Writing fails for all others and for no declared name. Reading fails for one more kind of name: that of a
sub-attribute whose attribute keeps a value that cannot be taken apart (`Resource.Misshapen`). On the way
to a sub-attribute, work puts an object in the place of such a value, but reading does not
(`get_error_iff`).
-/

set_option autoImplicit false

namespace Scim

/-! ## Declared names -/

namespace Accessor

/-- One of the forms of the attributes and their sub-attributes equals the name in any letter case. -/
def Declared (ds : List Descriptor) (name : String) : Prop :=
  ∃ d ∈ ds, ∃ key ∈ keys d, Text.sameName key name = true

/-- The forms are in lower case. -/
theorem lower_of_mem_keys {d : Descriptor} {key : String} (h : key ∈ keys d) :
    Text.lower key = key := by
  have own (h : key ∈ forms [d.name]) : Text.lower key = key := by
    rw [forms_name] at h
    simp only [List.mem_cons, List.not_mem_nil, or_false] at h
    rcases h with h | h <;> simp [h, Text.lower_lower, Text.lower_snake]
  have composed (sub : String) (h : key ∈ forms [d.name, sub]) : Text.lower key = key := by
    rw [forms_path] at h
    simp only [List.mem_cons, List.not_mem_nil, or_false] at h
    rcases h with h | h <;>
      simp only [h, Text.lower_append, Text.lower_lower, Text.lower_snake] <;> rfl
  unfold keys ofDescriptor at h
  split at h
  · simp only [List.map_append, List.mem_append, List.map_map, List.map_flatMap,
      List.mem_flatMap] at h
    rcases h with h | ⟨sub, -, h⟩
    · exact own (by simpa using h)
    · exact composed sub.name (by simpa using h)
  · exact own (by simpa using h)

/-- **The accessors know the declared names and no others.** -/
theorem get?_table_eq_none_iff {ds : List Descriptor} {name : String} :
    (table ds).get? (Text.lower name) = none ↔ ¬ Declared ds name := by
  rw [get?_table, List.lookup_eq_none_iff]
  constructor
  · rintro hnone ⟨d, hd, key, hkey, hname⟩
    obtain ⟨i, hi⟩ := List.mem_iff_getElem?.1 hd
    have hlower := lower_of_mem_keys hkey
    rw [← keys_ofDescriptor i] at hkey
    obtain ⟨e, he, rfl⟩ := List.mem_map.1 hkey
    have hentry : e ∈ entries ds :=
      List.mem_flatMap.2 ⟨(d, i), List.mem_zipIdx_iff_getElem?.2 hi, he⟩
    have hne := hnone e hentry
    rw [← Text.sameName_iff.1 hname, hlower] at hne
    simp at hne
  · intro hdeclared e he
    obtain ⟨⟨d, i⟩, hi, he⟩ := List.mem_flatMap.1 he
    have hkey : e.1 ∈ keys d := keys_ofDescriptor i d ▸ List.mem_map_of_mem he
    rw [bne_iff_ne]
    intro hname
    refine hdeclared ⟨d, List.mem_of_getElem? (List.mem_zipIdx_iff_getElem?.1 hi), e.1, hkey, ?_⟩
    rw [Text.sameName_iff, lower_of_mem_keys hkey, hname]

end Accessor

/-! ## Reading and writing -/

namespace Resource

/-- The name is that of a sub-attribute of an attribute which keeps a value that cannot be taken
apart. -/
def Misshapen (r : Resource) (name : String) : Prop :=
  ∃ i child a v, r.accessor? name = some ⟨i, some child⟩ ∧ r.attributes[i]? = some a ∧
    a.content = .plain v ∧ a.descriptor.Refuses v

variable {ds : List Descriptor} {r : Resource} {name : String}

theorem Bound.accessor?_eq_none_iff {K : Kept} (h : r.Bound K ds) :
    r.accessor? name = none ↔ ¬ Accessor.Declared ds name := by
  rw [h.accessor?_eq, Accessor.get?_table_eq_none_iff]

/-- Whatever is done with a resource, a value is kept as a whole only where it cannot be taken apart. -/
theorem Bound.misshapen_run {schemas : List Schema} {location : String} {r₀ : Resource}
    (h : Resource.bind schemas location = .ok r₀) (operations : List Operation) :
    (r₀.run operations).Bound .misshapen (Descriptor.bound schemas) :=
  (Bound.bind .misshapen h).run (Kept.takes_misshapen true) (Kept.takes_misshapen false) operations

/-- What keeps a declared name from being read. -/
theorem Bound.attribute?_eq_none_iff (h : r.Bound .misshapen ds) :
    r.attribute? name = none ↔ ¬ Accessor.Declared ds name ∨ r.Misshapen name := by
  rw [← h.accessor?_eq_none_iff]
  cases hacc : r.accessor? name with
  | none => simp [attribute?, hacc]
  | some accessor =>
    have hget := hacc
    rw [h.accessor?_eq] at hget
    obtain ⟨p, d, hp⟩ := Accessor.exists_leadsTo hget
    cases hp with
    | @top i _ hd =>
      obtain ⟨a, ha, rfl⟩ := h.attribute_at hd
      simp [attribute?, Misshapen, hacc, ha]
    | @sub i k parent sub child hd hsingle hsub hname hfirst =>
      subst hname
      obtain ⟨a, b, ha, rfl, -, hk, -⟩ := h.opened_at hd hsub hfirst
      have hshaped := h.shaped a (List.mem_of_getElem? ha)
      cases hc : a.content with
      | object c =>
        rw [Attribute.opened_object hc] at hk
        obtain ⟨found, -, hfound, -⟩ := StandsFor.child hacc ha hsingle hc hk
        simp [hfound, Misshapen, hacc, ha, hc]
      | plain v =>
        have hrefused : a.descriptor.Refuses v := by
          rw [Attribute.Shaped, hc] at hshaped
          cases hshaped with
          | plain hv => exact hv (by simp_all)
        simp [attribute?, Attribute.child?, Misshapen, hacc, ha, hc, hrefused]
      | items items =>
        rw [Attribute.Shaped, hc] at hshaped
        cases hshaped with
        | items _ hm => simp [hm] at hsingle

theorem get_error_iff_attribute? {e : Error} :
    r.get name = .error e ↔ e = .unknownAttribute name ∧ r.attribute? name = none := by
  unfold get
  cases r.attribute? name with
  | none => simp [eq_comm]
  | some a => simp

theorem Bound.set_error_iff {K : Kept} (h : r.Bound K ds) {v : Value} {e : Error} :
    r.set name v = .error e ↔
      e = .unknownAttribute name ∧ ¬ Accessor.Declared ds name := by
  rw [← h.accessor?_eq_none_iff]
  cases hacc : r.accessor? name with
  | none =>
    have hassign : r.assign name v = (none, r) := visit_none hacc
    simp [set, hassign, eq_comm]
  | some accessor =>
    have hget := hacc
    rw [h.accessor?_eq] at hget
    obtain ⟨p, d, hp⟩ := Accessor.exists_leadsTo hget
    obtain ⟨a, s, -, hvisit, -⟩ := h.visit_updates hacc hp fun a => ((), a.assign v)
    have hassign : r.assign name v = (some (), s) := hvisit
    simp [set, hassign]

/-! ## Main result -/

/-- **When reading and writing fail**, whatever was done with the resource: each only as under an unknown
name; writing exactly if the name is not declared, and reading also if the name is that of a
sub-attribute and its attribute keeps a value that cannot be taken apart. -/
theorem get_error_iff {schemas : List Schema} (hne : schemas ≠ []) (location : String) :
    ∃ r₀, bind schemas location = .ok r₀ ∧ ∀ (operations : List Operation) (name : String) (e : Error),
      (∀ v, (r₀.run operations).set name v = .error e ↔
        e = .unknownAttribute name ∧ ¬ Accessor.Declared (Descriptor.bound schemas) name) ∧
      ((r₀.run operations).get name = .error e ↔
        e = .unknownAttribute name ∧
          (¬ Accessor.Declared (Descriptor.bound schemas) name ∨
            (r₀.run operations).Misshapen name)) := by
  obtain ⟨r₀, h⟩ := exists_bind hne location
  refine ⟨r₀, h, fun operations name e => ?_⟩
  have hr := Bound.misshapen_run h operations
  constructor
  · intro v
    exact hr.set_error_iff
  · rw [get_error_iff_attribute?, hr.attribute?_eq_none_iff]

/-- A family name can be set while the name is a text, but not read: as if it were unknown. -/
theorem get_error_named :
    ∃ r₀, bind [named] "/Named/1" = .ok r₀ ∧
      let r := r₀.run [.work "name" [] (.assign (.text "Ann Lee"))]
      Accessor.Declared (Descriptor.bound [named]) "name.familyName" ∧
        r.get "name.familyName" = .error (.unknownAttribute "name.familyName") ∧
        ∀ v, ∃ s, r.set "name.familyName" v = .ok s := by
  obtain ⟨r₀, h, hall⟩ := @get_error_iff [named] (by simp) "/Named/1"
  refine ⟨r₀, h, ?_⟩
  intro r
  have hr : r.Bound .misshapen (Descriptor.bound [named]) := Bound.misshapen_run h _
  have hacc : r.accessor? "name.familyName" = some ⟨1, some "familyName"⟩ := by
    rw [hr.accessor?_eq, bound_named]
    decide +kernel
  have hdeclared : Accessor.Declared (Descriptor.bound [named]) "name.familyName" := by
    refine Classical.byContradiction fun hnot => ?_
    rw [hr.accessor?_eq_none_iff.2 hnot] at hacc
    cases hacc
  have hmisshapen : r.Misshapen "name.familyName" := by
    cases h
    exact ⟨1, "familyName", _, .text "Ann Lee", hacc, rfl, rfl, trivial⟩
  refine ⟨hdeclared, ?_, fun v => ?_⟩
  · exact ((hall _ _ _).2).2 ⟨rfl, .inr hmisshapen⟩
  · cases hset : r.set "name.familyName" v with
    | ok s => exact ⟨s, rfl⟩
    | error e => exact absurd hdeclared (((hall _ _ e).1 v).1 hset).2

end Resource

end Scim
