import Scim.Proofs.Attribute.Storage
import Scim.Resource.Basic

/-!
# What resources hold

`Resource.Bound K ds r`: the attributes of `r` are those of the descriptors `ds`, with the accessors
of these, and each holds what its descriptor allows. Binding gives it (`Bound.bind`), and work on an
attribute keeps it if it does so there (`Bound.visit`). So it holds after every run of operations
(`Bound.run`), among them documents.
-/

set_option autoImplicit false

namespace Scim

/-- The declarations that the schemas of a resource bind. -/
def Descriptor.bound (schemas : List Schema) : List Descriptor :=
  firsts (schemas.flatMap Schema.attributes)

namespace Resource

structure Bound (K : Kept) (ds : List Descriptor) (r : Resource) : Prop where
  accessors : r.accessors = Accessor.table ds
  descriptors : r.attributes.map Attribute.descriptor = ds
  shaped : ∀ a ∈ r.attributes, a.Shaped K

variable {K : Kept} {ds : List Descriptor}

/-- Only the lack of schemas keeps a resource from being bound. -/
theorem exists_bind {schemas : List Schema} (h : schemas ≠ []) (location : String) :
    ∃ r, bind schemas location = .ok r := by
  cases schemas with
  | nil => exact absurd rfl h
  | cons first rest => exact ⟨_, rfl⟩

/-- Nothing is assigned to a new resource, and it is one of a server. -/
theorem fresh_of_bind {schemas : List Schema} {location : String} {r₀ : Resource}
    (h : bind schemas location = .ok r₀) :
    r₀.attributes = (Descriptor.bound schemas).map Attribute.bind ∧ r₀.id = none ∧
      r₀.externalId = none ∧ r₀.mode = .server := by
  cases schemas with
  | nil => cases h
  | cons first rest =>
    cases h
    exact ⟨rfl, rfl, rfl, rfl⟩

theorem Bound.bind (K : Kept) {schemas : List Schema} {location : String} {r : Resource}
    (h : Resource.bind schemas location = .ok r) : r.Bound K (Descriptor.bound schemas) := by
  cases schemas with
  | nil => cases h
  | cons first rest =>
    cases h
    refine ⟨rfl, ?_, fun a ha => ?_⟩
    · simp [Descriptor.bound, Function.comp_def]
    · obtain ⟨d, -, rfl⟩ := List.mem_map.1 ha
      exact .bind K d

theorem Bound.accessor?_eq {r : Resource} (h : r.Bound K ds) (name : String) :
    r.accessor? name = (Accessor.table ds).get? (Text.lower name) := by
  rw [accessor?, h.accessors]

/-! ## Work on an attribute -/

/-- The resource with another attribute at a position. -/
def withAttribute (r : Resource) (i : Nat) (a : Attribute) : Resource :=
  { r with attributes := r.attributes.set i a }

section
variable {α : Type} {f : Attribute → α × Attribute} {name : String} {r : Resource}

theorem visit_none (h : r.accessor? name = none) : r.visit f name = (none, r) := by
  rw [visit, h]

theorem visit_out {accessor : Accessor} (h : r.accessor? name = some accessor)
    (ha : r.attributes[accessor.position]? = none) : r.visit f name = (none, r) := by
  rw [visit, h]
  simp only [ha]

theorem visit_some {accessor : Accessor} (h : r.accessor? name = some accessor) {a : Attribute}
    (ha : r.attributes[accessor.position]? = some a) :
    r.visit f name = ((a.visit f accessor.path).1,
      r.withAttribute accessor.position (a.visit f accessor.path).2) := by
  rw [visit, h]
  simp only [ha]
  rfl

end

theorem Bound.withAttribute {r : Resource} (h : r.Bound K ds) {i : Nat} {a b : Attribute}
    (ha : r.attributes[i]? = some a) (hd : b.descriptor = a.descriptor) (hb : b.Shaped K) :
    (r.withAttribute i b).Bound K ds := by
  refine ⟨h.accessors, ?_, fun x hx => ?_⟩
  · rw [← h.descriptors]
    show (r.attributes.set i b).map _ = _
    obtain ⟨hi, rfl⟩ := List.getElem?_eq_some_iff.1 ha
    rw [List.map_set, hd, ← List.map_set, List.set_getElem_self]
  · rcases List.mem_or_eq_of_mem_set hx with hx | rfl
    · exact h.shaped x hx
    · exact hb

theorem Bound.visit {α : Type} {f : Attribute → α × Attribute}
    (hf : ∀ b : Attribute, b.Shaped K → (f b).2.descriptor = b.descriptor ∧ (f b).2.Shaped K)
    {r : Resource} (h : r.Bound K ds) (name : String) : (r.visit f name).2.Bound K ds := by
  cases hn : r.accessor? name with
  | none =>
    rw [visit_none hn]
    exact h
  | some accessor =>
    cases ha : r.attributes[accessor.position]? with
    | none =>
      rw [visit_out hn ha]
      exact h
    | some a =>
      obtain ⟨hd, hs⟩ := (h.shaped a (List.mem_of_getElem? ha)).visit hf accessor.path
      rw [visit_some hn ha]
      exact h.withAttribute ha hd hs

/-! ## Documents -/

theorem Bound.assign {P : Value → Prop} (hK : K.Takes true P) {r : Resource} (h : r.Bound K ds)
    (name : String) {v : Value} (hv : P v) : (r.assign name v).2.Bound K ds :=
  h.visit (fun b _ => ⟨rfl, .store hK hv b⟩) name

theorem Bound.assignMember {P : Value → Prop} (hK : K.Takes true P) {r : Resource}
    (h : r.Bound K ds) {member : String × Json} (hv : P (.ofJson member.2)) :
    (r.assignMember member).Bound K ds := by
  unfold Resource.assignMember
  split
  · exact ⟨h.accessors, h.descriptors, h.shaped⟩
  split
  · exact ⟨h.accessors, h.descriptors, h.shaped⟩
  split
  · exact h
  · exact h.assign hK member.1 hv

theorem Bound.assignMembers {P : Value → Prop} (hK : K.Takes true P)
    {members : List (String × Json)} (hv : ∀ m ∈ members, P (.ofJson m.2)) {r : Resource}
    (h : r.Bound K ds) : (members.foldl Resource.assignMember r).Bound K ds := by
  induction members generalizing r with
  | nil => exact h
  | cons m members ih =>
    exact ih (fun m' hm' => hv m' (List.mem_cons_of_mem _ hm'))
      (h.assignMember hK (hv m List.mem_cons_self))

/-! ## Runs -/

/-- What a caller does with a resource. -/
inductive Operation where
  /-- Work on the attribute of a name, or on a sub-attribute that a path leads to from there. -/
  | work (name : String) (path : List String) (operation : Scim.Operation)
  | assignJson (document : Json)
  | setId (id : Option String)
  | setExternalId (id : Option String)
  | setMetadata (metadata : Meta)
  | setMode (mode : Mode)
  | validate
  | computeVersion

/-- A refused document changes nothing. -/
def Operation.apply (r : Resource) : Operation → Resource
  | work name path operation =>
    (r.visit (fun a => ((), a.perform (path, operation))) name).2
  | assignJson document =>
    match r.assignJson document with
    | .ok r => r
    | .error _ => r
  | setId id => { r with id }
  | setExternalId externalId => { r with externalId }
  | setMetadata metadata => { r with metadata }
  | setMode mode => { r with mode }
  | validate => r.validate
  | computeVersion => r.computeVersion.2

def run (r : Resource) (operations : List Operation) : Resource :=
  operations.foldl Operation.apply r

theorem Bound.apply (hcoerced : K.Takes true fun _ => True) (hgiven : K.Takes false fun _ => True)
    {r : Resource} (h : r.Bound K ds) (operation : Operation) :
    (operation.apply r).Bound K ds := by
  cases operation with
  | work name path operation =>
    exact h.visit (f := fun a => ((), a.perform (path, operation)))
      (fun b hb => hb.perform hcoerced hgiven (path, operation)) name
  | assignJson document =>
    cases document with
    | object members => exact h.assignMembers hcoerced (fun _ _ => trivial)
    | _ => exact h
  | validate =>
    refine ⟨h.accessors, ?_, fun a ha => ?_⟩
    · rw [← h.descriptors]
      show (r.attributes.map Attribute.validate).map _ = _
      rw [List.map_map]
      rfl
    · obtain ⟨b, hb, rfl⟩ := List.mem_map.1 ha
      exact h.shaped b hb
  | _ => exact ⟨h.accessors, h.descriptors, h.shaped⟩

theorem Bound.run (hcoerced : K.Takes true fun _ => True) (hgiven : K.Takes false fun _ => True)
    {r : Resource} (h : r.Bound K ds) (operations : List Operation) :
    (r.run operations).Bound K ds := by
  induction operations generalizing r with
  | nil => exact h
  | cons operation operations ih => exact ih (h.apply hcoerced hgiven operation)

end Resource

end Scim
