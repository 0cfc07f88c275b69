import Scim.Proofs.Attribute.Problems
import Scim.Proofs.Attribute.Routing
import Mathlib.Data.Finset.Card
import Mathlib.Data.Fintype.EquivFin

/-!
# Canonical values

What the own check of a descriptor finds is told from what is found in the objects that an attribute
holds (`Attribute.problems_perm`), and the report of a check has both for each field
(`Attribute.get_check_perm`). A value that is not canonical is found only as text, for a string or a
reference that declares canonical values (`Descriptor.checkScalar_eq_notCanonical`), and there is always
such a text (`Descriptor.exists_notCanonical`). So canonical values are declared without any effect, on the
own check and on the report (`Descriptor.unchecked_iff_check`), exactly where the datatype is another one
(`Descriptor.unchecked_iff`).
-/

set_option autoImplicit false

namespace Scim

/-! ## The own check of a descriptor -/

/-- What the descriptor of an attribute finds in an element that is no object. -/
def Item.ownProblems (d : Descriptor) : Item → List (String × Problem)
  | .object _ => []
  | .other v => d.scalarProblems v

/-- What the descriptor of an attribute finds in its values, those of its sub-attributes apart. -/
def Content.ownProblems (d : Descriptor) : Content → List (String × Problem)
  | .plain v => d.valueProblems v
  | .object _ => []
  | .items held => held.flatMap (Item.ownProblems d)

def Item.composites : Item → List Composite
  | .object c => [c]
  | .other _ => []

/-- The objects that are held, each with sub-attributes of its own. -/
def Content.composites : Content → List Composite
  | .plain _ => []
  | .object c => [c]
  | .items held => held.flatMap Item.composites

theorem Item.allProblems_perm (d : Descriptor) (items : List Item) :
    (allProblems d items).Perm
      (items.flatMap (ownProblems d) ++ (items.flatMap composites).flatMap Composite.problems) := by
  induction items with
  | nil => exact .nil
  | cons item items ih =>
    cases item with
    | object c => exact (ih.append_left _).trans (List.perm_append_comm_assoc _ _ _)
    | other v =>
      rw [allProblems, List.flatMap_cons, List.flatMap_cons, List.append_assoc]
      exact ih.append_left _

theorem Content.problems_perm (d : Descriptor) (content : Content) :
    (content.problems d).Perm
      (content.ownProblems d ++ content.composites.flatMap Composite.problems) := by
  cases content with
  | plain v => simp [problems, ownProblems, composites]
  | object c => simp [problems, ownProblems, composites]
  | items items => exact Item.allProblems_perm d items

namespace Attribute

/-- What the own check of the descriptor of an attribute finds. -/
def ownProblems (a : Attribute) : List (String × Problem) :=
  (if a.descriptor.required && a.content.isBlank then [(a.descriptor.name, .required)] else []) ++
    a.content.ownProblems a.descriptor

/-- The problems of an attribute are those of its own and those of the objects that it holds. -/
theorem problems_perm (a : Attribute) :
    a.problems.Perm (a.ownProblems ++ a.content.composites.flatMap Composite.problems) := by
  obtain ⟨d, content, report⟩ := a
  rw [problems, ownProblems, List.append_assoc]
  exact (content.problems_perm d).append_left _

/-- What a check reports for a field is what the own check of the descriptor finds for it and what is
found in the objects that are held. -/
theorem get_check_perm (a : Attribute) (field : String) :
    (a.check.get field).Perm (Problem.ofField field a.ownProblems ++
      Problem.ofField field (a.content.composites.flatMap Composite.problems)) := by
  rw [a.groups_check.get, ← Problem.ofField_append]
  exact Problem.ofField_perm a.problems_perm field

theorem mem_check_iff {a : Attribute} {field : String} {problem : Problem} :
    problem ∈ a.check.get field ↔ (field, problem) ∈ a.ownProblems ∨
      ∃ c ∈ a.content.composites, (field, problem) ∈ c.problems := by
  rw [(a.get_check_perm field).mem_iff, List.mem_append, Problem.mem_ofField, Problem.mem_ofField,
    List.mem_flatMap]

end Attribute

/-! ## Where a value is not canonical -/

namespace Descriptor

variable {d : Descriptor}

/-- Text of these datatypes is looked up among the canonical values. -/
def IsTextual (d : Descriptor) : Prop :=
  d.datatype = .string ∨ d.datatype = .reference

theorem checkOther_ne_notCanonical (d : Descriptor) (v : Value) (s : String) (allowed : List String) :
    d.checkOther v ≠ some (.notCanonical s allowed) := by
  unfold checkOther
  split
  · split <;> simp
  · split <;> simp
  · simp

theorem checkCanonical_eq_some {s : String} {problem : Problem} :
    d.checkCanonical s = some problem ↔
      ∃ allowed, d.canonicalValues = some allowed ∧ s ∉ allowed ∧ problem = .notCanonical s allowed := by
  unfold checkCanonical
  cases d.canonicalValues with
  | none => simp
  | some allowed =>
    by_cases h : s ∈ allowed
    · simp [h]
    · simp [h, eq_comm]

/-- A value is found not to be canonical exactly if it is a text that is none of the canonical values of
a string or a reference. -/
theorem checkScalar_eq_notCanonical {v : Value} {s : String} {allowed : List String} :
    d.checkScalar v = some (.notCanonical s allowed) ↔
      d.IsTextual ∧ v = .text s ∧ d.canonicalValues = some allowed ∧ s ∉ allowed := by
  have hother (v : Value) := d.checkOther_ne_notCanonical v s allowed
  have hcanonical (t : String) : d.checkCanonical t = some (.notCanonical s allowed) ↔
      t = s ∧ d.canonicalValues = some allowed ∧ s ∉ allowed := by
    rw [checkCanonical_eq_some]
    constructor
    · rintro ⟨allowed, h, hs, hproblem⟩
      obtain ⟨rfl, rfl⟩ := Problem.notCanonical.inj hproblem
      exact ⟨rfl, h, hs⟩
    · rintro ⟨rfl, h, hs⟩
      exact ⟨allowed, h, hs, rfl⟩
  unfold checkScalar IsTextual
  cases hd : d.datatype <;> cases v <;> simp [hcanonical, hother]

theorem mem_scalarProblems {v : Value} {field : String} {problem : Problem} :
    (field, problem) ∈ d.scalarProblems v ↔ d.checkScalar v = some problem ∧ field = d.name := by
  simp [scalarProblems, eq_comm]

/-- What is found in a value that is kept as a whole and is neither about its shape nor about one of
its elements is about the value itself. -/
theorem exists_checkScalar_of_mem_valueProblems {v : Value} {field s : String} {allowed : List String}
    (h : (field, Problem.notCanonical s allowed) ∈ d.valueProblems v) :
    ∃ v, d.checkScalar v = some (.notCanonical s allowed) := by
  unfold valueProblems at h
  split at h
  · cases h
  · split at h
    · obtain ⟨v, -, hv⟩ := List.mem_flatMap.1 h
      exact ⟨v, (mem_scalarProblems.1 hv).1⟩
    · simp at h
  · rcases List.mem_append.1 h with h | h
    · split at h <;> simp at h
    · exact ⟨v, (mem_scalarProblems.1 h).1⟩

end Descriptor

namespace Attribute

/-- Whatever an attribute holds, its own check finds a value that is not canonical only for a string or a
reference. -/
theorem isTextual_of_mem_ownProblems {a : Attribute} {field s : String} {allowed : List String}
    (h : (field, Problem.notCanonical s allowed) ∈ a.ownProblems) : a.descriptor.IsTextual := by
  have hscalar : ∃ v, a.descriptor.checkScalar v = some (.notCanonical s allowed) := by
    rw [ownProblems, List.mem_append] at h
    rcases h with h | h
    · split at h <;> simp at h
    · cases hcontent : a.content with
      | plain v =>
        rw [hcontent, Content.ownProblems] at h
        exact Descriptor.exists_checkScalar_of_mem_valueProblems h
      | object c =>
        rw [hcontent] at h
        cases h
      | items items =>
        rw [hcontent, Content.ownProblems] at h
        obtain ⟨item, -, hitem⟩ := List.mem_flatMap.1 h
        cases item with
        | object c => cases hitem
        | other v => exact ⟨v, (Descriptor.mem_scalarProblems.1 hitem).1⟩
  obtain ⟨v, hv⟩ := hscalar
  exact (Descriptor.checkScalar_eq_notCanonical.1 hv).1

end Attribute

/-! ## Canonical values without effect -/

theorem exists_string_notMem (allowed : List String) : ∃ s, s ∉ allowed := by
  obtain ⟨s, hs⟩ := Infinite.exists_notMem_finset allowed.toFinset
  exact ⟨s, fun h => hs (List.mem_toFinset.2 h)⟩

namespace Descriptor

variable {d : Descriptor}

theorem IsTextual.isComplex (h : d.IsTextual) : d.isComplex = false := by
  rcases h with h | h <;> simp [Descriptor.isComplex, h]

theorem IsTextual.coerce (h : d.IsTextual) (s : String) : d.coerce (.text s) = .text s := by
  rcases h with h | h <;> simp [Descriptor.coerce, h, DataType.coerce, Value.toText]

/-- For a string or a reference there is a text that is rejected, in whatever way it is assigned. -/
theorem exists_notCanonical (h : d.IsTextual) {allowed : List String}
    (hallowed : d.canonicalValues = some allowed) :
    ∃ s, s ∉ allowed ∧ ∀ a : Attribute, a.descriptor = d → ∀ coerced,
      (d.name, Problem.notCanonical s allowed) ∈ (a.store coerced (.text s)).ownProblems := by
  obtain ⟨s, hs⟩ := exists_string_notMem allowed
  refine ⟨s, hs, fun a ha coerced => ?_⟩
  subst ha
  have hcontent : Content.ofValue coerced a.descriptor (.text s) = .plain (.text s) := by
    rw [Content.ofValue_simple h.isComplex, h.coerce, ite_self]
  have hproblem : (a.descriptor.name, Problem.notCanonical s allowed) ∈
      a.descriptor.scalarProblems (.text s) :=
    mem_scalarProblems.2 ⟨checkScalar_eq_notCanonical.2 ⟨h, rfl, hallowed, hs⟩, rfl⟩
  have hown : (Content.plain (.text s)).ownProblems a.descriptor =
      (if a.descriptor.multiValued then [(a.descriptor.name, .multipleExpected)] else []) ++
        a.descriptor.scalarProblems (.text s) := rfl
  show _ ∈ _ ++ (Content.ofValue coerced a.descriptor (.text s)).ownProblems a.descriptor
  rw [hcontent, hown]
  exact List.mem_append_right _ (List.mem_append_right _ hproblem)

/-- Canonical values are declared, but nothing that is assigned to an attribute of the descriptor,
coerced or not, is found not to be canonical by its own check. -/
def Unchecked (d : Descriptor) : Prop :=
  d.canonicalValues.isSome = true ∧
    ∀ a : Attribute, a.descriptor = d → ∀ (coerced : Bool) (v : Value) (field s : String)
      (allowed : List String),
      (field, Problem.notCanonical s allowed) ∉ (a.store coerced v).ownProblems

/-- In terms of reports: a value that is not canonical is found only within an object that is held, by the
sub-attributes of the object. -/
theorem unchecked_iff_check :
    d.Unchecked ↔ d.canonicalValues.isSome = true ∧
      ∀ a : Attribute, a.descriptor = d → ∀ (coerced : Bool) (v : Value) (field s : String)
        (allowed : List String),
        Problem.notCanonical s allowed ∈ (a.store coerced v).check.get field →
        ∃ c ∈ (a.store coerced v).content.composites,
          (field, Problem.notCanonical s allowed) ∈ c.problems := by
  refine and_congr_right fun _ => forall₂_congr fun a _ => ?_
  refine forall₅_congr fun coerced v field s allowed => ?_
  rw [Attribute.mem_check_iff]
  constructor
  · exact fun hnone h => h.resolve_left hnone
  · intro hinner hown
    -- a string or a reference holds no object
    have htextual := Attribute.isTextual_of_mem_ownProblems hown
    rw [Attribute.descriptor_store] at htextual
    obtain ⟨c, hc, -⟩ := hinner (.inl hown)
    rw [Attribute.content_store, Content.ofValue_simple htextual.isComplex] at hc
    cases hc

theorem unchecked_iff :
    d.Unchecked ↔ d.canonicalValues.isSome = true ∧ d.datatype ≠ .string ∧ d.datatype ≠ .reference := by
  constructor
  · rintro ⟨hsome, hnone⟩
    obtain ⟨allowed, hallowed⟩ := Option.isSome_iff_exists.1 hsome
    have hnot : ¬ d.IsTextual := fun h => by
      obtain ⟨s, -, hs⟩ := exists_notCanonical h hallowed
      exact hnone (.bind d) (Attribute.descriptor_bind d) true (.text s) _ _ _
        (hs _ (Attribute.descriptor_bind d) true)
    exact ⟨hsome, not_or.1 hnot⟩
  · rintro ⟨hsome, hd⟩
    refine ⟨hsome, fun a ha coerced v field s allowed h => not_or.2 hd ?_⟩
    have htextual := Attribute.isTextual_of_mem_ownProblems h
    rwa [Attribute.descriptor_store, ha] at htextual

instance : DecidablePred Unchecked :=
  fun _ => decidable_of_iff _ unchecked_iff.symm

end Descriptor

end Scim
