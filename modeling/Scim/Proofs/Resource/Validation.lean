import Scim.Proofs.Attribute.Problems
import Scim.Proofs.Attribute.Visibility
import Scim.Resource.Basic

/-!
# Validation of resources

A resource is valid exactly if it has an identifier and nothing is wrong with its attributes; otherwise
its report has the problem of the identifier, then those of the attributes in order, gathered by field
(`reports_problems`). Validation keeps reports and changes nothing that can be read or shown
(`unchanged_validate`).
-/

set_option autoImplicit false

namespace Scim

namespace Attribute

theorem value_validate (a : Attribute) : a.validate.value = a.value := by
  obtain ⟨d, content, report⟩ := a
  rfl

theorem render_validate (mode : Mode) (a : Attribute) : a.validate.render mode = a.render mode := by
  have hvisible : a.validate.isVisible mode = a.isVisible mode := by
    simp only [isVisible, isBlank_eq]
    rfl
  rw [render_eq, render_eq, hvisible]
  rfl

theorem members_validate (mode : Mode) (attributes : List Attribute) :
    members mode (attributes.map validate) = members mode attributes := by
  induction attributes with
  | nil => rfl
  | cons a attributes ih =>
    rw [List.map_cons, members, members, render_validate, ih]
    rfl

end Attribute

namespace Resource

variable {r : Resource}

/-! ## What is wrong with a resource -/

/-- There is an identifier, and it is not all white space. -/
def Identified (r : Resource) : Prop :=
  ∃ id, r.id = some id ∧ ∃ c ∈ id.toList, Text.isSpace c = false

theorem identified_iff : r.Identified ↔ r.id.all Text.isBlank = false := by
  unfold Identified
  cases r.id <;> simp [Text.isBlank]

instance (r : Resource) : Decidable r.Identified :=
  decidable_of_iff _ identified_iff.symm

/-- The problem of the identifier, then those of the attributes in order. -/
def problems (r : Resource) : List (String × Problem) :=
  (if r.Identified then [] else [("id", .required)]) ++ r.attributes.flatMap Attribute.problems

theorem groups_check (r : Resource) : r.check.Groups r.problems := by
  have merged (attributes : List Attribute) {report : Report} {found : List (String × Problem)}
      (h : report.Groups found) :
      (attributes.foldl (fun report a => report.merge a.check) report).Groups
        (found ++ attributes.flatMap Attribute.problems) := by
    induction attributes generalizing report found with
    | nil => simpa using h
    | cons a attributes ih =>
      rw [List.foldl_cons, List.flatMap_cons, ← List.append_assoc]
      exact ih (h.merge a.groups_check)
  rw [check, problems]
  refine merged r.attributes ?_
  by_cases h : r.Identified
  · simp [identified_iff.1 h, h, Report.Groups.empty]
  · have hmissing : r.id.all Text.isBlank = true := by
      simpa [identified_iff] using h
    simpa [hmissing, h] using Report.Groups.empty.add "id" .required

theorem ofField_problems (r : Resource) (field : String) : Problem.ofField field r.problems =
    (if field = "id" ∧ ¬ r.Identified then [.required] else []) ++
      r.attributes.flatMap fun a => Problem.ofField field a.problems := by
  rw [problems, Problem.ofField_append, Problem.ofField_flatMap]
  by_cases h : r.Identified
  · simp [h]
  · simp [h, Problem.ofField_singleton]

theorem problems_eq_nil_iff : r.problems = [] ↔ r.Identified ∧ ∀ a ∈ r.attributes, a.problems = [] := by
  by_cases h : r.Identified <;> simp [problems, h]

/-! ## What validation leaves alone -/

/-- Nothing that can be read or shown differs. -/
structure Unchanged (r s : Resource) : Prop where
  id : s.id = r.id
  externalId : s.externalId = r.externalId
  metadata : s.metadata = r.metadata
  schemas : s.schemas = r.schemas
  accessors : s.accessors = r.accessors
  mode : s.mode = r.mode
  descriptors : s.attributes.map Attribute.descriptor = r.attributes.map Attribute.descriptor
  contents : s.attributes.map Attribute.content = r.attributes.map Attribute.content
  values : ∀ name, s.get name = r.get name
  shown : ∀ mode, s.content mode = r.content mode
  document : s.toJson = r.toJson

theorem get_validate (r : Resource) (name : String) : r.validate.get name = r.get name := by
  have hacc : r.validate.accessor? name = r.accessor? name := rfl
  have hget (i : Nat) : r.validate.attributes[i]? = r.attributes[i]?.map Attribute.validate :=
    List.getElem?_map
  unfold get attribute?
  rw [hacc]
  cases r.accessor? name with
  | none => rfl
  | some accessor =>
    simp only [hget]
    cases r.attributes[accessor.position]? with
    | none => rfl
    | some a =>
      cases accessor.child with
      | none => simp [Attribute.value_validate]
      | some child => rfl

theorem content_validate (mode : Mode) (r : Resource) :
    r.validate.content mode = r.content mode := by
  have hmembers := Attribute.members_validate mode r.attributes
  unfold content
  rw [show r.validate.attributes = r.attributes.map Attribute.validate from rfl, hmembers]
  rfl

theorem unchanged_validate (r : Resource) : r.Unchanged r.validate where
  id := rfl
  externalId := rfl
  metadata := rfl
  schemas := rfl
  accessors := rfl
  mode := rfl
  descriptors := List.map_map
  contents := List.map_map
  values := r.get_validate
  shown mode := r.content_validate mode
  document := by
    unfold toJson
    rw [r.content_validate]
    rfl

/-! ## Main result -/

/-- **Validation reports every problem once, and in order.** The report of an attribute has under each
field the problems that are found for it, in the order of the attribute, and only the fields for which
there are some; so has that of a resource, where a missing identifier comes first. A resource is valid
exactly if it has an identifier and nothing is wrong with its attributes. -/
theorem reports_problems :
    (∀ (a : Attribute) (field : String),
      a.check.get field = Problem.ofField field a.problems ∧
      (a.check.contains field = true ↔ Problem.ofField field a.problems ≠ [])) ∧
    ∀ r : Resource,
      (r.isValid = true ↔ r.Identified ∧ ∀ a ∈ r.attributes, a.problems = []) ∧
      (∀ field, r.validate.report.get field =
        (if field = "id" ∧ ¬ r.Identified then [.required] else []) ++
          r.attributes.flatMap fun a => Problem.ofField field a.problems) ∧
      r.Unchanged r.validate := by
  refine ⟨fun a field => ?_, fun r => ⟨?_, fun field => ?_, r.unchanged_validate⟩⟩
  · exact ⟨a.groups_check.get field, a.groups_check.contains field⟩
  · exact r.groups_check.isEmpty.trans problems_eq_nil_iff
  · rw [← ofField_problems]
    exact r.groups_check.get field

end Resource

end Scim
