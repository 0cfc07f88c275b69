import Scim.Attribute.Check

/-!
# Problems in order

`Attribute.problems` lists what is wrong with an attribute, each problem with the field for which it is
found: its own first, then those of what it holds, in the order in which it is held. The report of a
check gathers exactly these by field (`Attribute.groups_check`): nothing is left out, found twice or put
elsewhere, and no field stands in it for which nothing was found. A report may be merged into another at
every level, since gathering by field commutes with putting lists one behind the other
(`Report.Groups.merge`).
-/

set_option autoImplicit false

namespace Scim

/-! ## Reports -/

/-- The problems of a field, in the order in which they were found. -/
def Problem.ofField (field : String) (found : List (String × Problem)) : List Problem :=
  (found.filter fun e => e.1 == field).map Prod.snd

namespace Problem

@[simp] theorem ofField_nil (field : String) : ofField field [] = [] := rfl

@[simp] theorem ofField_append (field : String) (found more : List (String × Problem)) :
    ofField field (found ++ more) = ofField field found ++ ofField field more := by
  simp [ofField]

theorem ofField_singleton (field f : String) (problem : Problem) :
    ofField field [(f, problem)] = if field = f then [problem] else [] := by
  by_cases h : field = f
  · simp [ofField, h]
  · simp [ofField, h, Ne.symm h]

theorem ofField_flatMap {α : Type} (field : String) (l : List α)
    (found : α → List (String × Problem)) :
    ofField field (l.flatMap found) = l.flatMap fun a => ofField field (found a) := by
  induction l with
  | nil => rfl
  | cons a l ih => simp [ih]

theorem ofField_perm {found more : List (String × Problem)} (h : found.Perm more) (field : String) :
    (ofField field found).Perm (ofField field more) :=
  (h.filter _).map _

theorem mem_ofField {field : String} {problem : Problem} {found : List (String × Problem)} :
    problem ∈ ofField field found ↔ (field, problem) ∈ found := by
  constructor
  · intro h
    obtain ⟨e, he, rfl⟩ := List.mem_map.1 h
    obtain ⟨he, hfield⟩ := List.mem_filter.1 he
    exact (beq_iff_eq.1 hfield) ▸ he
  · intro h
    exact List.mem_map.2 ⟨_, List.mem_filter.2 ⟨h, beq_iff_eq.2 rfl⟩, rfl⟩

/-- Where no field has a problem, nothing was found. -/
theorem eq_nil_of_ofField {found : List (String × Problem)} (h : ∀ field, ofField field found = []) :
    found = [] := by
  cases found with
  | nil => rfl
  | cons e found => simpa [ofField] using h e.1

end Problem

namespace Report

/-- The report has what was found, by field, and no field for which nothing was found. -/
def Groups (r : Report) (found : List (String × Problem)) : Prop :=
  ∀ field, r.fields.get? field =
    if Problem.ofField field found = [] then none else some (Problem.ofField field found)

namespace Groups

variable {r other : Report} {found more : List (String × Problem)}

theorem empty : Report.empty.Groups [] :=
  fun _ => rfl

theorem add (h : r.Groups found) (field : String) (problem : Problem) :
    (r.add field problem).Groups (found ++ [(field, problem)]) := by
  intro f
  rw [Report.add, get?_addAll, h, h, Problem.ofField_append, Problem.ofField_singleton]
  by_cases hf : f = field
  · subst hf
    by_cases hnone : Problem.ofField f found = [] <;> simp [hnone]
  · simp [hf]

theorem merge (h : r.Groups found) (h' : other.Groups more) :
    (r.merge other).Groups (found ++ more) := by
  intro f
  rw [get?_merge, h, h', Problem.ofField_append]
  by_cases hnone : Problem.ofField f more = []
  · simp [hnone]
  · by_cases hbefore : Problem.ofField f found = [] <;> simp [hnone, hbefore]

theorem get (h : r.Groups found) (field : String) : r.get field = Problem.ofField field found := by
  rw [Report.get, h]
  by_cases hnone : Problem.ofField field found = [] <;> simp [hnone]

theorem contains (h : r.Groups found) (field : String) :
    r.contains field = true ↔ Problem.ofField field found ≠ [] := by
  rw [Report.contains, h]
  by_cases hnone : Problem.ofField field found = [] <;> simp [hnone]

theorem isEmpty (h : r.Groups found) : r.isEmpty = true ↔ found = [] := by
  constructor
  · intro hempty
    refine Problem.eq_nil_of_ofField fun field => ?_
    have hentries : r.fields.entries = [] := List.isEmpty_iff.1 hempty
    rw [← h.get, Report.get, Table.get?, hentries]
    rfl
  · rintro rfl
    have hr : r = .empty := by
      obtain ⟨fields⟩ := r
      exact congrArg mk (Table.ext h)
    rw [hr]
    rfl

end Groups

end Report

/-! ## What is wrong with an attribute -/

namespace Descriptor

/-- The problem of one value, or of one element of a list. -/
def scalarProblems (d : Descriptor) (v : Value) : List (String × Problem) :=
  (d.checkScalar v).toList.map fun problem => (d.name, problem)

/-- The problems of a value that is kept as a whole, element by element. -/
def valueProblems (d : Descriptor) : Value → List (String × Problem)
  | .null => []
  | .list items =>
    if d.multiValued then items.flatMap d.scalarProblems else [(d.name, .singleExpected)]
  | v => (if d.multiValued then [(d.name, .multipleExpected)] else []) ++ d.scalarProblems v

end Descriptor

mutual

/-- What is wrong with an attribute, in the order in which it is found. -/
def Attribute.problems : Attribute → List (String × Problem)
  | .mk d content _ =>
    (if d.required && content.isBlank then [(d.name, .required)] else []) ++ content.problems d

def Content.problems (d : Descriptor) : Content → List (String × Problem)
  | .plain v => d.valueProblems v
  | .object c => c.problems
  | .items items => Item.allProblems d items

/-- The sub-attributes in order, then the keys that are not declared. -/
def Composite.problems : Composite → List (String × Problem)
  | .mk attributes undeclared =>
    Attribute.allProblems attributes ++ undeclared.map fun key => (key, .undeclared)

def Attribute.allProblems : List Attribute → List (String × Problem)
  | [] => []
  | a :: rest => a.problems ++ Attribute.allProblems rest

def Item.allProblems (d : Descriptor) : List Item → List (String × Problem)
  | [] => []
  | .object c :: rest => c.problems ++ Item.allProblems d rest
  | .other v :: rest => d.scalarProblems v ++ Item.allProblems d rest

end

theorem Attribute.allProblems_eq (attributes : List Attribute) :
    allProblems attributes = attributes.flatMap problems := by
  induction attributes with
  | nil => rfl
  | cons a attributes ih => rw [allProblems, List.flatMap_cons, ih]

/-! ## Checks -/

namespace Descriptor

variable {d : Descriptor} {r : Report} {found : List (String × Problem)}

theorem groups_report (h : r.Groups found) (v : Value) :
    (d.report (d.checkScalar v) r).Groups (found ++ d.scalarProblems v) := by
  unfold report scalarProblems
  cases d.checkScalar v with
  | none => simpa using h
  | some problem => simpa using h.add d.name problem

theorem groups_scalars (h : r.Groups found) (items : List Value) :
    (items.foldl (fun r v => d.report (d.checkScalar v) r) r).Groups
      (found ++ items.flatMap d.scalarProblems) := by
  induction items generalizing r found with
  | nil => simpa using h
  | cons v items ih =>
    rw [List.foldl_cons, List.flatMap_cons, ← List.append_assoc]
    exact ih (groups_report h v)

theorem groups_checkValue (h : r.Groups found) (v : Value) :
    (d.checkValue v r).Groups (found ++ d.valueProblems v) := by
  have single (v : Value) : (d.report (d.checkScalar v)
      (if d.multiValued then r.add d.name .multipleExpected else r)).Groups
        (found ++ ((if d.multiValued then [(d.name, .multipleExpected)] else []) ++
          d.scalarProblems v)) := by
    rw [← List.append_assoc]
    cases d.multiValued with
    | true => exact groups_report (h.add d.name .multipleExpected) v
    | false => simpa using groups_report h v
  cases v with
  | null => simpa [checkValue, valueProblems] using h
  | list items =>
    unfold checkValue valueProblems
    cases d.multiValued with
    | true => exact groups_scalars h items
    | false => exact h.add d.name .singleExpected
  | _ => exact single _

end Descriptor

theorem Composite.groups_undeclared {r : Report} {found : List (String × Problem)}
    (h : r.Groups found) (keys : List String) :
    (keys.foldl (fun r key => r.add key .undeclared) r).Groups
      (found ++ keys.map fun key => (key, .undeclared)) := by
  induction keys generalizing r found with
  | nil => simpa using h
  | cons key keys ih =>
    have hrest := ih (h.add key .undeclared)
    rwa [List.append_assoc] at hrest

mutual

theorem Attribute.groups_check (a : Attribute) : a.check.Groups a.problems := by
  obtain ⟨d, content, report⟩ := a
  rw [Attribute.check, Attribute.problems]
  refine Content.groups_check ?_ content
  cases d.required && content.isBlank with
  | true => exact Report.Groups.empty.add d.name .required
  | false => exact .empty

theorem Content.groups_check {d : Descriptor} {r : Report} {found : List (String × Problem)}
    (h : r.Groups found) (content : Content) :
    (content.check d r).Groups (found ++ content.problems d) := by
  cases content with
  | plain v =>
    rw [Content.check, Content.problems]
    exact Descriptor.groups_checkValue h v
  | object c =>
    rw [Content.check, Content.problems]
    exact Composite.groups_check h c
  | items items =>
    rw [Content.check, Content.problems]
    exact Item.groups_checkAll h items

theorem Composite.groups_check {r : Report} {found : List (String × Problem)} (h : r.Groups found)
    (c : Composite) : (c.check r).Groups (found ++ c.problems) := by
  obtain ⟨attributes, undeclared⟩ := c
  rw [Composite.check, Composite.problems, ← List.append_assoc]
  exact Composite.groups_undeclared (Attribute.groups_checkAll h attributes) undeclared

theorem Attribute.groups_checkAll {r : Report} {found : List (String × Problem)} (h : r.Groups found)
    (attributes : List Attribute) :
    (Attribute.checkAll r attributes).Groups (found ++ Attribute.allProblems attributes) := by
  cases attributes with
  | nil => simpa [Attribute.checkAll, Attribute.allProblems] using h
  | cons a rest =>
    rw [Attribute.checkAll, Attribute.allProblems, ← List.append_assoc]
    exact Attribute.groups_checkAll (h.merge (Attribute.groups_check a)) rest

theorem Item.groups_checkAll {d : Descriptor} {r : Report} {found : List (String × Problem)}
    (h : r.Groups found) (items : List Item) :
    (Item.checkAll d r items).Groups (found ++ Item.allProblems d items) := by
  cases items with
  | nil => simpa [Item.checkAll, Item.allProblems] using h
  | cons item rest =>
    cases item with
    | object c =>
      rw [Item.checkAll, Item.allProblems, ← List.append_assoc]
      exact Item.groups_checkAll (Composite.groups_check h c) rest
    | other v =>
      rw [Item.checkAll, Item.allProblems, ← List.append_assoc]
      exact Item.groups_checkAll (Descriptor.groups_report h v) rest

end

end Scim
