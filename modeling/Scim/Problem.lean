import Scim.Table
import Scim.Text.Quoted

/-! # Problems with data

Problems that validation finds, and reports that gather them by the name of the field. The problems
of a field stand in the order in which they were found: `get?_addAll` and `get?_merge` say that new ones
come after those that are there.
-/

set_option autoImplicit false

namespace Scim

inductive Problem where
  | required
  | notCanonical (value : String) (allowed : List String)
  | wrongType (expected actual : String)
  | wrongFormat (expected value : String)
  | multipleExpected
  | singleExpected
  | undeclared
deriving DecidableEq

/-- What follows the name of the field. -/
def Problem.message : Problem → String
  | required => "is required"
  | notCanonical value allowed =>
    s!"'{value}' is not one of the canonical values {Text.quotedList allowed}"
  | wrongType expected actual => s!"has invalid type, expected {expected}, got {actual}"
  | wrongFormat expected value => s!"is not a valid {expected}: {value}"
  | multipleExpected => "must be multi-valued (array)"
  | singleExpected => "must be single-valued (not array)"
  | undeclared => "is not a recognized attribute"

/-- Problems by field. -/
structure Report where
  fields : Table (List Problem)
deriving DecidableEq

namespace Report

def empty : Report := ⟨.empty⟩

instance : Inhabited Report := ⟨empty⟩

def isEmpty (r : Report) : Bool :=
  r.fields.isEmpty

/-- Adds problems to those of a field. -/
def addAll (field : String) (problems : List Problem) (r : Report) : Report :=
  ⟨r.fields.update field fun old => old.getD [] ++ problems⟩

def add (field : String) (problem : Problem) (r : Report) : Report :=
  r.addAll field [problem]

/-- Adds the problems of another report to those of this one. -/
def merge (r other : Report) : Report :=
  other.fields.entries.foldl (fun r e => r.addAll e.1 e.2) r

def get (r : Report) (field : String) : List Problem :=
  (r.fields.get? field).getD []

def contains (r : Report) (field : String) : Bool :=
  (r.fields.get? field).isSome

def messages (r : Report) (field : String) : List String :=
  (r.get field).map Problem.message

/-- Every message behind the name of its field. -/
def fullMessages (r : Report) : List String :=
  r.fields.entries.flatMap fun e => e.2.map fun p => s!"{e.1} {p.message}"

def text (r : Report) : String :=
  ", ".intercalate r.fullMessages

/-! ## Problems of a field -/

theorem get?_addAll (r : Report) (field : String) (problems : List Problem) (f : String) :
    (r.addAll field problems).fields.get? f =
      if f = field then some ((r.fields.get? field).getD [] ++ problems) else r.fields.get? f := by
  rw [addAll, Table.get?_update]

theorem get?_merge (r other : Report) (f : String) :
    (r.merge other).fields.get? f = (other.fields.get? f).elim (r.fields.get? f)
      fun problems => some ((r.fields.get? f).getD [] ++ problems) := by
  obtain ⟨⟨entries, ascending⟩⟩ := other
  show (entries.foldl (fun r e => r.addAll e.1 e.2) r).fields.get? f =
    (Entries.get? entries f).elim _ _
  induction entries generalizing r with
  | nil => rfl
  | cons e entries ih =>
    obtain ⟨k, problems⟩ := e
    rw [List.foldl_cons, ih _ ascending.tail, get?_addAll, Entries.get?_cons]
    by_cases h : f = k
    · subst h
      simp [Entries.get?_eq_none_of_lt (Entries.lt_of_mem ascending)]
    · simp [h]

end Report

end Scim
