import Scim.Registry.Files
import Scim.Resource.Basic

/-! # Registries

Schemas by their identifiers. A schema that is registered replaces the one with its identifier.
-/

set_option autoImplicit false

namespace Scim

structure Registry where
  schemas : Table Schema
  ids_eq : ∀ e ∈ schemas.entries, e.1 = e.2.id

namespace Registry

def empty : Registry := ⟨.empty, fun _ h => nomatch h⟩

def register (r : Registry) (s : Schema) : Registry where
  schemas := r.schemas.update s.id fun _ => s
  ids_eq e he := by
    rcases Entries.mem_update he with ⟨hk, _, hv⟩ | he
    · rw [hk, hv]
    · exact r.ids_eq e he

def get? (r : Registry) (id : String) : Option Schema :=
  r.schemas.get? id

/-- The identifiers in ascending order. -/
def ids (r : Registry) : List String :=
  r.schemas.keys

/-- A resource of the schemas with the given identifiers, in their order. -/
def resourceFor (r : Registry) (ids : List String) (location : String) : Except Error Resource := do
  let schemas ← ids.mapM fun id =>
    match r.get? id with
    | some s => .ok s
    | none => .error (.schemaNotFound id)
  Resource.bind schemas location

/-- The schemas in the files of a directory, in the order in which it lists them; files that do not
load are skipped. -/
def ofEntries (entries : List (String × Node)) : Registry :=
  (schemaFiles entries).foldl (fun r e =>
    match e.2.loadSchema with
    | .ok s => r.register s
    | .error _ => r) empty

def ofDirectory (n : Node) : Except Error Registry :=
  match n.list with
  | .ok entries => .ok (ofEntries entries)
  | .error fault => .error (.file fault)

end Registry

end Scim
