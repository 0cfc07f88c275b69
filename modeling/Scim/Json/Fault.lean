import Scim.Binary64.Text
import Scim.Text.Quoted
import Scim.Time.Grammar

/-! # Faults of documents

Why a text is not the document that is expected: the text is malformed or it ends too early, or it
is well formed so far but what it holds does not fit.
-/

set_option autoImplicit false

namespace Scim.Json

/-- What stands where something else is expected. -/
inductive Found where
  | null
  | bool (b : Bool)
  | integer (n : Int)
  | decimal (x : Binary64)
  | string (s : String)
  | sequence
  | map

def Found.message : Found → String
  | .null => "null"
  | .bool b => s!"boolean `{b}`"
  | .integer n => s!"integer `{n}`"
  | .decimal x => s!"floating point `{String.ofList (x.numeral .document)}`"
  | .string s => s!"string {Text.quoted s}"
  | .sequence => "sequence"
  | .map => "map"

inductive Mismatch where
  | wrongKind (found : Found) (expected : String)
  | unknownToken (token : String) (expected : List String)
  | missingField (key : String)
  | duplicateField (key : String)
  | wrongLength (length : Nat) (expected : String)
  | notSingle
  | badTime (fault : Time.Fault)

/-- The tokens that may stand in a place. -/
def alternatives (tokens : List String) : String :=
  let quotes := tokens.map fun t => s!"`{t}`"
  match quotes with
  | [a] => a
  | [a, b] => s!"{a} or {b}"
  | _ => "one of " ++ ", ".intercalate quotes

def Mismatch.message : Mismatch → String
  | .wrongKind found expected => s!"invalid type: {found.message}, expected {expected}"
  | .unknownToken token expected =>
    s!"unknown variant `{token}`, expected {alternatives expected}"
  | .missingField key => s!"missing field `{key}`"
  | .duplicateField key => s!"duplicate field `{key}`"
  | .wrongLength length expected => s!"invalid length {length}, expected {expected}"
  | .notSingle => "invalid value: map, expected map with a single key"
  | .badTime fault => fault.message

inductive Fault where
  | malformed
  | unfinished
  | mismatch (cause : Mismatch)

end Scim.Json
