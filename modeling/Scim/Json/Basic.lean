import Scim.Binary64.Basic
import Scim.Table

/-! # JSON documents

A document as a tree. The members of an object stand in the order in which they are written; an
object that is a map has them in ascending order of their names (`Json.map`).
-/

set_option autoImplicit false

namespace Scim

inductive Json where
  | null
  | bool (b : Bool)
  | integer (n : Int)
  | decimal (x : FiniteBinary64)
  | string (s : String)
  | array (items : List Json)
  | object (members : List (String × Json))
deriving Inhabited

namespace Json

/-- An object that is a map; of members with one name the last stays. -/
def map (members : List (String × Json)) : Json :=
  .object (Entries.ofList members)

/-- A number that JSON cannot write is null. -/
def ofBinary64 (x : Binary64) : Json :=
  if h : x.isFinite = true then .decimal ⟨x, h⟩ else .null

def isNull : Json → Bool
  | .null => true
  | _ => false

mutual

/-- Levels of arrays and objects. -/
def depth : Json → Nat
  | .array items => depthItems items + 1
  | .object members => depthMembers members + 1
  | _ => 0

def depthItems : List Json → Nat
  | [] => 0
  | j :: rest => max (depth j) (depthItems rest)

def depthMembers : List (String × Json) → Nat
  | [] => 0
  | (_, j) :: rest => max (depth j) (depthMembers rest)

end

end Json

end Scim
