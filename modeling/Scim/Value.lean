import Scim.Binary64.Text
import Scim.Digest.Base64
import Scim.Json.Basic
import Scim.Time.DateTime

/-! # Values

The values that are given to attributes and read back from them. They are richer than JSON: date-times
and octets are values of their own. The entries of a map stand in ascending order of their keys
(`Value.Ascending`).
-/

set_option autoImplicit false

namespace Scim

inductive Value where
  | null
  | boolean (b : Bool)
  | integer (n : Int64)
  | decimal (x : Binary64)
  | text (s : String)
  | dateTime (t : Time.DateTime)
  | binary (bytes : List UInt8)
  | list (items : List Value)
  | map (entries : List (String × Value))
deriving Inhabited

namespace Value

/-- A map; of entries with one key the last stays. -/
def ofEntries (entries : List (String × Value)) : Value :=
  .map (Entries.ofList entries)

def isNull : Value → Bool
  | null => true
  | _ => false

/-- Null or an empty list. -/
def isBlank : Value → Bool
  | null => true
  | list items => items.isEmpty
  | _ => false

/-- What a message calls a value of this shape. -/
def kind : Value → String
  | null => "null"
  | boolean _ => "boolean"
  | integer _ => "integer"
  | decimal _ => "decimal"
  | text _ => "string"
  | dateTime _ => "dateTime"
  | binary _ => "binary"
  | list _ => "array"
  | map _ => "object"

/-! ## Shapes -/

def text? : Value → Option String
  | text s => some s
  | _ => none

def boolean? : Value → Option Bool
  | boolean b => some b
  | _ => none

def integer? : Value → Option Int64
  | integer n => some n
  | _ => none

def decimal? : Value → Option Binary64
  | decimal x => some x
  | _ => none

def dateTime? : Value → Option Time.DateTime
  | dateTime t => some t
  | _ => none

def list? : Value → Option (List Value)
  | list items => some items
  | _ => none

def map? : Value → Option (List (String × Value))
  | map entries => some entries
  | _ => none

/-! ## JSON -/

mutual

/-- Octets as Base64, date-times in the extended format, and decimals that are no numbers as null. -/
def toJson : Value → Json
  | null => .null
  | boolean b => .bool b
  | integer n => .integer n.toInt
  | decimal x => .ofBinary64 x
  | text s => .string s
  | dateTime t => .string (String.ofList t.text)
  | binary bytes => .string (String.ofList (Base64.encode bytes))
  | list items => .array (toJsonAll items)
  | map entries => .object (toJsonEntries entries)

def toJsonAll : List Value → List Json
  | [] => []
  | v :: rest => toJson v :: toJsonAll rest

def toJsonEntries : List (String × Value) → List (String × Json)
  | [] => []
  | (k, v) :: rest => (k, toJson v) :: toJsonEntries rest

end

mutual

/-- An integer that does not fit becomes the nearest decimal. -/
def ofJson : Json → Value
  | .null => null
  | .bool b => boolean b
  | .integer n =>
    if -0x8000000000000000 ≤ n && n < 0x8000000000000000 then integer (Int64.ofInt n)
    else decimal (.ofInt n)
  | .decimal x => decimal x.1
  | .string s => text s
  | .array items => list (ofJsonAll items)
  | .object members => map (ofJsonMembers members)

def ofJsonAll : List Json → List Value
  | [] => []
  | j :: rest => ofJson j :: ofJsonAll rest

def ofJsonMembers : List (String × Json) → List (String × Value)
  | [] => []
  | (k, j) :: rest => (k, ofJson j) :: ofJsonMembers rest

end

/-! ## Equality -/

mutual

/-- Equality as numbers and as instants: a decimal that is no number differs from itself, and the
offset of a date-time does not count. -/
def same : Value → Value → Bool
  | null, null => true
  | boolean a, boolean b => a == b
  | integer a, integer b => a == b
  | decimal a, decimal b => a.numEq b
  | text a, text b => a == b
  | dateTime a, dateTime b => a.instant == b.instant
  | binary a, binary b => a == b
  | list a, list b => sameAll a b
  | map a, map b => sameEntries a b
  | _, _ => false

def sameAll : List Value → List Value → Bool
  | [], [] => true
  | a :: as, b :: bs => same a b && sameAll as bs
  | _, _ => false

def sameEntries : List (String × Value) → List (String × Value) → Bool
  | [], [] => true
  | (j, a) :: as, (k, b) :: bs => j == k && same a b && sameEntries as bs
  | _, _ => false

end

mutual

/-- The entries of every map stand in ascending order. -/
def Ascending : Value → Prop
  | list items => AscendingAll items
  | map entries => Entries.Ascending entries ∧ AscendingEntries entries
  | _ => True

def AscendingAll : List Value → Prop
  | [] => True
  | v :: rest => Ascending v ∧ AscendingAll rest

def AscendingEntries : List (String × Value) → Prop
  | [] => True
  | (_, v) :: rest => Ascending v ∧ AscendingEntries rest

end

end Value

end Scim
