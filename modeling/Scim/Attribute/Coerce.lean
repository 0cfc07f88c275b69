import Scim.Json.Text
import Scim.Schema.Descriptor
import Scim.Text.Numeral
import Scim.Time.Grammar
import Scim.Value

/-! # Coercion

A value that is assigned to a simple attribute is turned into one of its datatype where that can be
done; otherwise it stays as it is, and validation tells what is wrong with it.
-/

set_option autoImplicit false

namespace Scim

namespace Value

def ofChars (s : List Char) : Value :=
  text (String.ofList s)

/-- Scalars as text. -/
def toText : Value → Value
  | integer n => ofChars (Json.integerText n.toInt)
  | decimal x => ofChars x.text
  | boolean b => text (if b then "true" else "false")
  | dateTime t => ofChars t.text
  | v => v

/-- The finite number that a text denotes, blanks at its ends apart. -/
def finite? (s : String) : Option Binary64 :=
  match Numeral.ofText? (Text.trim s.toList) with
  | some n => if n.nearest.isFinite then some n.nearest else none
  | none => none

/-- Integers widen, and text is read. -/
def toDecimal : Value → Value
  | integer n => decimal (.ofInt n.toInt)
  | text s =>
    match finite? s with
    | some x => decimal x
    | none => text s
  | v => v

/-- The integer that a text denotes, or the integer part of the number that it denotes. -/
def integerOfText? (s : String) : Option Int64 :=
  match Text.int64? (Text.trim s.toList) with
  | some n => some n
  | none => (finite? s).bind Binary64.toInt64?

/-- Decimals are cut off, and text is read. -/
def toInteger : Value → Value
  | decimal x =>
    match x.toInt64? with
    | some n => integer n
    | none => decimal x
  | text s =>
    match integerOfText? s with
    | some n => integer n
    | none => text s
  | v => v

def toDateTime : Value → Value
  | text s =>
    match Time.DateTime.ofText? s with
    | some t => dateTime t
    | none => text s
  | v => v

/-- Octets are kept as Base64 text. -/
def toBinary : Value → Value
  | binary bytes => ofChars (Base64.encode bytes)
  | v => v

end Value

/-- One value for a datatype. Booleans, references and complex values are taken as they are. -/
def DataType.coerce : DataType → Value → Value
  | string => Value.toText
  | decimal => Value.toDecimal
  | integer => Value.toInteger
  | dateTime => Value.toDateTime
  | binary => Value.toBinary
  | boolean => id
  | reference => id
  | complex => id

/-- The elements of a list are coerced one by one where several values may stand, and null is then
an empty list. -/
def Descriptor.coerce (d : Descriptor) (v : Value) : Value :=
  match d.multiValued, v with
  | true, .null => .list []
  | true, .list items => .list (items.map d.datatype.coerce)
  | _, v => d.datatype.coerce v

end Scim
