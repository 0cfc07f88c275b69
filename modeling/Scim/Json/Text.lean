import Scim.Json.Basic
import Scim.Binary64.Text

/-! # JSON text

The compact text of a document: no blanks, and in a string nothing is escaped but the quotation
mark, the backslash and the characters below the space.
-/

set_option autoImplicit false

namespace Scim.Json

/-- One character of a string. -/
def escaped (c : Char) : List Char :=
  if c = '"' then ['\\', '"']
  else if c = '\\' then ['\\', '\\']
  else if c = '\x08' then ['\\', 'b']
  else if c = '\x0c' then ['\\', 'f']
  else if c = '\n' then ['\\', 'n']
  else if c = '\r' then ['\\', 'r']
  else if c = '\t' then ['\\', 't']
  else if c.toNat < 0x20 then
    ['\\', 'u', '0', '0', Nat.digitChar (c.toNat / 16), Nat.digitChar (c.toNat % 16)]
  else [c]

def stringText (s : String) : List Char :=
  '"' :: s.toList.flatMap escaped ++ ['"']

def integerText (n : Int) : List Char :=
  if n < 0 then '-' :: Nat.toDigits 10 n.natAbs else Nat.toDigits 10 n.toNat

mutual

def text : Json → List Char
  | .null => ['n', 'u', 'l', 'l']
  | .bool true => ['t', 'r', 'u', 'e']
  | .bool false => ['f', 'a', 'l', 's', 'e']
  | .integer n => integerText n
  | .decimal x => x.1.numeral .document
  | .string s => stringText s
  | .array [] => ['[', ']']
  | .array (j :: rest) => '[' :: text j ++ itemsText rest
  | .object [] => ['{', '}']
  | .object ((k, j) :: rest) => '{' :: stringText k ++ ':' :: text j ++ membersText rest

/-- The items after the first, and the closing bracket. -/
def itemsText : List Json → List Char
  | [] => [']']
  | j :: rest => ',' :: text j ++ itemsText rest

/-- The members after the first, and the closing brace. -/
def membersText : List (String × Json) → List Char
  | [] => ['}']
  | (k, j) :: rest => ',' :: stringText k ++ ':' :: text j ++ membersText rest

end

/-- The compact text as a string. -/
def compact (j : Json) : String :=
  String.ofList j.text

end Scim.Json
