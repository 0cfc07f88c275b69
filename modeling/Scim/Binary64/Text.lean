import Scim.Binary64.Shortest

/-! # Numerals

How a binary floating point number is written: its shortest decimal in positional notation, or with
an exponent where the style has one. `plain` is the numeral of a text value, `document` that of a
JSON document.
-/

set_option autoImplicit false

namespace Scim

/-- The decisions of a numeral format. A number d.ddd · 10 ^ e is written positionally when e is in
the range, which is all of them when there is none. -/
structure NumeralStyle where
  tie : TieRule
  positional : Option (Int × Int)

namespace NumeralStyle

/-- Always positional, a half goes up. -/
def plain : NumeralStyle := ⟨.up, none⟩

/-- Positional below 10 ^ 16 and from 10 ^ -5 on, a half goes to the even digit. -/
def document : NumeralStyle := ⟨.toEven, some (-5, 15)⟩

def isPositional (style : NumeralStyle) (e : Int) : Bool :=
  match style.positional with
  | none => true
  | some (least, most) => least ≤ e && e ≤ most

end NumeralStyle

namespace Decimal

def digitChars (d : Decimal) : List Char :=
  Nat.toDigits 10 d.digits

/-- The exponent of the leading digit. -/
def leading (d : Decimal) : Int :=
  d.digitChars.length + d.exponent - 1

/-- Digits on both sides of the point, with zeros where the digits do not reach. -/
def positional (d : Decimal) : List Char :=
  let ds := d.digitChars
  if 0 ≤ d.exponent then ds ++ List.replicate d.exponent.toNat '0' ++ ['.', '0']
  else
    let places := (-d.exponent).toNat
    let ds := List.replicate (places + 1 - ds.length) '0' ++ ds
    ds.take (ds.length - places) ++ '.' :: ds.drop (ds.length - places)

/-- One digit before the point, and an exponent that always has a sign. -/
def scientific (d : Decimal) : List Char :=
  let point : List Char → List Char
    | [] => []
    | [c] => [c]
    | c :: rest => c :: '.' :: rest
  let e := d.leading
  point d.digitChars ++ 'e' :: (if e < 0 then '-' else '+') :: Nat.toDigits 10 e.natAbs

end Decimal

/-- The numeral of a finite number; zero has a sign too. -/
def Binary64.numeral (style : NumeralStyle) (x : Binary64) : List Char :=
  let d : Decimal := if x.isZero then ⟨0, 0⟩ else x.shortest style.tie
  let digits := if style.isPositional d.leading then d.positional else d.scientific
  if x.isNegative then '-' :: digits else digits

/-- The text of a number as a value: a point always stands in it, so that it cannot be taken for an
integer. -/
def Binary64.text (x : Binary64) : List Char :=
  if x.isFinite then x.numeral .plain
  else if x.isNaN then ['N', 'a', 'N']
  else if x.isNegative then ['-', 'i', 'n', 'f']
  else ['i', 'n', 'f']

end Scim
