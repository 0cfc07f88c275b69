import Scim.Binary64.Basic

/-! # Numerals in text

A decimal numeral is an optional sign, digits with an optional fraction, and an optional exponent;
at least one digit stands before or after the point. It denotes a rational number, which `nearest`
rounds once.
-/

set_option autoImplicit false

namespace Scim

namespace Text

/-- The number that digits denote, the highest first. -/
def digitsValue (digits : List Char) : Nat :=
  digits.foldl (fun n c => 10 * n + (c.toNat - '0'.toNat)) 0

/-- An optional sign; `true` for a minus. -/
def takeSign : List Char → Bool × List Char
  | '-' :: rest => (true, rest)
  | '+' :: rest => (false, rest)
  | s => (false, s)

/-- The integer that a text of digits with an optional sign denotes. -/
def integer? (s : List Char) : Option Int :=
  let (negative, digits) := takeSign s
  if digits.isEmpty || !digits.all Char.isDigit then none
  else some (if negative then -(digitsValue digits : Int) else digitsValue digits)

/-- An integer that a signed word of 64 bits holds. -/
def int64? (s : List Char) : Option Int64 :=
  match integer? s with
  | some n =>
    if -0x8000000000000000 ≤ n && n < 0x8000000000000000 then some (Int64.ofInt n) else none
  | none => none

end Text

/-- A number ± `digits` · 10 ^ `exponent`. -/
structure Numeral where
  negative : Bool
  digits : Nat
  exponent : Int
deriving DecidableEq

namespace Numeral

/-- The exponent, if any, at the end of a numeral. -/
def exponent? : List Char → Option Int
  | [] => some 0
  | c :: rest => if c = 'e' || c = 'E' then Text.integer? rest else none

def ofText? (s : List Char) : Option Numeral := do
  let (negative, s) := Text.takeSign s
  let whole := s.takeWhile Char.isDigit
  let s := s.dropWhile Char.isDigit
  let (fraction, s) : List Char × List Char := match s with
    | '.' :: rest => (rest.takeWhile Char.isDigit, rest.dropWhile Char.isDigit)
    | s => ([], s)
  if whole.isEmpty && fraction.isEmpty then none
  else
    let e ← exponent? s
    some ⟨negative, Text.digitsValue (whole ++ fraction), e - fraction.length⟩

/-- The nearest binary floating point number. Far beyond the range of the format the power of ten
need not be computed. -/
def nearest (n : Numeral) : Binary64 :=
  let size : Int := (Nat.toDigits 10 n.digits).length + n.exponent
  if n.digits = 0 || size < -400 then .ofMagnitude n.negative 0
  else if 400 < size then .ofMagnitude n.negative Binary64.infinity
  else if 0 ≤ n.exponent then .ofRatio n.negative (n.digits * Nat.pow 10 n.exponent.toNat) 1
  else .ofRatio n.negative n.digits (Nat.pow 10 (-n.exponent).toNat)

end Numeral

end Scim
