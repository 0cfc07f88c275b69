/-! # Binary floating point

Numbers in the binary64 format of IEEE 754, held as their bit pattern. A finite one denotes
± `significand` · 2 ^ `exponent`, and everything here is computed on that exact rational: a result
is rounded once, to the nearest number of the format and to an even significand on a tie
(`ofRatio`). Between two finite numbers of one sign the patterns stand in the order of the
numbers, so a significand that rounds up past its last bit carries into the exponent by itself.
-/

set_option autoImplicit false

namespace Scim

structure Binary64 where
  bits : UInt64
deriving DecidableEq, Inhabited

namespace Binary64

/-! ## Parts of a pattern -/

def isNegative (x : Binary64) : Bool :=
  1 <<< 63 ≤ x.bits.toNat

/-- The pattern without its sign. -/
def magnitude (x : Binary64) : Nat :=
  x.bits.toNat % (1 <<< 63)

/-- The magnitude of the infinities; that of a NaN is above it. -/
def infinity : Nat :=
  0x7FF <<< 52

def isFinite (x : Binary64) : Bool :=
  x.magnitude < infinity

def isNaN (x : Binary64) : Bool :=
  infinity < x.magnitude

def isZero (x : Binary64) : Bool :=
  x.magnitude == 0

def significand (x : Binary64) : Nat :=
  if x.magnitude < 1 <<< 52 then x.magnitude else 1 <<< 52 + x.magnitude % (1 <<< 52)

def exponent (x : Binary64) : Int :=
  if x.magnitude < 1 <<< 52 then -1074 else (x.magnitude >>> 52 : Nat) - 1075

def ofMagnitude (negative : Bool) (magnitude : Nat) : Binary64 :=
  ⟨UInt64.ofNat (magnitude + if negative then 1 <<< 63 else 0)⟩

/-- The size of a finite number as numerator and denominator. -/
def ratio (x : Binary64) : Nat × Nat :=
  if 0 ≤ x.exponent then (x.significand <<< x.exponent.toNat, 1)
  else (x.significand, 1 <<< (-x.exponent).toNat)

/-- Equality of numbers: a NaN equals nothing, and the two zeros are equal. -/
def numEq (x y : Binary64) : Bool :=
  !x.isNaN && !y.isNaN && (x == y || (x.isZero && y.isZero))

/-- The place of a number in the order of numbers, in which the two zeros stand at one place. -/
def rank (x : Binary64) : Int :=
  if x.isNegative then -(x.magnitude : Int) else x.magnitude

/-- A NaN is in no order with anything. -/
def numLe (x y : Binary64) : Bool :=
  !x.isNaN && !y.isNaN && x.rank ≤ y.rank

def numLt (x y : Binary64) : Bool :=
  !x.isNaN && !y.isNaN && x.rank < y.rank

/-! ## Rounding -/

/-- A quotient rounded to the nearest integer, to the even one on a tie. -/
def roundHalfEven (num den : Nat) : Nat :=
  let q := num / den
  let r := num % den
  if 2 * r < den || (2 * r == den && q % 2 == 0) then q else q + 1

/-- A quotient over a power of two. -/
def scaled (num den : Nat) (e : Int) : Nat × Nat :=
  if 0 ≤ e then (num, den <<< e.toNat) else (num <<< (-e).toNat, den)

/-- The exponent of the unit in the last place of a positive quotient. -/
def unitExponent (num den : Nat) : Int :=
  let e : Int := (num.log2 : Int) - den.log2
  let s := scaled num den e
  let floorLog := if s.2 ≤ s.1 then e else e - 1
  max (floorLog - 52) (-1074)

/-- The number of the format nearest to a quotient; too large a quotient becomes infinite. -/
def ofRatio (negative : Bool) (num den : Nat) : Binary64 :=
  if num = 0 then ofMagnitude negative 0
  else
    let e := unitExponent num den
    let s := scaled num den e
    ofMagnitude negative (min infinity ((e + 1074).toNat <<< 52 + roundHalfEven s.1 s.2))

def ofInt (n : Int) : Binary64 :=
  ofRatio (n < 0) n.natAbs 1

/-- Product of two finite numbers. -/
def mul (x y : Binary64) : Binary64 :=
  ofRatio (x.isNegative != y.isNegative) (x.ratio.1 * y.ratio.1) (x.ratio.2 * y.ratio.2)

/-- Quotient of two finite numbers, the second not zero. -/
def div (x y : Binary64) : Binary64 :=
  ofRatio (x.isNegative != y.isNegative) (x.ratio.1 * y.ratio.2) (x.ratio.2 * y.ratio.1)

def neg (x : Binary64) : Binary64 :=
  ofMagnitude (!x.isNegative) x.magnitude

/-! ## Other formats -/

/-- The integer part of a finite number. -/
def truncate (x : Binary64) : Int :=
  if x.isNegative then -((x.ratio.1 / x.ratio.2 : Nat) : Int) else (x.ratio.1 / x.ratio.2 : Nat)

/-- A finite number without its fraction: the bits of the significand below the point are cleared. -/
def wholePart (x : Binary64) : Binary64 :=
  let e := x.magnitude >>> 52
  if e < 1023 then ofMagnitude x.isNegative 0
  else if e < 1075 then ofMagnitude x.isNegative ((x.magnitude >>> (1075 - e)) <<< (1075 - e))
  else x

/-- The integer part, or the word nearest to it; a NaN gives zero. -/
def toInt64 (x : Binary64) : Int64 :=
  if x.isNaN then 0
  else Int64.ofInt (max (-0x8000000000000000) (min x.truncate 0x7FFFFFFFFFFFFFFF))

/-- 2 ^ 63, the least number above every signed word of 64 bits. The greatest of these words is no number
of the format. -/
def wordLimit : Binary64 :=
  ⟨0x43E0000000000000⟩

/-- The integer part, where a signed word of 64 bits holds it. -/
def toInt64? (x : Binary64) : Option Int64 :=
  let whole := x.wholePart
  if whole.isFinite && wordLimit.neg.numLe whole && whole.numLt wordLimit then some whole.toInt64
  else none

/-- Every number of the binary32 format is one of this format. -/
def ofBinary32 (bits : UInt32) : Binary64 :=
  let negative : Bool := 1 <<< 31 ≤ bits.toNat
  let m := bits.toNat % (1 <<< 31)
  if 0xFF <<< 23 < m then ofMagnitude negative (infinity + 1 <<< 51)
  else if m = 0xFF <<< 23 then ofMagnitude negative infinity
  else
    let significand := if m < 1 <<< 23 then m else 1 <<< 23 + m % (1 <<< 23)
    let e : Int := if m < 1 <<< 23 then -149 else (m >>> 23 : Nat) - 150
    let s := scaled significand 1 (-e)
    ofRatio negative s.1 s.2

end Binary64

/-- A number that is neither infinite nor a NaN. -/
abbrev FiniteBinary64 := { x : Binary64 // x.isFinite = true }

end Scim
