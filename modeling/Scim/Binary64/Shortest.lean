import Scim.Binary64.Basic

/-! # Shortest decimals

The decimal with the fewest digits among those that round to a given number. The decimals that do
fill an interval around the number, which holds its ends when the significand is even; the grids of
the powers of ten are tried from the coarsest down, and the first one with a point in the interval
gives the digits. At most the two neighbours of the number on that grid qualify, the nearer one
is taken, and a tie is left to a rule.
-/

set_option autoImplicit false

namespace Scim

/-- A number `digits` · 10 ^ `exponent`. -/
structure Decimal where
  digits : Nat
  exponent : Int
deriving DecidableEq, Inhabited

/-- Which of two neighbours stands for a number halfway between them. -/
inductive TieRule where
  | toEven
  | up
deriving DecidableEq

namespace Binary64

/-- A number as multiples of a quarter of its last place, with the interval of what rounds to it. -/
structure Interval where
  low : Nat
  value : Nat
  high : Nat
  closed : Bool
  /-- A quarter of the last place, as numerator and denominator. -/
  quarter : Nat × Nat

/-- Below a power of two the neighbours stand at half the distance. -/
def interval (x : Binary64) : Interval where
  low := 4 * x.significand -
    if x.significand = 1 <<< 52 && -1074 < x.exponent then 1 else 2
  value := 4 * x.significand
  high := 4 * x.significand + 2
  closed := x.significand % 2 == 0
  quarter := scaled 1 1 (2 - x.exponent)

/-- The point `d` · 10 ^ `k` lies in the interval; `a` and `b` are the quarter and the grid's step
over one denominator. -/
def Interval.holds (i : Interval) (a b d : Nat) : Bool :=
  0 < d && if i.closed then i.low * a ≤ d * b && d * b ≤ i.high * a
    else i.low * a < d * b && d * b < i.high * a

/-- The point of the grid of 10 ^ `k` that stands for the number, if one is in the interval. -/
def Interval.onGrid (i : Interval) (tie : TieRule) (k : Int) : Option Nat :=
  let step : Nat × Nat := if 0 ≤ k then (Nat.pow 10 k.toNat, 1) else (1, Nat.pow 10 (-k).toNat)
  let a := i.quarter.1 * step.2
  let b := step.1 * i.quarter.2
  let d := i.value * a / b
  let r := i.value * a % b
  match i.holds a b d, i.holds a b (d + 1) with
  | false, false => none
  | true, false => some d
  | false, true => some (d + 1)
  | true, true =>
    if 2 * r < b then some d
    else if b < 2 * r then some (d + 1)
    else match tie with
      | .toEven => some (if d % 2 = 0 then d else d + 1)
      | .up => some (d + 1)

/-- Tries a number of grids, each ten times finer than the one before. -/
def Interval.search (i : Interval) (tie : TieRule) : Nat → Int → Decimal
  | 0, k => ⟨0, k⟩
  | n + 1, k =>
    match i.onGrid tie k with
    | some d => ⟨d, k⟩
    | none => i.search tie n (k - 1)

/-- A power of ten above a positive number. -/
def decimalBound (x : Binary64) : Int :=
  let r := x.ratio
  if r.2 ≤ r.1 then ((Nat.toDigits 10 (r.1 / r.2)).length : Int)
  else 2 - (Nat.toDigits 10 (r.2 / r.1)).length

/-- Seventeen digits always suffice, so that the grids tried include one with a point. -/
def shortest (tie : TieRule) (x : Binary64) : Decimal :=
  x.interval.search tie 24 (x.decimalBound + 1)

end Binary64

end Scim
