import Scim.Time.Calendar

/-! # Points in time

An instant is a second of the time line with a part of it in nanoseconds; in a leap second, which
is counted with the second before it, that part is a whole second or more. A date-time is an instant
seen at an offset from UTC.
-/

set_option autoImplicit false

namespace Scim.Time

/-- The seconds of the years −262143 to 262142. -/
def inRange (seconds : Int) : Bool :=
  -8334601228800 ≤ seconds && seconds ≤ 8210266876799

/-- A part of a second, or one past the last second of a minute. -/
def isPart (seconds : Int) (nanos : Nat) : Bool :=
  nanos < 1000000000 || (nanos < 2000000000 && seconds % 60 == 59)

structure Instant where
  seconds : Int
  nanos : Nat
  seconds_inRange : inRange seconds = true
  nanos_isPart : isPart seconds nanos = true
deriving DecidableEq

def Instant.ofParts? (seconds : Int) (nanos : Nat) : Option Instant :=
  if h : inRange seconds = true ∧ isPart seconds nanos = true then
    some ⟨seconds, nanos, h.1, h.2⟩
  else none

structure DateTime where
  instant : Instant
  /-- Seconds east of UTC, less than a day. -/
  offset : Int
  offset_inRange : -86400 < offset ∧ offset < 86400
deriving DecidableEq

namespace DateTime

def ofParts? (seconds : Int) (nanos : Nat) (offset : Int) : Option DateTime :=
  match Instant.ofParts? seconds nanos with
  | some instant =>
    if h : -86400 < offset ∧ offset < 86400 then some ⟨instant, offset, h⟩ else none
  | none => none

def utc (instant : Instant) : DateTime :=
  ⟨instant, 0, by decide⟩

/-! ## Text -/

/-- A number with zeros up to a width. -/
def padded (width n : Nat) : List Char :=
  let digits := Nat.toDigits 10 n
  List.replicate (width - digits.length) '0' ++ digits

/-- Years outside 0 to 9999 have a sign. -/
def yearText (year : Int) : List Char :=
  if 0 ≤ year && year ≤ 9999 then padded 4 year.toNat
  else (if year < 0 then '-' else '+') :: padded 4 year.natAbs

def dateText (d : Date) : List Char :=
  yearText d.year ++ '-' :: padded 2 d.month ++ '-' :: padded 2 d.day

/-- Three, six or nine places, as many as the nanoseconds need, or none. -/
def fractionText (nanos : Nat) : List Char :=
  if nanos = 0 then []
  else if nanos % 1000000 = 0 then '.' :: padded 3 (nanos / 1000000)
  else if nanos % 1000 = 0 then '.' :: padded 6 (nanos / 1000)
  else '.' :: padded 9 nanos

/-- Hours and minutes, to the nearest minute. -/
def offsetText (offset : Int) : List Char :=
  let minutes := (offset.natAbs + 30) / 60
  (if offset < 0 then '-' else '+') :: padded 2 (minutes / 60) ++ ':' :: padded 2 (minutes % 60)

/-- The extended format of ISO 8601 with a numeric offset. A leap second is second 60. -/
def text (t : DateTime) : List Char :=
  let seconds := t.instant.seconds + t.offset
  let ofDay := (seconds % 86400).toNat
  let leap := t.instant.nanos / 1000000000
  dateText (Date.ofDays (seconds / 86400)) ++ 'T' :: padded 2 (ofDay / 3600) ++
    ':' :: padded 2 (ofDay / 60 % 60) ++ ':' :: padded 2 (ofDay % 60 + leap) ++
    fractionText (t.instant.nanos % 1000000000) ++ offsetText t.offset

end DateTime

end Scim.Time
