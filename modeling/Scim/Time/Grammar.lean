import Scim.Text.Blank
import Scim.Text.Numeral
import Scim.Time.DateTime

/-! # Forms of date-time text

A form is a list of items, read one after the other from the text; what an item reads is kept in a
`Reading`, and the first item that does not find what it expects decides the fault. `instantForm`
is the form of the timestamps in documents. A value of an attribute may have any of the forms of
`valueForms`, of which the first that fits counts.
-/

set_option autoImplicit false

namespace Scim.Time

/-- Why a text is no date-time. -/
inductive Fault where
  | outOfRange
  | impossible
  | unexpected
  | tooShort
  | trailing
deriving DecidableEq

def Fault.message : Fault → String
  | .outOfRange => "input is out of range"
  | .impossible => "no possible date and time matching input"
  | .unexpected => "input contains invalid characters"
  | .tooShort => "premature end of input"
  | .trailing => "trailing input"

/-! ## What is read -/

inductive Part where
  | year
  | month
  | day
  | hour
  | minute
  | second
deriving DecidableEq

structure Reading where
  year : Int
  month : Nat
  day : Nat
  hour : Nat
  minute : Nat
  second : Nat
  nanos : Nat
  offset : Int

def Reading.empty : Reading := ⟨0, 1, 1, 0, 0, 0, 0, 0⟩

/-- Keeps a number as a part, if the part can have it. -/
def Reading.keep (r : Reading) (part : Part) (n : Int) : Except Fault Reading :=
  let within (low high : Int) (r : Reading) : Except Fault Reading :=
    if low ≤ n && n ≤ high then .ok r else .error .outOfRange
  match part with
  | .year => within (-0x80000000) 0x7FFFFFFF { r with year := n }
  | .month => within 1 12 { r with month := n.toNat }
  | .day => within 1 31 { r with day := n.toNat }
  | .hour => within 0 23 { r with hour := n.toNat }
  | .minute => within 0 59 { r with minute := n.toNat }
  | .second => within 0 60 { r with second := n.toNat }

/-- The date-time that was read: the day has to exist, and its instant has to be in range. Second 60
is a leap second. -/
def Reading.resolve (r : Reading) : Except Fault DateTime :=
  let date : Date := ⟨r.year, r.month, r.day⟩
  if !date.isValid || r.year < -262143 || 262142 < r.year then .error .outOfRange
  else if r.offset ≤ -86400 || 86400 ≤ r.offset then .error .outOfRange
  else
    let leap := r.second == 60
    let seconds := date.toDays * 86400 +
      (r.hour * 3600 + r.minute * 60 + (if leap then 59 else r.second) : Nat) - r.offset
    match DateTime.ofParts? seconds (if leap then r.nanos + 1000000000 else r.nanos) r.offset with
    | some t => .ok t
    | none => .error .impossible

/-! ## Numbers -/

/-- Octets of a text in UTF-8. -/
def octets (s : List Char) : Nat :=
  s.foldr (fun c n => c.utf8Size + n) 0

/-- A run of digits, at least and at most as many as given. -/
def readNumber (least most : Nat) (s : List Char) : Except Fault (Nat × List Char) :=
  let digits := (s.take most).takeWhile Char.isDigit
  if octets (s.take least) < least then .error .tooShort
  else if digits.length < least then .error .unexpected
  else .ok (Text.digitsValue digits, s.drop digits.length)

/-- The digits of a fraction; those after the ninth do not count. -/
def readFraction (s : List Char) : Except Fault (Nat × List Char) := do
  let (n, rest) ← readNumber 1 9 s
  let places := s.length - rest.length
  .ok (n * Nat.pow 10 (9 - places), rest.dropWhile Char.isDigit)

/-- A number of up to four digits for a year, of any length after a sign. -/
def readYear : List Char → Except Fault (Int × List Char)
  | '-' :: rest => do
    let (n, rest) ← readNumber 1 rest.length rest
    .ok (-(n : Int), rest)
  | '+' :: rest => do
    let (n, rest) ← readNumber 1 rest.length rest
    .ok (n, rest)
  | s => do
    let (n, rest) ← readNumber 1 4 s
    .ok (n, rest)

/-! ## Offsets -/

/-- How an offset may be written. -/
inductive OffsetStyle where
  /-- `Z`, or hours and minutes with one colon between them, up to 23:59. -/
  | strict
  /-- Hours and minutes with any colons and blanks between them, after blanks. -/
  | numeric
  /-- As `numeric`, or `Z`, or `UTC` in any letter case. -/
  | named
deriving DecidableEq

/-- Two digits, the first at most the given one; digits above are out of range. -/
def readTwo (top : Char) (s : List Char) : Except Fault (Nat × List Char) :=
  match s with
  | a :: b :: rest =>
    if a.isDigit && b.isDigit then
      if a ≤ top then .ok (Text.digitsValue [a, b], rest) else .error .outOfRange
    else .error .unexpected
  | s => if octets s < 2 then .error .tooShort else .error .unexpected

def readSign : List Char → Except Fault (Bool × List Char)
  | [] => .error .tooShort
  | c :: rest =>
    if c = '+' then .ok (false, rest)
    else if c = '-' || c = '−' then .ok (true, rest)
    else .error .unexpected

/-- What stands between the hours and the minutes of an offset. -/
def readColon (style : OffsetStyle) (s : List Char) : Except Fault (List Char) :=
  match style, s with
  | .strict, ':' :: rest => .ok rest
  | .strict, [] => .error .tooShort
  | .strict, _ => .error .unexpected
  | _, s => .ok (s.dropWhile fun c => c == ':' || Text.isSpace c)

def readSignedOffset (style : OffsetStyle) (s : List Char) : Except Fault (Int × List Char) := do
  let (negative, s) ← readSign s
  let (hours, s) ← readTwo '9' s
  let s ← readColon style s
  let (minutes, s) ← readTwo '5' s
  let seconds : Int := (hours * 3600 + minutes * 60 : Nat)
  .ok (if negative then -seconds else seconds, s)

def readOffset (style : OffsetStyle) (s : List Char) : Except Fault (Int × List Char) :=
  let zulu (s : List Char) : Except Fault (Int × List Char) :=
    match s with
    | 'Z' :: rest => .ok (0, rest)
    | 'z' :: rest => .ok (0, rest)
    | s => readSignedOffset style s
  match style with
  | .numeric => readSignedOffset style (Text.trimStart s)
  | .named =>
    let s := Text.trimStart s
    if (s.take 3).map Char.toLower = ['u', 't', 'c'] then .ok (0, s.drop 3) else zulu s
  | .strict => do
    let (offset, s) ← zulu s
    if -86340 ≤ offset && offset ≤ 86340 then .ok (offset, s) else .error .outOfRange

/-! ## Items -/

inductive Item where
  /-- A part with a fixed number of digits. -/
  | fixed (part : Part) (width : Nat)
  /-- A part with one or two digits, or a year, after blanks. -/
  | free (part : Part)
  | mark (c : Char)
  /-- What may divide the date from the time. -/
  | divider
  | blanks
  /-- An optional fraction of a second. -/
  | fraction
  | offset (style : OffsetStyle)

def Item.read (item : Item) (r : Reading) (s : List Char) : Except Fault (Reading × List Char) :=
  match item with
  | .fixed part width => do
    let (n, s) ← readNumber width width s
    let r ← r.keep part n
    .ok (r, s)
  | .free .year => do
    let (n, s) ← readYear (Text.trimStart s)
    let r ← r.keep .year n
    .ok (r, s)
  | .free part => do
    let (n, s) ← readNumber 1 2 (Text.trimStart s)
    let r ← r.keep part n
    .ok (r, s)
  | .mark c =>
    match s with
    | [] => .error .tooShort
    | d :: s => if d = c then .ok (r, s) else .error .unexpected
  | .divider =>
    match s with
    | [] => .error .tooShort
    | c :: s => if c = 'T' || c = 't' || c = ' ' then .ok (r, s) else .error .unexpected
  | .blanks => .ok (r, Text.trimStart s)
  | .fraction =>
    match s with
    | '.' :: s => do
      let (nanos, s) ← readFraction s
      .ok ({ r with nanos }, s)
    | s => .ok (r, s)
  | .offset style => do
    let (seconds, s) ← readOffset style s
    .ok ({ r with offset := seconds }, s)

/-- Reads a whole text in a form. -/
def readForm (form : List Item) (s : List Char) : Except Fault DateTime := do
  let (r, rest) ← form.foldlM (fun (r, s) item => item.read r s) (Reading.empty, s)
  if rest.isEmpty then r.resolve else .error .trailing

/-! ## Forms -/

def freeDate : List Item :=
  [.free .year, .mark '-', .free .month, .mark '-', .free .day]

def freeTime : List Item :=
  [.free .hour, .mark ':', .free .minute, .mark ':', .free .second, .fraction]

/-- The profile of ISO 8601 for the internet: every part with its fixed width, and an offset. -/
def internetForm : List Item :=
  [.fixed .year 4, .mark '-', .fixed .month 2, .mark '-', .fixed .day 2, .divider,
    .fixed .hour 2, .mark ':', .fixed .minute 2, .mark ':', .fixed .second 2, .fraction,
    .offset .strict]

/-- Date and time with an offset, or at UTC without one, or a date at midnight. -/
def valueForms : List (List Item) :=
  [internetForm,
    freeDate ++ .mark 'T' :: freeTime ++ [.offset .numeric],
    freeDate ++ .blanks :: freeTime ++ [.blanks, .offset .numeric],
    freeDate ++ .mark 'T' :: freeTime,
    freeDate]

/-- The internet profile with parts of any width, and blanks between them. -/
def instantForm : List Item :=
  [.free .year, .blanks, .mark '-', .free .month, .blanks, .mark '-', .free .day, .divider,
    .free .hour, .blanks, .mark ':', .free .minute, .blanks, .mark ':', .free .second, .fraction,
    .blanks, .offset .named, .blanks]

/-- The date-time that a text denotes, in the first form that fits. -/
def DateTime.ofText? (text : String) : Option DateTime :=
  let s := Text.trim text.toList
  valueForms.findSome? fun form => (readForm form s).toOption

/-- The instant of a timestamp. -/
def Instant.ofText (text : String) : Except Fault Instant := do
  let t ← readForm instantForm text.toList
  .ok t.instant

end Scim.Time
