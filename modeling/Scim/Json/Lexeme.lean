import Scim.Json.Basic
import Scim.Json.Fault

/-! # Lexemes of JSON

Readers of the parts of a document that hold no other parts. A reader takes what it reads from the
front of a text and returns the rest; a reader of a lexeme starts at its first character, or behind
it where that decided what to read.
-/

set_option autoImplicit false

namespace Scim.Json

/-- Takes a value from the front of a text. -/
abbrev Reader (α : Type) := List Char → Except Fault (α × List Char)

def isBlank (c : Char) : Bool :=
  c == ' ' || c == '\n' || c == '\t' || c == '\r'

def skipBlanks (s : List Char) : List Char :=
  s.dropWhile isBlank

/-- The characters of a word, one by one. -/
def readWord : List Char → List Char → Except Fault (List Char)
  | [], s => .ok s
  | _ :: _, [] => .error .unfinished
  | c :: word, d :: s => if c = d then readWord word s else .error .malformed

def readColon (s : List Char) : Except Fault (List Char) :=
  match skipBlanks s with
  | [] => .error .unfinished
  | c :: s => if c = ':' then .ok s else .error .malformed

/-! ## Strings -/

def hexDigit? (c : Char) : Option Nat :=
  if c.isDigit then some (c.toNat - '0'.toNat)
  else if 'a' ≤ c && c ≤ 'f' then some (c.toNat - 'a'.toNat + 10)
  else if 'A' ≤ c && c ≤ 'F' then some (c.toNat - 'A'.toNat + 10)
  else none

/-- A number of four hexadecimal digits. -/
def codeUnit? (a b c d : Char) : Option Nat := do
  let a ← hexDigit? a
  let b ← hexDigit? b
  let c ← hexDigit? c
  let d ← hexDigit? d
  some (((a * 16 + b) * 16 + c) * 16 + d)

/-- The character that a letter after a backslash stands for. -/
def escapeChar? (c : Char) : Option Char :=
  if c = '"' || c = '\\' || c = '/' then some c
  else if c = 'b' then some '\x08'
  else if c = 'f' then some '\x0c'
  else if c = 'n' then some '\n'
  else if c = 'r' then some '\r'
  else if c = 't' then some '\t'
  else none

/-- Where a code unit does not stand: four octets are wanted. -/
def codeUnitFault (s : List Char) : Fault :=
  if Time.octets s < 4 then .unfinished else .malformed

/-- Where the second half of a surrogate pair does not stand. -/
def pairFault : List Char → Fault
  | [] => .unfinished
  | ['\\'] => .unfinished
  | '\\' :: 'u' :: s => codeUnitFault s
  | _ => .malformed

/-- A string behind its opening quotation mark. Halves of surrogate pairs stand only in pairs. -/
def readString : Reader (List Char)
  | [] => .error .unfinished
  | c :: s =>
    if c = '"' then .ok ([], s)
    else if c = '\\' then
      match s with
      | [] => .error .unfinished
      | 'u' :: a :: b :: c :: d :: s =>
        match codeUnit? a b c d with
        | none => .error .malformed
        | some n =>
          if 0xDC00 ≤ n && n ≤ 0xDFFF then .error .malformed
          else if 0xD800 ≤ n && n ≤ 0xDBFF then
            match s with
            | '\\' :: 'u' :: a :: b :: c :: d :: s =>
              match codeUnit? a b c d with
              | none => .error .malformed
              | some m =>
                if 0xDC00 ≤ m && m ≤ 0xDFFF then
                  push (Char.ofNat ((n - 0xD800) * 0x400 + (m - 0xDC00) + 0x10000)) (readString s)
                else .error .malformed
            | s => .error (pairFault s)
          else push (Char.ofNat n) (readString s)
      | c :: s =>
        if c = 'u' then .error (codeUnitFault s)
        else
          match escapeChar? c with
          | some c => push c (readString s)
          | none => .error .malformed
    else if c.toNat < 0x20 then .error .malformed
    else push c (readString s)
where
  push (c : Char) (r : Except Fault (List Char × List Char)) :
      Except Fault (List Char × List Char) :=
    match r with
    | .ok (cs, s) => .ok (c :: cs, s)
    | .error e => .error e

/-- As `readString`, for a string whose characters are not wanted: code units are not looked at. -/
def skipString : List Char → Except Fault (List Char)
  | [] => .error .unfinished
  | c :: s =>
    if c = '"' then .ok s
    else if c = '\\' then
      match s with
      | [] => .error .unfinished
      | 'u' :: a :: b :: c :: d :: s =>
        match codeUnit? a b c d with
        | none => .error .malformed
        | some _ => skipString s
      | c :: s =>
        if c = 'u' then .error (codeUnitFault s)
        else if (escapeChar? c).isSome then skipString s
        else .error .malformed
    else if c.toNat < 0x20 then .error .malformed
    else skipString s

/-! ## Numbers -/

/-- A number as written. -/
structure NumberText where
  negative : Bool
  whole : List Char
  fraction : List Char
  exponent : Option Int

/-- A run of digits, not empty; `ending` is the fault where the text ends instead. -/
def readDigits (ending : Fault) (s : List Char) : Except Fault (List Char × List Char) :=
  match s with
  | [] => .error ending
  | c :: _ =>
    if c.isDigit then .ok (s.takeWhile Char.isDigit, s.dropWhile Char.isDigit)
    else .error .malformed

/-- Digits with no zero before others. -/
def readWhole (ending : Fault) (s : List Char) : Except Fault (List Char × List Char) := do
  let (digits, s) ← readDigits ending s
  match digits with
  | '0' :: _ :: _ => .error .malformed
  | digits => .ok (digits, s)

def readExponent (ending : Fault) (s : List Char) : Except Fault (Option Int × List Char) :=
  match s with
  | [] => .ok (none, s)
  | c :: t =>
    if c = 'e' || c = 'E' then do
      let (negative, t) := Text.takeSign t
      let (digits, t) ← readDigits ending t
      let n : Int := Text.digitsValue digits
      .ok (some (if negative then -n else n), t)
    else .ok (none, s)

/-- A number; `ending` is the fault where the text ends within it. -/
def readNumberText (ending : Fault) (s : List Char) : Except Fault (NumberText × List Char) := do
  let (negative, s) := match s with
    | '-' :: s => (true, s)
    | s => (false, s)
  let (whole, s) ← readWhole ending s
  let (fraction, s) ← match s with
    | '.' :: s => readDigits ending s
    | s => .ok ([], s)
  let (exponent, s) ← readExponent ending s
  .ok (⟨negative, whole, fraction, exponent⟩, s)

/-! ## Values of numbers

Digits are gathered in a word of 64 bits, and a digit that does not fit any more only moves the
point. What is gathered is then scaled by a power of ten, which is itself rounded, so a number is
rounded up to three times.
-/

structure Gathered where
  significand : Nat
  exponent : Int
  full : Bool

def Gathered.fits (g : Gathered) (digit : Nat) : Bool :=
  !g.full && g.significand * 10 + digit < 0x10000000000000000

def Gathered.addWhole (g : Gathered) (c : Char) : Gathered :=
  let digit := c.toNat - '0'.toNat
  if g.fits digit then { g with significand := g.significand * 10 + digit }
  else { g with exponent := g.exponent + 1, full := true }

def Gathered.addFraction (g : Gathered) (c : Char) : Gathered :=
  let digit := c.toNat - '0'.toNat
  if g.fits digit then
    { g with significand := g.significand * 10 + digit, exponent := g.exponent - 1 }
  else { g with full := true }

/-- The greatest power of ten of the format has this exponent. -/
def greatestPower : Nat := 308

def powerOfTen (n : Nat) : Binary64 :=
  .ofRatio false (Nat.pow 10 n) 1

/-- Divides by a power of ten, in steps of the greatest one while the number is not zero. Three
steps make zero of every word. -/
def scaleDown : Nat → Binary64 → Nat → Binary64
  | 0, x, _ => x
  | steps + 1, x, e =>
    if e ≤ greatestPower then x.div (powerOfTen e)
    else if x.isZero then x
    else scaleDown steps (x.div (powerOfTen greatestPower)) (e - greatestPower)

/-- The size of a number that is not an integer; it may be infinite. -/
def Gathered.scale (g : Gathered) (e : Int) : Binary64 :=
  let x : Binary64 := .ofRatio false g.significand 1
  let e := g.exponent + e
  if e < 0 then scaleDown 4 x e.natAbs
  else if e ≤ greatestPower then x.mul (powerOfTen e.toNat)
  else if x.isZero then x
  else .ofMagnitude false Binary64.infinity

/-- A number without fraction and exponent is an integer if 64 bits hold it, unsigned or signed;
a negative zero is not. -/
def NumberText.value (n : NumberText) : Except Fault Json :=
  let whole := n.whole.foldl Gathered.addWhole ⟨0, 0, false⟩
  let isInteger := n.fraction.isEmpty && n.exponent.isNone && !whole.full &&
    (!n.negative || (0 < whole.significand && whole.significand ≤ 0x8000000000000000))
  if isInteger then
    .ok (.integer (if n.negative then -(whole.significand : Int) else whole.significand))
  else
    let all := n.fraction.foldl Gathered.addFraction { whole with full := false }
    let x := all.scale (n.exponent.getD 0)
    let x := if n.negative then x.neg else x
    if h : x.isFinite = true then .ok (.decimal ⟨x, h⟩) else .error .malformed

def readNumber : Reader Json := fun s => do
  let (n, s) ← readNumberText .unfinished s
  let j ← n.value
  .ok (j, s)

end Scim.Json
