import Scim.Json.Lexeme

/-! # Values that are not wanted

The value of a member that nobody asks for is passed over by its grammar: it may nest to any depth,
its numbers may have any size, and its strings any code units.
-/

set_option autoImplicit false

namespace Scim.Json

/-- A string behind its quotation mark and the colon after it. -/
def skipName (s : List Char) : Except Fault (List Char) := do
  let s ← skipString s
  readColon s

/-- Where the name of a member is wanted. -/
def nameStart (s : List Char) : Except Fault (List Char) :=
  match skipBlanks s with
  | [] => .error .unfinished
  | c :: s => if c = '"' then .ok s else .error .malformed

mutual

/-- Passes over a value. The number bounds the steps. -/
def skipFrom : Nat → List Char → Except Fault (List Char)
  | 0, _ => .error .unfinished
  | steps + 1, s =>
    match skipBlanks s with
    | [] => .error .unfinished
    | c :: s =>
      if c = 'n' then readWord ['u', 'l', 'l'] s
      else if c = 't' then readWord ['r', 'u', 'e'] s
      else if c = 'f' then readWord ['a', 'l', 's', 'e'] s
      else if c = '"' then skipString s
      else if c = '-' || c.isDigit then do
        let (_, s) ← readNumberText .malformed (c :: s)
        .ok s
      else if c = '[' then
        match skipBlanks s with
        | [] => .error .unfinished
        | ']' :: s => .ok s
        | s => do
          let s ← skipFrom steps s
          skipItems steps s
      else if c = '{' then
        match skipBlanks s with
        | '}' :: s => .ok s
        | s => do
          let s ← nameStart s
          let s ← skipName s
          let s ← skipFrom steps s
          skipMembers steps s
      else .error .malformed

/-- Passes over the items after one, and the closing bracket. -/
def skipItems : Nat → List Char → Except Fault (List Char)
  | 0, _ => .error .unfinished
  | steps + 1, s =>
    match skipBlanks s with
    | [] => .error .unfinished
    | c :: s =>
      if c = ']' then .ok s
      else if c = ',' then do
        let s ← skipFrom steps s
        skipItems steps s
      else .error .malformed

/-- Passes over the members after one, and the closing brace. -/
def skipMembers : Nat → List Char → Except Fault (List Char)
  | 0, _ => .error .unfinished
  | steps + 1, s =>
    match skipBlanks s with
    | [] => .error .unfinished
    | c :: s =>
      if c = '}' then .ok s
      else if c = ',' then do
        let s ← nameStart s
        let s ← skipName s
        let s ← skipFrom steps s
        skipMembers steps s
      else .error .malformed

end

/-- Passes over a value: each of two steps takes a character. -/
def skipValue (s : List Char) : Except Fault (List Char) :=
  skipFrom (2 * s.length + 2) s

end Scim.Json
