import Scim.Json.Decoder

/-! # Any document

Reads a text into a document, with the members of its objects in ascending order; of members with
one name the last stays.
-/

set_option autoImplicit false

namespace Scim.Json

/-- A value with at most the given number of levels. -/
def readValue : Nat → Reader Json
  | levels, s =>
    match skipBlanks s with
    | [] => .error .unfinished
    | c :: s =>
      if c = 'n' then do
        let s ← readWord ['u', 'l', 'l'] s
        .ok (.null, s)
      else if c = 't' then do
        let s ← readWord ['r', 'u', 'e'] s
        .ok (.bool true, s)
      else if c = 'f' then do
        let s ← readWord ['a', 'l', 's', 'e'] s
        .ok (.bool false, s)
      else if c = '-' || c.isDigit then readNumber (c :: s)
      else if c = '"' then do
        let (cs, s) ← readString s
        .ok (.string (String.ofList cs), s)
      else
        match levels with
        | 0 => .error .malformed
        | levels + 1 =>
          if c = '[' then do
            let (items, s) ← Decoder.readArray (readValue levels) s
            .ok (.array items, s)
          else if c = '{' then do
            let member name (members : List (String × Json)) : Reader (List (String × Json)) :=
              fun s => do
                let s ← readColon s
                let (j, s) ← readValue levels s
                .ok (Entries.insert name j members, s)
            let (members, s) ← Decoder.readObject member [] s
            .ok (.object members, s)
          else .error .malformed

def ofText (text : String) : Except Fault Json := do
  let (j, rest) ← readValue maxLevels text.toList
  if (skipBlanks rest).isEmpty then .ok j else .error .malformed

end Scim.Json
