import Scim.Json.Skipped

/-! # Decoders

A decoder reads a value of one type either from the front of a text or from a document that has been
read before; both ways give the same value or the same mismatch. A text is read in one pass, so that
the first fault in it decides, and its arrays and objects nest in at most `maxLevels` levels.
-/

set_option autoImplicit false

namespace Scim

open Json

structure Decoder (α : Type) where
  fromText : Reader α
  fromJson : Json → Except Fault α

namespace Json

/-- The levels of arrays and objects that a text may have. -/
def maxLevels : Nat := 127

def mismatch {α : Type} (m : Mismatch) : Except Fault α :=
  .error (.mismatch m)

/-- What a document is, for a message. -/
def found : Json → Found
  | .null => .null
  | .bool b => .bool b
  | .integer n => .integer n
  | .decimal x => .decimal x.1
  | .string s => .string s
  | .array _ => .sequence
  | .object _ => .map

def wrongKind {α : Type} (expected : String) (j : Json) : Except Fault α :=
  mismatch (.wrongKind j.found expected)

/-- Refuses the value at the front of a text for its kind. Whether its text is right shows only as
far as the kind has to be told. -/
def refuse {α : Type} (expected : String) : Reader α
  | [] => .error .unfinished
  | c :: s =>
    let refuseAs (j : Json) : Except Fault (α × List Char) := wrongKind expected j
    if c = 'n' then do
      let _ ← readWord ['u', 'l', 'l'] s
      refuseAs .null
    else if c = 't' then do
      let _ ← readWord ['r', 'u', 'e'] s
      refuseAs (.bool true)
    else if c = 'f' then do
      let _ ← readWord ['a', 'l', 's', 'e'] s
      refuseAs (.bool false)
    else if c = '-' || c.isDigit then do
      let (j, _) ← readNumber (c :: s)
      refuseAs j
    else if c = '"' then do
      let (cs, _) ← readString s
      refuseAs (.string (String.ofList cs))
    else if c = '[' then refuseAs (.array [])
    else if c = '{' then refuseAs (.object [])
    else .error .malformed

end Json

namespace Decoder

variable {α β : Type}

def map (f : α → β) (d : Decoder α) : Decoder β where
  fromText s := do
    let (a, s) ← d.fromText s
    .ok (f a, s)
  fromJson j := do
    let a ← d.fromJson j
    .ok (f a)

/-- Turns what was read into something else, or finds that it does not fit. -/
def andThen (f : α → Except Mismatch β) (d : Decoder α) : Decoder β where
  fromText s := do
    let (a, s) ← d.fromText s
    match f a with
    | .ok b => .ok (b, s)
    | .error m => mismatch m
  fromJson j := do
    let a ← d.fromJson j
    match f a with
    | .ok b => .ok b
    | .error m => mismatch m

/-! ## Scalars -/

def string (expected : String) : Decoder String where
  fromText s :=
    match skipBlanks s with
    | '"' :: s => do
      let (cs, s) ← readString s
      .ok (String.ofList cs, s)
    | s => refuse expected s
  fromJson
    | .string s => .ok s
    | j => wrongKind expected j

def text : Decoder String :=
  string "a string"

def boolean : Decoder Bool where
  fromText s :=
    match skipBlanks s with
    | 't' :: s => do
      let s ← readWord ['r', 'u', 'e'] s
      .ok (true, s)
    | 'f' :: s => do
      let s ← readWord ['a', 'l', 's', 'e'] s
      .ok (false, s)
    | s => refuse "a boolean" s
  fromJson
    | .bool b => .ok b
    | j => wrongKind "a boolean" j

def nothing : Decoder Unit where
  fromText s :=
    match skipBlanks s with
    | 'n' :: s => do
      let s ← readWord ['u', 'l', 'l'] s
      .ok ((), s)
    | s => refuse "unit" s
  fromJson
    | .null => .ok ()
    | j => wrongKind "unit" j

/-- Null stands for no value. -/
def optional (d : Decoder α) : Decoder (Option α) where
  fromText s :=
    match skipBlanks s with
    | 'n' :: s => do
      let s ← readWord ['u', 'l', 'l'] s
      .ok (none, s)
    | s => (d.map some).fromText s
  fromJson
    | .null => .ok none
    | j => (d.map some).fromJson j

/-! ## Tokens -/

def ofToken (tokens : List (String × α)) (token : String) : Except Mismatch α :=
  match tokens.lookup token with
  | some a => .ok a
  | none => .error (.unknownToken token (tokens.map Prod.fst))

/-- One of several tokens, as a string or as the name of the one member, null, of an object. -/
def token (levels : Nat) (tokens : List (String × α)) : Decoder α where
  fromText s :=
    match skipBlanks s with
    | [] => .error .unfinished
    | '"' :: s => (text.andThen (ofToken tokens)).fromText ('"' :: s)
    | '{' :: s =>
      match levels with
      | 0 => .error .malformed
      | _ + 1 => do
        let s ← nameStart s
        let (name, s) ← readString s
        match ofToken tokens (String.ofList name) with
        | .error m => mismatch m
        | .ok a => do
          let s ← readColon s
          let (_, s) ← nothing.fromText s
          match skipBlanks s with
          | [] => .error .unfinished
          | c :: s => if c = '}' then .ok (a, s) else .error .malformed
    | _ => .error .malformed
  fromJson
    | .string s =>
      match ofToken tokens s with
      | .ok a => .ok a
      | .error m => mismatch m
    | .object [(s, j)] =>
      match ofToken tokens s with
      | .ok a => do
        let _ ← nothing.fromJson j
        .ok a
      | .error m => mismatch m
    | .object _ => mismatch .notSingle
    | j => wrongKind "string or map" j

/-! ## Lists -/

/-- The items after one, and the closing bracket. The number bounds the items. -/
def readItems (item : Reader α) : Nat → Reader (List α)
  | 0, _ => .error .unfinished
  | bound + 1, s =>
    match skipBlanks s with
    | [] => .error .unfinished
    | c :: s =>
      if c = ']' then .ok ([], s)
      else if c = ',' then
        match skipBlanks s with
        | [] => .error .unfinished
        | ']' :: _ => .error .malformed
        | s => do
          let (a, s) ← item s
          let (rest, s) ← readItems item bound s
          .ok (a :: rest, s)
      else .error .malformed

/-- An array behind its opening bracket; a comma stands before every item after the first. -/
def readArray (item : Reader α) (s : List Char) : Except Fault (List α × List Char) :=
  match skipBlanks s with
  | [] => .error .unfinished
  | ']' :: s => .ok ([], s)
  | s => do
    let (a, s) ← item s
    let (rest, s) ← readItems item (s.length + 1) s
    .ok (a :: rest, s)

def list (levels : Nat) (d : Decoder α) : Decoder (List α) where
  fromText s :=
    match skipBlanks s with
    | '[' :: s =>
      match levels with
      | 0 => .error .malformed
      | _ + 1 => readArray d.fromText s
    | s => refuse "a sequence" s
  fromJson
    | .array items => items.mapM d.fromJson
    | j => wrongKind "a sequence" j

/-! ## Members of objects -/

/-- The members after one, and the closing brace. A member is read behind its name, and what is
gathered goes from one to the next. -/
def readMembers {σ : Type} (member : String → σ → Reader σ) : Nat → σ → Reader σ
  | 0, _, _ => .error .unfinished
  | bound + 1, gathered, s =>
    match skipBlanks s with
    | [] => .error .unfinished
    | c :: s =>
      if c = '}' then .ok (gathered, s)
      else if c = ',' then do
        let s ← nameStart s
        let (name, s) ← readString s
        let (gathered, s) ← member (String.ofList name) gathered s
        readMembers member bound gathered s
      else .error .malformed

/-- An object behind its opening brace. -/
def readObject {σ : Type} (member : String → σ → Reader σ) (gathered : σ) : Reader σ := fun s =>
  match skipBlanks s with
  | '}' :: s => .ok (gathered, s)
  | s => do
    let s ← nameStart s
    let (name, s) ← readString s
    let (gathered, s) ← member (String.ofList name) gathered s
    readMembers member (s.length + 1) gathered s

/-! ## Whole texts -/

/-- Reads a text that holds one value and nothing else. -/
def decode (d : Decoder α) (text : String) : Except Fault α := do
  let (a, rest) ← d.fromText text.toList
  if (skipBlanks rest).isEmpty then .ok a else .error .malformed

end Decoder

end Scim
