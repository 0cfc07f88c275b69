import Scim.Json.Decoder

/-! # Records

A record is read from an object, whose unknown members are passed over, or from an array of its
fields in their order. Fields that are not required keep their defaults when they are missing.
-/

set_option autoImplicit false

namespace Scim

open Json

/-- One field of a record of type `ρ`. -/
structure Field (ρ : Type) where
  key : String
  required : Bool
  fromText : ρ → Reader ρ
  fromJson : ρ → Json → Except Fault ρ

/-- A field whose values have a decoder, and how such a value is put into the record. -/
def Field.of {ρ α : Type} (key : String) (required : Bool) (d : Decoder α) (put : ρ → α → ρ) :
    Field ρ where
  key
  required
  fromText r s := do
    let (a, s) ← d.fromText s
    .ok (put r a, s)
  fromJson r j := do
    let a ← d.fromJson j
    .ok (put r a)

structure Record (ρ : Type) where
  /-- What a message calls it. -/
  title : String
  fields : List (Field ρ)
  defaults : ρ

namespace Record

variable {ρ : Type}

/-- A record on the way: what has been read of it, and from which fields. -/
structure Partial (ρ : Type) where
  value : ρ
  seen : List String

def Partial.has (p : Partial ρ) (key : String) : Bool :=
  p.seen.contains key

def start (r : Record ρ) : Partial ρ :=
  ⟨r.defaults, []⟩

def field? (r : Record ρ) (key : String) : Option (Field ρ) :=
  r.fields.find? fun f => f.key == key

/-- The first required field that has not been read decides. -/
def finish (r : Record ρ) (p : Partial ρ) : Except Fault ρ :=
  match r.fields.find? fun f => f.required && !p.has f.key with
  | some f => mismatch (.missingField f.key)
  | none => .ok p.value

def wrongLength {α : Type} (r : Record ρ) (length : Nat) : Except Fault α :=
  mismatch (.wrongLength length s!"{r.title} with {r.fields.length} elements")

/-! ## Text -/

/-- A member behind its name. That a field stands twice shows before its value is read. -/
def readMember (r : Record ρ) (key : String) (p : Partial ρ) : Reader (Partial ρ) := fun s =>
  match r.field? key with
  | none => do
    let s ← readColon s
    let s ← skipValue s
    .ok (p, s)
  | some f =>
    if p.has key then mismatch (.duplicateField key)
    else do
      let s ← readColon s
      let (value, s) ← f.fromText p.value s
      .ok (⟨value, key :: p.seen⟩, s)

/-- The fields of an array from a position on, and its closing bracket. -/
def readPositions (r : Record ρ) : List (Field ρ) → Nat → ρ → Reader ρ
  | [], _, value, s =>
    match skipBlanks s with
    | [] => .error .unfinished
    | c :: s => if c = ']' then .ok (value, s) else .error .malformed
  | f :: fields, position, value, s =>
    match skipBlanks s with
    | [] => .error .unfinished
    | ']' :: s =>
      if f.required then r.wrongLength position
      else readPositions r fields (position + 1) value (']' :: s)
    | c :: s =>
      if position = 0 then do
        let (value, s) ← f.fromText value (c :: s)
        readPositions r fields 1 value s
      else if c = ',' then
        match skipBlanks s with
        | [] => .error .unfinished
        | ']' :: _ => .error .malformed
        | s => do
          let (value, s) ← f.fromText value s
          readPositions r fields (position + 1) value s
      else .error .malformed

/-! ## Documents -/

def memberFromJson (r : Record ρ) (p : Partial ρ) (member : String × Json) :
    Except Fault (Partial ρ) :=
  match r.field? member.1 with
  | none => .ok p
  | some f =>
    if p.has member.1 then mismatch (.duplicateField member.1)
    else do
      let value ← f.fromJson p.value member.2
      .ok ⟨value, member.1 :: p.seen⟩

def positionsFromJson (r : Record ρ) : List (Field ρ) → Nat → ρ → List Json → Except Fault ρ
  | [], _, value, [] => .ok value
  | [], position, _, rest =>
    mismatch (.wrongLength (position + rest.length) "fewer elements in array")
  | f :: fields, position, value, [] =>
    if f.required then r.wrongLength position
    else positionsFromJson r fields (position + 1) value []
  | f :: fields, position, value, j :: rest => do
    let value ← f.fromJson value j
    positionsFromJson r fields (position + 1) value rest

/-! ## Decoder -/

def decoder (r : Record ρ) (levels : Nat) : Decoder ρ where
  fromText s :=
    match skipBlanks s with
    | '{' :: s =>
      match levels with
      | 0 => .error .malformed
      | _ + 1 => do
        let (p, s) ← Decoder.readObject r.readMember r.start s
        let value ← r.finish p
        .ok (value, s)
    | '[' :: s =>
      match levels with
      | 0 => .error .malformed
      | _ + 1 => r.readPositions r.fields 0 r.defaults s
    | s => refuse r.title s
  fromJson
    | .object members => do
      let p ← members.foldlM r.memberFromJson r.start
      r.finish p
    | .array items => r.positionsFromJson r.fields 0 r.defaults items
    | j => wrongKind r.title j

end Record

end Scim
