import Scim.Attribute.Check
import Scim.Schema.Characteristic

/-! # Rendering

What an attribute shows in a mode. A hidden attribute shows nothing, and in an object nothing shows
that is null.
-/

set_option autoImplicit false

namespace Scim

namespace Attribute

/-- What is never returned is hidden; a server does not show what clients only write, and a client
does not show what it only reads, nor what it could write but has not. -/
def isVisible (mode : Mode) (a : Attribute) : Bool :=
  a.descriptor.returned != .never &&
    match mode, a.descriptor.mutability with
    | .server, .writeOnly => false
    | .client, .readOnly => false
    | .client, .writeOnly => !a.isBlank
    | _, _ => true

end Attribute

/-- A value of a datatype: truth values may be kept as text, and decimals as integers. -/
def DataType.renderScalar (datatype : DataType) (v : Value) : Json :=
  match datatype, v with
  | .boolean, .text s =>
    match boolean? s with
    | some b => .bool b
    | none => .string s
  | .decimal, .integer n => .ofBinary64 (.ofInt n.toInt)
  | _, v => v.toJson

def Descriptor.renderValue (d : Descriptor) (v : Value) : Json :=
  match v with
  | .null => if d.multiValued then .array [] else .null
  | .list items => .array (items.map d.datatype.renderScalar)
  | v => d.datatype.renderScalar v

mutual

/-- The rendered value, if the attribute is visible. -/
def Attribute.render (mode : Mode) : Attribute → Option Json
  | .mk d content report =>
    if (Attribute.mk d content report).isVisible mode then some (Content.render mode d content)
    else none

def Content.render (mode : Mode) (d : Descriptor) : Content → Json
  | .plain v => d.renderValue v
  | .object c => Composite.render mode c
  | .items items => .array (Item.renderAll mode items)

def Composite.render (mode : Mode) : Composite → Json
  | .mk attributes _ => .map (Attribute.members mode attributes)

def Item.renderAll (mode : Mode) : List Item → List Json
  | [] => []
  | .object c :: rest => Composite.render mode c :: Item.renderAll mode rest
  | .other v :: rest => v.toJson :: Item.renderAll mode rest

/-- The visible attributes that are not null, under their names. -/
def Attribute.members (mode : Mode) : List Attribute → List (String × Json)
  | [] => []
  | a :: rest =>
    match Attribute.render mode a with
    | some j => if j.isNull then Attribute.members mode rest
      else (a.name, j) :: Attribute.members mode rest
    | none => Attribute.members mode rest

end

/-- An object with the attribute under its name, or without it where it is hidden. -/
def Attribute.toJson (mode : Mode) (a : Attribute) : Json :=
  .object ((a.render mode).map fun j => (a.name, j)).toList

end Scim
