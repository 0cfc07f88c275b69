import Scim.Attribute.Basic

/-! # Validation

The problems of an attribute: a required one that is blank, values that do not fit the descriptor,
the problems of its sub-attributes under their own names, and the keys that are not declared.
-/

set_option autoImplicit false

namespace Scim

/-- The truth value that a text denotes, in any letter case. -/
def boolean? (s : String) : Option Bool :=
  if Text.sameName s "true" then some true
  else if Text.sameName s "false" then some false
  else none

/-- A datatype of which a text is no value, but may be the written form of one. -/
def DataType.isFormatted : DataType → Bool
  | boolean => true
  | decimal => true
  | integer => true
  | dateTime => true
  | binary => true
  | string => false
  | reference => false
  | complex => false

namespace Descriptor

/-- A text for a string or a reference. -/
def checkCanonical (d : Descriptor) (s : String) : Option Problem :=
  match d.canonicalValues with
  | some allowed => if allowed.contains s then none else some (.notCanonical s allowed)
  | none => none

/-- A value of another shape than the datatype has. -/
def checkOther (d : Descriptor) (v : Value) : Option Problem :=
  match v with
  | .text s =>
    if d.datatype.isFormatted then some (.wrongFormat d.datatype.token s)
    else some (.wrongType d.datatype.token v.kind)
  | .list _ =>
    if d.multiValued then some (.wrongType d.datatype.token v.kind) else some .singleExpected
  | v => some (.wrongType d.datatype.token v.kind)

/-- One value, or one element of a list. -/
def checkScalar (d : Descriptor) (v : Value) : Option Problem :=
  match d.datatype, v with
  | _, .null => none
  | .string, .text s => d.checkCanonical s
  | .reference, .text s => d.checkCanonical s
  | .boolean, .boolean _ => none
  | .boolean, .text s => if (boolean? s).isSome then none else d.checkOther (.text s)
  | .decimal, .decimal _ => none
  | .decimal, .integer _ => none
  | .integer, .integer _ => none
  | .dateTime, .dateTime _ => none
  | .binary, .binary _ => none
  | .binary, .text s =>
    if (Base64.decode? s.toList).isSome then none else d.checkOther (.text s)
  | .complex, .map _ => none
  | _, v => d.checkOther v

def report (d : Descriptor) (problem : Option Problem) (r : Report) : Report :=
  match problem with
  | some p => r.add d.name p
  | none => r

/-- A value that is kept as a whole. -/
def checkValue (d : Descriptor) (v : Value) (r : Report) : Report :=
  match v with
  | .null => r
  | .list items =>
    if d.multiValued then items.foldl (fun r v => d.report (d.checkScalar v) r) r
    else r.add d.name .singleExpected
  | v => d.report (d.checkScalar v) (if d.multiValued then r.add d.name .multipleExpected else r)

end Descriptor

mutual

/-- The problems of what is stored. -/
def Attribute.check : Attribute → Report
  | .mk d content _ =>
    content.check d (if d.required && content.isBlank then Report.empty.add d.name .required
      else .empty)

def Content.check (d : Descriptor) (r : Report) : Content → Report
  | .plain v => d.checkValue v r
  | .object c => c.check r
  | .items items => Item.checkAll d r items

def Composite.check (r : Report) : Composite → Report
  | .mk attributes undeclared =>
    undeclared.foldl (fun r key => r.add key .undeclared) (Attribute.checkAll r attributes)

def Attribute.checkAll (r : Report) : List Attribute → Report
  | [] => r
  | a :: rest => Attribute.checkAll (r.merge a.check) rest

def Item.checkAll (d : Descriptor) (r : Report) : List Item → Report
  | [] => r
  | .object c :: rest => Item.checkAll d (c.check r) rest
  | .other v :: rest => Item.checkAll d (d.report (d.checkScalar v) r) rest

end

namespace Attribute

/-- Keeps the problems that are found. -/
def validate (a : Attribute) : Attribute :=
  a.withReport a.check

def isValid (a : Attribute) : Bool :=
  a.check.isEmpty

end Attribute

end Scim
