import Scim.Schema.Descriptor
import Scim.Value

/-! # Attributes

An attribute binds a descriptor to what has been assigned to it. The content of a complex attribute is
a composite, which has one attribute for each declared sub-attribute, in order; that of a complex
attribute with several values is a list of them. A value that a complex attribute cannot take is kept
as it is, and so are elements that are no objects.
-/

set_option autoImplicit false

namespace Scim

mutual

inductive Attribute where
  /-- The report is that of the latest validation. -/
  | mk (descriptor : Descriptor) (content : Content) (report : Report)

inductive Content where
  | plain (value : Value)
  | object (composite : Composite)
  | items (items : List Item)

inductive Item where
  | object (composite : Composite)
  | other (value : Value)

inductive Composite where
  /-- The keys that no sub-attribute was found for are kept for validation. -/
  | mk (attributes : List Attribute) (undeclared : List String)

end

namespace Attribute

def descriptor : Attribute → Descriptor
  | mk d _ _ => d

def content : Attribute → Content
  | mk _ c _ => c

def report : Attribute → Report
  | mk _ _ r => r

def name (a : Attribute) : String :=
  a.descriptor.name

def withContent (a : Attribute) (content : Content) : Attribute :=
  mk a.descriptor content a.report

def withReport (a : Attribute) (report : Report) : Attribute :=
  mk a.descriptor a.content report

end Attribute

/-! ## Binding -/

/-- The content of an attribute to which nothing is assigned, given its sub-attributes. -/
def Content.initial (d : Descriptor) (attributes : List Attribute) : Content :=
  match d.isComplex, d.multiValued with
  | true, true => .items []
  | true, false => .object (.mk attributes [])
  | false, true => .plain (.list [])
  | false, false => .plain .null

mutual

/-- An attribute to which nothing is assigned. -/
def Attribute.bind (d : Descriptor) : Attribute :=
  match d with
  | ⟨_, _, _, _, _, _, _, _, _, _, _, subs⟩ => .mk d (.initial d (Attribute.bindAll subs)) .empty

def Attribute.bindAll : List Descriptor → List Attribute
  | [] => []
  | d :: rest => Attribute.bind d :: Attribute.bindAll rest

end

/-! ## Sub-attributes -/

/-- The place of a name: the first that is equal to it, or else the first that is equal up to letter
case. -/
def placeOf? (names : List String) (name : String) : Option Nat :=
  (names.findIdx? (· == name)).or (names.findIdx? (Text.sameName · name))

namespace Composite

def attributes : Composite → List Attribute
  | mk attributes _ => attributes

def undeclared : Composite → List String
  | mk _ undeclared => undeclared

/-- The sub-attributes of a descriptor, with nothing assigned to them. -/
def bind (d : Descriptor) : Composite :=
  mk (Attribute.bindAll d.subAttributes) []

def placeOf? (c : Composite) (name : String) : Option Nat :=
  Scim.placeOf? (c.attributes.map Attribute.name) name

def find? (c : Composite) (name : String) : Option Attribute :=
  match c.placeOf? name with
  | some i => c.attributes[i]?
  | none => none

def modify (c : Composite) (i : Nat) (f : Attribute → Attribute) : Composite :=
  mk (c.attributes.modify i f) c.undeclared

def addUndeclared (c : Composite) (key : String) : Composite :=
  mk c.attributes (c.undeclared ++ [key])

end Composite

/-- The content of an attribute to which nothing is assigned. -/
def Content.empty (d : Descriptor) : Content :=
  .initial d (Attribute.bindAll d.subAttributes)

/-- The sub-attribute of an attribute that holds an object. -/
def Attribute.child? (a : Attribute) (name : String) : Option Attribute :=
  match a.content with
  | .object c => c.find? name
  | _ => none

/-! ## Reading back -/

mutual

/-- Nothing assigned: null, an empty list, or an object of which all is blank. -/
def Attribute.isBlank : Attribute → Bool
  | .mk _ content _ => content.isBlank

def Content.isBlank : Content → Bool
  | .plain v => v.isBlank
  | .object c => c.isBlank
  | .items items => items.isEmpty

def Composite.isBlank : Composite → Bool
  | .mk attributes _ => Attribute.allBlank attributes

def Attribute.allBlank : List Attribute → Bool
  | [] => true
  | a :: rest => a.isBlank && Attribute.allBlank rest

end

mutual

/-- What is stored; an object reads back as a map of what is not null in it. -/
def Attribute.value : Attribute → Value
  | .mk _ content _ => content.value

def Content.value : Content → Value
  | .plain v => v
  | .object c => if c.isBlank then .null else c.value
  | .items items => .list (Item.values items)

def Composite.value : Composite → Value
  | .mk attributes _ => .ofEntries (Attribute.entries attributes)

def Item.values : List Item → List Value
  | [] => []
  | .object c :: rest => c.value :: Item.values rest
  | .other v :: rest => v :: Item.values rest

def Attribute.entries : List Attribute → List (String × Value)
  | [] => []
  | a :: rest =>
    let v := a.value
    if v.isNull then Attribute.entries rest else (a.name, v) :: Attribute.entries rest

end

end Scim
