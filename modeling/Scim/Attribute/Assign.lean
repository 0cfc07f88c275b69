import Scim.Attribute.Basic
import Scim.Attribute.Coerce

/-! # Assignment

Assignment never fails. The members of an object go to the sub-attributes of their names, in the
order of the keys; each replaces what an earlier one put there. `visit` works on a sub-attribute in
its place, and makes an object of what is stored on the way.
-/

set_option autoImplicit false

namespace Scim

/-- The content for a value that is not taken apart. -/
def Content.ofWhole (coerced : Bool) (d : Descriptor) (v : Value) : Content :=
  if d.isComplex then if v.isNull then .empty d else .plain v
  else .plain (if coerced then d.coerce v else v)

mutual

/-- What an attribute stores when a value is assigned to it. -/
def Content.ofValue (coerced : Bool) (d : Descriptor) : Value → Content
  | .map entries =>
    if d.isComplex && !d.multiValued then .object (Composite.route coerced (.bind d) entries)
    else .ofWhole coerced d (.map entries)
  | .list items =>
    if d.isComplex && d.multiValued then .items (Item.ofValues coerced d items)
    else .ofWhole coerced d (.list items)
  | v => .ofWhole coerced d v

/-- The elements of a list for a complex attribute with several values. -/
def Item.ofValues (coerced : Bool) (d : Descriptor) : List Value → List Item
  | [] => []
  | .map entries :: rest =>
    .object (Composite.route coerced (.bind d) entries) :: Item.ofValues coerced d rest
  | v :: rest => .other v :: Item.ofValues coerced d rest

/-- Members of an object, each to the sub-attribute of its name. -/
def Composite.route (coerced : Bool) (c : Composite) : List (String × Value) → Composite
  | [] => c
  | (key, v) :: rest =>
    match c.placeOf? key with
    | some i =>
      Composite.route coerced
        (c.modify i fun a => a.withContent (Content.ofValue coerced a.descriptor v)) rest
    | none => Composite.route coerced (c.addUndeclared key) rest

end

namespace Attribute

def store (coerced : Bool) (v : Value) (a : Attribute) : Attribute :=
  a.withContent (.ofValue coerced a.descriptor v)

/-- Assigns a value, coercing it to the datatype. -/
def assign (v : Value) (a : Attribute) : Attribute :=
  a.store true v

/-- Assigns a value as it is; objects are taken apart all the same. -/
def assignUncoerced (v : Value) (a : Attribute) : Attribute :=
  a.store false v

/-- The object that a complex attribute with one value holds, or a new one in place of a value that
is none. -/
def opened (a : Attribute) : Composite :=
  match a.content with
  | .object c => c
  | _ => .bind a.descriptor

/-- Works on the attribute at the end of a path of names. There is no such attribute where a name is
not declared, or on the way lies an attribute that has no object. -/
def visit {α : Type} (f : Attribute → α × Attribute) : List String → Attribute → Option α × Attribute
  | [], a =>
    let (result, a) := f a
    (some result, a)
  | name :: path, a =>
    if a.descriptor.isComplex && !a.descriptor.multiValued then
      let c := a.opened
      match c.find? name, c.placeOf? name with
      | some child, some i =>
        let (result, child) := visit f path child
        (result, a.withContent (.object (c.modify i fun _ => child)))
      | _, _ => (none, a.withContent (.object c))
    else (none, a)

end Attribute

end Scim
