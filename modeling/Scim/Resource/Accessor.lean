import Scim.Attribute.Basic

/-! # Accessors

The names under which the attributes of a resource are found. An attribute has its declared name and
the snake-case form of it; the sub-attributes of a complex attribute with one value have both forms of
the path, joined by a dot and by an underscore. Where two attributes have a name in common, the one
that is bound first keeps it.
-/

set_option autoImplicit false

namespace Scim

/-- An attribute by its position, or one of its sub-attributes. -/
structure Accessor where
  position : Nat
  child : Option String
deriving DecidableEq

namespace Accessor

/-- The names after the attribute's own on the way to what is addressed. -/
def path (a : Accessor) : List String :=
  a.child.toList

/-- A declared path and its snake-case form. -/
def forms (segments : List String) : List String :=
  [Text.lower (".".intercalate segments), "_".intercalate (segments.map Text.snake)]

/-- Everything that is found through the attribute at a position. -/
def ofDescriptor (position : Nat) (d : Descriptor) : List (String × Accessor) :=
  let own := (forms [d.name]).map fun key => (key, ⟨position, none⟩)
  let composed (sub : Descriptor) :=
    (forms [d.name, sub.name]).map fun key => (key, ⟨position, some sub.name⟩)
  if d.isComplex && !d.multiValued then own ++ d.subAttributes.flatMap composed else own

/-- A name that is taken stays with what has it. -/
def register (table : Table Accessor) (entry : String × Accessor) : Table Accessor :=
  table.update entry.1 fun old => old.getD entry.2

/-- The accessors of bound attributes. -/
def table (descriptors : List Descriptor) : Table Accessor :=
  (descriptors.zipIdx.flatMap fun (d, i) => ofDescriptor i d).foldl register .empty

end Accessor

/-- The declarations that are bound: of those with one name, in any letter case, the first. -/
def Descriptor.firsts (declared : List Descriptor) : List Descriptor :=
  declared.foldl (fun bound d =>
    if bound.any fun b => Text.sameName b.name d.name then bound else bound ++ [d]) []

end Scim
