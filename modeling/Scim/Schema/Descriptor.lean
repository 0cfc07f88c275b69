import Scim.Error
import Scim.Schema.Characteristic
import Scim.Text.Blank
import Scim.Text.Case

/-! # Descriptors

The declaration of an attribute: its name, its characteristics and, for a complex one, its
sub-attributes in order. Descriptors hold no values.
-/

set_option autoImplicit false

namespace Scim

structure Descriptor where
  name : String
  datatype : DataType
  multiValued : Bool
  required : Bool
  caseExact : Bool
  description : String
  canonicalValues : Option (List String)
  mutability : Mutability
  returned : Returned
  uniqueness : Uniqueness
  referenceTypes : Option (List String)
  subAttributes : List Descriptor
deriving Inhabited

namespace Descriptor

/-- Everything but the name and the datatype at its default. -/
def new (name : String) (datatype : DataType) : Descriptor where
  name
  datatype
  multiValued := false
  required := false
  caseExact := false
  description := ""
  canonicalValues := none
  mutability := default
  returned := default
  uniqueness := default
  referenceTypes := none
  subAttributes := []

def ofToken (name token : String) : Except Error Descriptor :=
  match DataType.ofToken? token with
  | some datatype => .ok (new name datatype)
  | none => .error (.invalidDatatype token)

def isComplex (d : Descriptor) : Bool :=
  d.datatype == .complex

/-- The first sub-attribute with a name, in any letter case. -/
def sub? (d : Descriptor) (name : String) : Option Descriptor :=
  d.subAttributes.find? fun sub => Text.sameName sub.name name

/-! ## Changes -/

def setMutability (d : Descriptor) (token : String) : Except Error Descriptor :=
  match Mutability.ofToken? token with
  | some mutability => .ok { d with mutability }
  | none => .error (.invalidToken "mutability" token)

def setReturned (d : Descriptor) (token : String) : Except Error Descriptor :=
  match Returned.ofToken? token with
  | some returned => .ok { d with returned }
  | none => .error (.invalidToken "returned" token)

def setUniqueness (d : Descriptor) (token : String) : Except Error Descriptor :=
  match Uniqueness.ofToken? token with
  | some uniqueness => .ok { d with uniqueness }
  | none => .error (.invalidToken "uniqueness" token)

/-- Only references have reference types, so the datatype becomes that of a reference. -/
def setReferenceTypes (d : Descriptor) (types : List String) : Descriptor :=
  { d with datatype := .reference, referenceTypes := some types }

/-- Only complex attributes have sub-attributes, so the datatype becomes complex. -/
def addSub (d sub : Descriptor) : Descriptor :=
  { d with datatype := .complex, subAttributes := d.subAttributes ++ [sub] }

/-! ## Equality -/

mutual

def decEq : (a b : Descriptor) → Decidable (a = b)
  | ⟨n, d, m, r, c, t, v, u, w, q, f, s⟩, ⟨n', d', m', r', c', t', v', u', w', q', f', s'⟩ =>
    if h : n = n' ∧ d = d' ∧ m = m' ∧ r = r' ∧ c = c' ∧ t = t' ∧ v = v' ∧ u = u' ∧ w = w' ∧
        q = q' ∧ f = f' then
      match decEqAll s s' with
      | isTrue hs => isTrue (by simp [h, hs])
      | isFalse hs => isFalse (by simp [hs])
    else isFalse (by simpa using fun a b c d e f g i j k l => absurd ⟨a, b, c, d, e, f, g, i, j, k, l⟩ h)

def decEqAll : (a b : List Descriptor) → Decidable (a = b)
  | [], [] => isTrue rfl
  | [], _ :: _ => isFalse (by simp)
  | _ :: _, [] => isFalse (by simp)
  | a :: as, b :: bs =>
    match decEq a b with
    | isTrue h =>
      match decEqAll as bs with
      | isTrue hs => isTrue (by rw [h, hs])
      | isFalse hs => isFalse (by simp [hs])
    | isFalse h => isFalse (by simp [h])

end

instance : DecidableEq Descriptor := decEq

end Descriptor

/-! ## Structure -/

/-- What is wrong with a schema or with a descriptor in it. -/
inductive Flaw where
  | blankId
  | blankTitle (id : String)
  | blankName
  | subAttributes (name : String) (datatype : DataType)
  | referenceTypes (name : String) (datatype : DataType)
deriving DecidableEq

def Flaw.message : Flaw → String
  | blankId => "schema id cannot be empty"
  | blankTitle id => s!"schema '{id}' has an empty name"
  | blankName => "attribute name cannot be empty"
  | subAttributes name datatype =>
    s!"attribute '{name}' of type {datatype.token} cannot have sub-attributes"
  | referenceTypes name datatype =>
    s!"attribute '{name}' of type {datatype.token} cannot declare reference types"

def Flaw.toError (f : Flaw) : Error :=
  .invalidSchema f.message

namespace Descriptor

mutual

/-- The first flaw decides: of the descriptor before its sub-attributes, and of these in order. -/
def check : Descriptor → Except Flaw Unit
  | ⟨name, datatype, _, _, _, _, _, _, _, _, types, subs⟩ =>
    if Text.isBlank name then .error .blankName
    else if !subs.isEmpty && datatype != .complex then .error (.subAttributes name datatype)
    else if types.isSome && datatype != .reference then .error (.referenceTypes name datatype)
    else checkAll subs

def checkAll : List Descriptor → Except Flaw Unit
  | [] => .ok ()
  | d :: rest =>
    match check d with
    | .ok () => checkAll rest
    | .error f => .error f

end

end Descriptor

end Scim
