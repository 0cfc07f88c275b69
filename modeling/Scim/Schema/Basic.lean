import Scim.Schema.Descriptor

/-! # Schemas

A schema names the attributes of a kind of resource, in order.
-/

set_option autoImplicit false

namespace Scim

structure Schema where
  id : String
  name : String
  description : String
  location : String
  attributes : List Descriptor
deriving DecidableEq, Inhabited

namespace Schema

/-! ## Well-known schemas -/

def error : String := "urn:ietf:params:scim:api:messages:2.0:Error"

def group : String := "urn:ietf:params:scim:schemas:core:2.0:Group"

def resourceType : String := "urn:ietf:params:scim:schemas:core:2.0:ResourceType"

def serviceProviderConfig : String :=
  "urn:ietf:params:scim:schemas:core:2.0:ServiceProviderConfig"

def user : String := "urn:ietf:params:scim:schemas:core:2.0:User"

/-! ## Content -/

def new (id name location : String) : Schema :=
  ⟨id, name, "", location, []⟩

def add (s : Schema) (d : Descriptor) : Schema :=
  { s with attributes := s.attributes ++ [d] }

/-- The first attribute with a name, in any letter case. -/
def attribute? (s : Schema) (name : String) : Option Descriptor :=
  s.attributes.find? fun d => Text.sameName d.name name

/-- The first flaw decides: of the schema before its attributes. -/
def check (s : Schema) : Except Flaw Unit :=
  if Text.isBlank s.id then .error .blankId
  else if Text.isBlank s.name then .error (.blankTitle s.id)
  else Descriptor.checkAll s.attributes

end Schema

end Scim
