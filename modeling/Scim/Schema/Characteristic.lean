/-! # Characteristics of attributes

The closed sets of characteristics that a descriptor declares (RFC 7643, section 2.2 and 7), each
with its tokens. A token is read exactly as it is written; the enumerations of a descriptor can be
set with a few more spellings than documents may use.
-/

set_option autoImplicit false

namespace Scim

/-! ## Datatypes -/

inductive DataType where
  | string
  | boolean
  | decimal
  | integer
  | dateTime
  | binary
  | reference
  | complex
deriving DecidableEq, Inhabited

namespace DataType

def token : DataType → String
  | string => "string"
  | boolean => "boolean"
  | decimal => "decimal"
  | integer => "integer"
  | dateTime => "dateTime"
  | binary => "binary"
  | reference => "reference"
  | complex => "complex"

/-- The tokens of documents; one datatype has two. -/
def tokens : List (String × DataType) :=
  [("string", string), ("boolean", boolean), ("decimal", decimal), ("integer", integer),
    ("dateTime", dateTime), ("datetime", dateTime), ("binary", binary), ("reference", reference),
    ("complex", complex)]

def ofToken? (token : String) : Option DataType :=
  tokens.lookup token

theorem lookup_token (d : DataType) : ofToken? d.token = some d := by
  cases d <;> decide

end DataType

/-! ## Mutability -/

inductive Mutability where
  | readOnly
  | readWrite
  | immutable
  | writeOnly
deriving DecidableEq

namespace Mutability

instance : Inhabited Mutability := ⟨readWrite⟩

def token : Mutability → String
  | readOnly => "readOnly"
  | readWrite => "readWrite"
  | immutable => "immutable"
  | writeOnly => "writeOnly"

def tokens : List (String × Mutability) :=
  [("readOnly", readOnly), ("readWrite", readWrite), ("immutable", immutable),
    ("writeOnly", writeOnly)]

/-- The spellings with an underscore are no tokens of documents. -/
def ofToken? (token : String) : Option Mutability :=
  (tokens ++ [("read_only", readOnly), ("read_write", readWrite),
    ("write_only", writeOnly)]).lookup token

end Mutability

/-! ## Returned -/

inductive Returned where
  | always
  | never
  | default
  | request
deriving DecidableEq

namespace Returned

instance : Inhabited Returned := ⟨.default⟩

def token : Returned → String
  | always => "always"
  | never => "never"
  | .default => "default"
  | request => "request"

def tokens : List (String × Returned) :=
  [("always", always), ("never", never), ("default", .default), ("request", request)]

def ofToken? (token : String) : Option Returned :=
  tokens.lookup token

theorem lookup_token (r : Returned) : ofToken? r.token = some r := by
  cases r <;> decide

end Returned

/-! ## Uniqueness -/

inductive Uniqueness where
  | none
  | server
  | global
deriving DecidableEq, Inhabited

namespace Uniqueness

def token : Uniqueness → String
  | .none => "none"
  | server => "server"
  | global => "global"

def tokens : List (String × Uniqueness) :=
  [("none", .none), ("server", server), ("global", global)]

def ofToken? (token : String) : Option Uniqueness :=
  tokens.lookup token

theorem lookup_token (u : Uniqueness) : ofToken? u.token = some u := by
  cases u <;> decide

end Uniqueness

/-! ## Mode -/

/-- The side of the protocol for which output is made. -/
inductive Mode where
  | client
  | server
deriving DecidableEq

namespace Mode

instance : Inhabited Mode := ⟨server⟩

def token : Mode → String
  | client => "client"
  | server => "server"

def tokens : List (String × Mode) :=
  [("client", client), ("server", server)]

end Mode

end Scim
