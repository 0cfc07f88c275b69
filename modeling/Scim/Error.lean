import Scim.Json.Fault
import Scim.Problem

/-! # Errors

What keeps an operation of the library from doing its work. Problems with data are no errors until a
caller asks for one.
-/

set_option autoImplicit false

namespace Scim

/-- Why a file cannot be read. -/
inductive FileFault where
  | notFound
  | notADirectory
  | isADirectory
  | notText
  | nameTooLong
  /-- A name has a character that no file name can have. -/
  | impossibleName
deriving DecidableEq

def FileFault.message : FileFault → String
  | notFound => "No such file or directory (os error 2)"
  | notADirectory => "Not a directory (os error 20)"
  | isADirectory => "Is a directory (os error 21)"
  | notText => "stream did not contain valid UTF-8"
  | nameTooLong => "File name too long (os error 36)"
  | impossibleName => "file name contained an unexpected NUL byte"

inductive Error where
  | invalidDatatype (token : String)
  | invalidToken (characteristic token : String)
  | invalidSchema (reason : String)
  | schemaNotFound (id : String)
  | missingSchemas
  | unknownAttribute (name : String)
  | invalidDocument (reason : String)
  | validation (report : Report)
  | json (fault : Json.Fault)
  | file (fault : FileFault)

def Json.Fault.message : Json.Fault → String
  | malformed => "malformed text"
  | unfinished => "unexpected end of text"
  | mismatch cause => cause.message

def Error.message : Error → String
  | invalidDatatype token => s!"Invalid attribute datatype: {token}"
  | invalidToken characteristic token => s!"Invalid {characteristic} value: {token}"
  | invalidSchema reason => s!"Invalid schema: {reason}"
  | schemaNotFound id => s!"Schema not found: {id}"
  | missingSchemas => "A resource must be bound to at least one schema"
  | unknownAttribute name => s!"Unknown attribute: {name}"
  | invalidDocument reason => s!"Invalid resource document: {reason}"
  | validation report => s!"Validation failed: {report.text}"
  | json fault => s!"JSON error: {fault.message}"
  | file fault => s!"I/O error: {fault.message}"

end Scim
