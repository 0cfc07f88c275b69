import Scim.Schema.Document

/-! # Files

What the file system holds, as far as schemas are read from it: files with their octets, or with the
reason why the system does not give them, and directories with their entries in the order in which the
system lists them.
-/

set_option autoImplicit false

namespace Scim

inductive Node where
  | file (content : Except FileFault (List UInt8))
  | directory (entries : List (String × Node))

/-- The content of a file that can be read. -/
instance : Coe (List UInt8) (Except FileFault (List UInt8)) :=
  ⟨.ok⟩

namespace Node

/-- The most octets that a name in a directory has. -/
def maxName : Nat := 255

/-- The most octets that a path has. -/
def maxPath : Nat := 4095

/-- Follows the parts of a path, given the directories above, the nearest first. An empty part, and
one that is a dot, stays where it is, and two dots lead to the directory above, but only a directory
has parts at all. Nothing is above the outermost directory but itself. -/
def walk : List Node → List String → Node → Except FileFault Node
  | _, [], n => .ok n
  | _, _ :: _, file _ => .error .notADirectory
  | above, part :: rest, directory entries =>
    if part = "" || part = "." then walk above rest (directory entries)
    else if part = ".." then
      match above with
      | [] => walk [] rest (directory entries)
      | parent :: above => walk above rest parent
    else if maxName < part.utf8ByteSize then .error .nameTooLong
    else
      match entries.lookup part with
      | some n => walk (directory entries :: above) rest n
      | none => .error .notFound

/-- The node at a path that starts in this one. -/
def find (n : Node) (path : String) : Except FileFault Node :=
  if path.toList.contains '\x00' then .error .impossibleName
  else if maxPath < path.utf8ByteSize then .error .nameTooLong
  else walk [] (path.splitOn "/") n

def read : Node → Except FileFault String
  | file (.ok content) =>
    match String.fromUTF8? ⟨content.toArray⟩ with
    | some text => .ok text
    | none => .error .notText
  | file (.error fault) => .error fault
  | directory _ => .error .isADirectory

def list : Node → Except FileFault (List (String × Node))
  | directory entries => .ok entries
  | file _ => .error .notADirectory

/-- The schema in a file. -/
def loadSchema (n : Node) : Except Error Schema :=
  match n.read with
  | .ok text => Schema.load text
  | .error fault => .error (.file fault)

end Node

/-- What follows the last dot of a name; a dot at its start begins no extension. -/
def extension? (name : String) : Option String :=
  let after := name.toList.reverse.takeWhile (· != '.')
  let before := (name.toList.reverse.dropWhile (· != '.')).drop 1
  if before.isEmpty then none else some (String.ofList after.reverse)

def isSchemaFile (name : String) : Bool :=
  extension? name == some "json"

/-- The entries of a directory that should hold schemas. -/
def schemaFiles (entries : List (String × Node)) : List (String × Node) :=
  entries.filter fun e => isSchemaFile e.1

end Scim
