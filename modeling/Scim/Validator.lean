import Scim.Registry.Basic

/-! # Validation of schema files

The report of the command line tool on a schema file or on a directory of them. A schema that loads
may still declare things that have no effect; these are told as warnings.
-/

set_option autoImplicit false

namespace Scim

/-! ## Warnings -/

inductive Warning where
  | noAttributes
  /-- The path of a complex attribute. -/
  | noSubAttributes (path : String)
  | uncheckedValues (path : String) (datatype : DataType)
deriving DecidableEq

def Warning.message : Warning → String
  | noAttributes => "schema declares no attributes"
  | noSubAttributes path => s!"{path}: complex attribute has no sub-attributes"
  | uncheckedValues path datatype =>
    s!"{path}: canonical values on a {datatype.token} attribute are not checked"

namespace Descriptor

/-- The warnings on a descriptor itself. -/
def ownWarnings (path : String) (d : Descriptor) : List Warning :=
  (if d.isComplex && d.subAttributes.isEmpty then [.noSubAttributes path] else []) ++
  (if d.canonicalValues.isSome && d.datatype != .string && d.datatype != .reference then
    [.uncheckedValues path d.datatype] else [])

mutual

/-- The warnings on a descriptor at a path, before those on its sub-attributes in order. -/
def warnings (path : String) (d : Descriptor) : List Warning :=
  match d with
  | ⟨_, _, _, _, _, _, _, _, _, _, _, subs⟩ =>
    d.ownWarnings path ++ subWarnings path subs

def subWarnings (path : String) : List Descriptor → List Warning
  | [] => []
  | d :: rest => warnings s!"{path}.{d.name}" d ++ subWarnings path rest

end

end Descriptor

def Schema.warnings (s : Schema) : List Warning :=
  (if s.attributes.isEmpty then [.noAttributes] else []) ++
    s.attributes.flatMap fun d => d.warnings d.name

/-! ## Output -/

namespace Validator

/-- A line of the standard output or of the error output. -/
inductive Line where
  | out (text : String)
  | err (text : String)
deriving DecidableEq

structure Outcome where
  lines : List Line
  exit : Nat

def usage (program : String) : Outcome where
  lines :=
    [.err s!"Usage: {program} <schema-file-or-directory>", .err "", .err "Examples:",
      .err s!"  {program} schemas/User.json", .err s!"  {program} ./schemas/"]
  exit := 1

def warningLines (indent : String) (s : Schema) : List Line :=
  s.warnings.map fun w => .out s!"{indent}⚠ {w.message}"

/-- How many attributes there are of each datatype, in the order of their tokens. -/
def datatypeCounts (s : Schema) : Table Nat :=
  s.attributes.foldl (fun t d => t.update d.datatype.token fun n => n.getD 0 + 1) .empty

def summary (s : Schema) : List Line :=
  let required := s.attributes.filter Descriptor.required
  let multiValued := s.attributes.filter Descriptor.multiValued
  [.out "", .out "Schema Summary:", .out s!"  ID: {s.id}", .out s!"  Name: {s.name}",
    .out s!"  Description: {s.description}", .out s!"  Attributes: {s.attributes.length}",
    .out s!"  Required attributes: {required.length}",
    .out s!"  Multi-valued attributes: {multiValued.length}", .out "  Attribute types:"] ++
  (datatypeCounts s).entries.map (fun e => .out s!"    - {e.1}: {e.2}") ++
  if required.isEmpty then []
  else
    let names := ", ".intercalate (required.map Descriptor.name)
    [.out s!"  Required attribute names: {names}"]

/-! ## Files -/

def file (path : String) (n : Node) : Outcome :=
  let title := Line.out s!"Validating schema file: {path}"
  match n.loadSchema with
  | .ok s => ⟨title :: .out "✓ Schema is valid!" :: warningLines "  " s ++ summary s, 0⟩
  | .error e => ⟨[title, .err s!"❌ Schema validation failed: {e.message}"], 1⟩

/-! ## Directories -/

/-- What is told about one file. -/
def entry (name : String) (loaded : Except Error Schema) : List Line :=
  .out "" :: .out s!"Validating: {name}" ::
    match loaded with
    | .ok s => .out s!"  ✓ Valid - {s.name} ({s.id})" :: warningLines "    " s
    | .error e => [.err s!"  ❌ Invalid - {e.message}"]

def registry (r : Registry) : List Line :=
  .out "" :: .out "Testing schema registry loading..." ::
    .out "✓ Schema registry loaded successfully" ::
    .out s!"  Total schemas loaded: {r.schemas.size}" ::
    r.schemas.entries.map fun e => .out s!"    - {e.2.name} ({e.2.id})"

/-- The registry is loaded only if every file of the directory is valid. -/
def directory (path : String) (entries : List (String × Node)) : Outcome :=
  let loaded := (schemaFiles entries).map fun e => (e.1, e.2.loadSchema)
  let valid := loaded.filter fun e => e.2.isOk
  let invalid := loaded.filter fun e => !e.2.isOk
  let lines :=
    .out s!"Validating schemas in directory: {path}" :: loaded.flatMap (fun e => entry e.1 e.2) ++
    [.out "", .out "Validation Summary:", .out s!"  Valid schemas: {valid.length}",
      .out s!"  Invalid schemas: {invalid.length}"]
  if invalid.isEmpty then ⟨lines ++ registry (.ofEntries entries), 0⟩ else ⟨lines, 1⟩

/-- Validates the file or the directory that the first argument names. -/
def run (program : String) (args : List String) (at? : String → Option Node) : Outcome :=
  match args with
  | [] => usage program
  | path :: _ =>
    match at? path with
    | some (.directory entries) => directory path entries
    | some (.file content) => file path (.file content)
    | none => ⟨[.err s!"Error: '{path}' is not a valid file or directory"], 1⟩

end Validator

end Scim
