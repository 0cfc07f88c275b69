import Scim.Validator

/-! # Command line

Reads the file or directory that the first argument names, and prints what the validator tells.
-/

set_option autoImplicit false

namespace Scim.Main

/-- A file with what is read. Whatever the system does not give counts as not found. -/
def fileOf (reading : IO ByteArray) : IO Node := do
  let content ← reading.toBaseIO
  match content with
  | .ok octets => pure (.file octets.toList)
  | .error _ => pure (.file (.error .notFound))

/-- What stands at a path. Of a directory only the files that should hold schemas are read. -/
def nodeAt (path : String) : IO (Option Node) := do
  let resolved ← (IO.FS.realPath path).toBaseIO
  match resolved with
  | .error _ => pure none
  | .ok resolved =>
    if ← resolved.isDir then
      let entries ← resolved.readDir
      let nodes ← entries.toList.mapM fun e => do
        if ← e.path.isDir then pure (e.fileName, Node.directory [])
        else if isSchemaFile e.fileName then
          pure (e.fileName, ← fileOf (IO.FS.readBinFile e.path))
        else pure (e.fileName, Node.file (.ok []))
      pure (some (.directory nodes))
    else if ← resolved.pathExists then
      pure (some (← fileOf (IO.FS.readBinFile resolved)))
    else pure none

def printLine : Validator.Line → IO Unit
  | .out text => IO.println text
  | .err text => IO.eprintln text

end Scim.Main

def main (args : List String) : IO UInt32 := do
  let program ← IO.appPath
  let node ← match args with
    | [] => pure none
    | path :: _ => Scim.Main.nodeAt path
  let outcome := Scim.Validator.run program.toString args fun _ => node
  outcome.lines.forM Scim.Main.printLine
  pure outcome.exit.toUInt32
