import Midframe.Command.Run
import Midframe.Raster.Format

/-!
# The program

The outer edge: real files, and the exit status of the process. What the program does is told by
`Midframe.runProgram`.
-/

namespace Midframe

/-- Why the system could not open a file. -/
def openFlawOf : IO.Error → OpenFlaw
  | .noFileOrDirectory .. => .missing
  | .inappropriateType _ 20 _ => .notDirectory
  | .inappropriateType _ 21 _ => .isDirectory
  | .invalidArgument _ 36 _ => .nameTooLong
  | e => .other (toString e)

/-- Whether an action went through. -/
def succeeds (action : IO Unit) : IO Bool := do
  try
    action
    return true
  catch _ => return false

/-- The result of an action, if it went through. -/
def attempt {α : Type} (action : IO α) : IO (Option α) := do
  try return some (← action)
  catch _ => return none

/-- The files of the system. The bytes of images are left to a codec. -/
def Host.system (codec : ImageCodec) : Host IO where
  readText path := do
    try return .ok (String.fromUTF8? (← IO.FS.readBinFile path))
    catch e => match openFlawOf e with
      | .isDirectory => return .ok none
      | flaw => return .error flaw
  readImage path := do
    match Path.extension? path with
    | some extension => return (← attempt (IO.FS.readBinFile path)).bind (codec.decode extension)
    | none => return none
  listFiles path := attempt do
    let entries ← (← IO.FS.realPath path).readDir
    let files ← entries.filterM fun e => do return (← e.path.metadata).type matches .file
    return files.toList.map (·.fileName)
  makeDirectories path := succeeds (IO.FS.createDirAll path)
  writeText path contents := do
    try return .ok (← IO.FS.writeFile path contents)
    catch e => return .error (openFlawOf e)
  writeImage path contents := do
    let bytes := if contents.isEmpty then .empty else codec.encode contents
    return (← succeeds (IO.FS.writeBinFile path bytes)) && !contents.isEmpty

end Midframe

/-- Runs the program on its arguments. -/
def main (arguments : List String) : IO UInt32 := do
  let outcome ← Midframe.runProgram (Midframe.Host.system .builtin) arguments
  IO.print outcome.output
  IO.eprint outcome.remarks
  return UInt32.ofNat outcome.status
