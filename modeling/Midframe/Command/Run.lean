import Midframe.Command.Arguments
import Midframe.Command.Host
import Midframe.Command.Path
import Midframe.Interpolation
import Midframe.Network.Estimate

/-!
# Running commands

A command either succeeds with a text to print and a remark, or fails with a fault. Files that were
written before a fault stay written.
-/

namespace Midframe

/-- What a program leaves behind besides its files. -/
structure Outcome where
  /-- The exit status. -/
  status : Nat
  /-- What it prints. -/
  output : String
  /-- What it remarks beside its output. -/
  remarks : String
deriving DecidableEq, Repr, Inhabited

/-- What a command that succeeds has to say. -/
structure Report where
  /-- What it prints. -/
  output : String := ""
  /-- What it remarks beside its output. -/
  remarks : String := ""
deriving DecidableEq, Repr

namespace Command

variable {m : Type → Type} [Monad m]

/-! ## Files -/

/-- An action that may fail, with the words for its failure. -/
def orFail (action : m Bool) (context : String) : ExceptT Fault m Unit := do
  if ← action then return () else throw (.outside context)

/-- The configuration of a file, or the default one; it must be valid. -/
def loadConfig (host : Host m) (path : Option String) : ExceptT Fault m Config := do
  let config ← match path with
    | none => pure {}
    | some path => do
      let contents ← match ← host.readText path with
        | .ok contents => pure contents
        | .error _ => throw (.outside s!"load config '{path}'")
      match contents.map Config.ofText with
      | some (.ok config) => pure config
      | _ => throw (.outside s!"load config '{path}'")
  settled config.validate
  return config

/-- The parameters of a file. -/
def loadStore (host : Host m) (path : String) : ExceptT Fault m Store := do
  match ← host.readText path with
  | .error e => throw (.parameter (.openFile path e.text))
  | .ok none => throw (.unreadable .parameters)
  | .ok (some contents) => settled (Store.ofText contents)

/-- The network of a configuration file and a parameter file. -/
def loadNetwork (host : Host m) (files : NetworkFiles) : ExceptT Fault m Network := do
  let net ← settled (Network.build (← loadConfig host files.config))
  match files.weights with
  | none => return net
  | some path =>
    let store ← loadStore host path
    match net.load store with
    | (net, .ok ()) => return net
    | (_, .error _) => throw (.outside s!"load weights '{path}'")

/-- The picture that an image file holds. -/
def readPicture (host : Host m) (path : String) : ExceptT Fault m Picture := do
  match ← host.readImage path with
  | some image => return .ofImage image
  | none => throw (.outside s!"read image '{path}'")

/-- Makes the directory that a file is to be written into. -/
def prepareParent (host : Host m) (path : String) : ExceptT Fault m Unit :=
  match Path.parent? path with
  | none => return ()
  | some parent =>
    if parent.isEmpty then return ()
    else orFail (host.makeDirectories parent) s!"create output dir '{parent}'"

/-- Writes a picture into an image file. -/
def writePicture (host : Host m) (path : String) (picture : Picture) : ExceptT Fault m Unit := do
  prepareParent host path
  let image ← settled picture.toImage
  orFail (host.writeImage path image) s!"write png '{path}'"

/-! ## The commands -/

/-- Prints the plan of a network. -/
def runPlan (host : Host m) (height width : Nat) (files : NetworkFiles) :
    ExceptT Fault m Report := do
  let net ← loadNetwork host files
  let plan ← settled (net.plan height width)
  return { output := plan.toJson.pretty ++ "\n" }

/-- One step of a schedule in words. -/
def stepLine (s : MidpointStep) : String := s!"{s.left} {s.right} -> {s.mid}\n"

/-- Prints the order of the midpoints of an interval. -/
def runSchedule (factor : Nat) : ExceptT Fault m Report := do
  if !isPowerOfTwo factor then
    throw (.outside s!"--factor must be a power of two, got {factor}")
  let steps ← settled (interpolationOrder factor 0)
  return { output := String.join (steps.map stepLine) }

/-- Makes one frame out of two. -/
def runInterpolate (host : Host m) (first second out : String) (files : NetworkFiles) :
    ExceptT Fault m Report := do
  let net ← loadNetwork host files
  let one ← readPicture host first
  let two ← readPicture host second
  let middle ← settled (net.estimate one two)
  writePicture host out middle
  return { remarks := s!"wrote {out}\n" }

/-- The name of the file of a frame: its number in six digits or more. -/
def frameName (index : Nat) : String :=
  let digits := toString index
  String.ofList (List.replicate (6 - digits.length) '0') ++ digits ++ ".png"

/-- The same action of a monad that also counts. -/
def counted {α : Type} (action : ExceptT Fault m α) : ExceptT Fault (StateT Nat m) α :=
  ExceptT.mk (StateT.lift action.run)

/-- Writes the next frame of a sequence and counts it. -/
def writeNext (host : Host m) (out : String) (picture : Picture) :
    ExceptT Fault (StateT Nat m) Unit := do
  let index ← (get : StateT Nat m Nat)
  counted (writePicture host (Path.join out (frameName index)) picture)
  (set (index + 1) : StateT Nat m Unit)

/-- The paths of the files of a directory, in the order of their names. -/
def listFrames (host : Host m) (directory : String) : ExceptT Fault m (List String) := do
  match ← host.listFiles directory with
  | none => throw (.outside s!"list '{directory}'")
  | some names =>
    if names.isEmpty then throw (.outside s!"no frames in '{directory}'")
    else
      let sorted := names.mergeSort fun a b => (compare a b).isLE
      return sorted.map (Path.join directory)

/-- Raises the frame rate of a directory of frames. Frames are read one at a time. -/
def runSequence (host : Host m) (input out : String) (factor : Nat) (files : NetworkFiles) :
    ExceptT Fault m Report := do
  let net ← loadNetwork host files
  let paths ← listFrames host input
  let stream : ExceptT Fault (StateT Nat m) Nat :=
    interpolateStream (paths.map fun path => counted (readPicture host path)) factor
      (fun a b => settled (net.estimate a b)) (writeNext host out)
  let written ← ExceptT.mk (do return (← stream.run.run 0).1)
  return { remarks := s!"wrote {written} frames to {out}\n" }

/-- Writes the parameters that a network starts from. -/
def runExport (host : Host m) (out : String) (config : Option String) :
    ExceptT Fault m Report := do
  let net ← settled (Network.build (← loadConfig host config))
  let store ← settled net.exportParameters
  prepareParent host out
  match ← host.writeText out store.text with
  | .ok () =>
    return { remarks := s!"wrote {store.size} arrays ({store.scalars} values) to {out}\n" }
  | .error e => throw (.parameter (.createFile out e.text))

/-- Runs a command. -/
def run (host : Host m) : Command → ExceptT Fault m Report
  | plan height width files => runPlan host height width files
  | schedule factor => runSchedule factor
  | interpolate first second out files => runInterpolate host first second out files
  | sequence input out factor files => runSequence host input out factor files
  | exportParameters out config => runExport host out config

end Command

/-- Runs the program on its arguments. -/
def runProgram {m : Type → Type} [Monad m] (host : Host m) (arguments : List String) :
    m Outcome := do
  match Invocation.read arguments with
  | .error .version => return ⟨0, versionText ++ "\n", ""⟩
  | .error (.help none) => return ⟨0, helpText ++ "\n", ""⟩
  | .error (.help (some form)) => return ⟨0, form.helpText ++ "\n", ""⟩
  | .error .helpOnHelp => return ⟨0, helpOnHelpText ++ "\n", ""⟩
  | .error .misuse => return ⟨2, "", helpText ++ "\n"⟩
  | .ok invocation =>
    match LogFilter.check invocation.log with
    | .error .malformed => return ⟨1, "", "Error: parse --log filter\n"⟩
    | .error .splitCharacter => return ⟨101, "", "Error: --log filter splits a character\n"⟩
    | .ok () =>
      match ← (invocation.command.run host).run with
      | .ok report => return ⟨0, report.output, report.remarks⟩
      | .error fault => return ⟨fault.status, "", "Error: " ++ fault.message ++ "\n"⟩

end Midframe
