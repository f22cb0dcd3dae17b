import Midframe.Command.LogFilter
import Midframe.Count

/-!
# Command lines

A command line names one of five commands and gives its options, each by name with one value, either
behind an equals sign or as the next argument. `CommandForm` describes a command as data; the same
description reads its arguments and writes its help text.

Arguments are read from left to right, and the first one that is out of place, or that asks for help
or for the version, decides. The value behind an equals sign is looked at on the spot. A value that
is an argument of its own is taken as it comes, and looked at once the next option is met or the
arguments have ended: a bad one in front of a command comes to light only behind a request for help
on it.
-/

namespace Midframe

/-! ## Forms -/

/-- What the value of an option must look like. -/
inductive ValueKind
  /-- Any text. -/
  | text
  /-- A path, which is not empty. -/
  | path
  /-- A count below `2 ^ 64`, possibly behind a plus sign. -/
  | count
deriving DecidableEq, Repr

/-- Whether an option may be left out. -/
inductive Presence
  /-- It must be given. -/
  | required
  /-- It may be left out. -/
  | optional
  /-- The value it has where it is left out. -/
  | fallback (value : String)
deriving DecidableEq, Repr

/-- An option. -/
structure OptionForm where
  /-- Its name, without the dashes in front. -/
  name : String
  /-- The word that stands for its value in help texts. -/
  place : String
  /-- What its value must look like. -/
  kind : ValueKind
  /-- Whether it may be left out. -/
  presence : Presence
  /-- What it is for; empty if its name says all. -/
  about : String
deriving DecidableEq, Repr

/-- A command. -/
structure CommandForm where
  /-- Its name. -/
  name : String
  /-- What it does. -/
  about : String
  /-- Its options. -/
  options : List OptionForm
deriving DecidableEq, Repr

/-- The option that holds for all commands. -/
def logOption : OptionForm :=
  ⟨"log", "LOG", .text, .fallback "warn", "Log filter, e.g. `info` or `resep=debug`"⟩

/-- The option that names a configuration. -/
def configOption (about : String) : OptionForm := ⟨"config", "CONFIG", .path, .optional, about⟩

/-- The options that a network is made from. -/
def networkOptions : List OptionForm :=
  [configOption "Network config JSON; defaults apply when omitted",
    ⟨"weights", "WEIGHTS", .path, .optional, "Parameter JSON to load over the initial parameters"⟩]

/-- All commands. -/
def commandForms : List CommandForm :=
  [⟨"plan", "Print the shapes every stage produces for one frame size",
      [⟨"height", "HEIGHT", .count, .required, ""⟩, ⟨"width", "WIDTH", .count, .required, ""⟩]
        ++ networkOptions⟩,
    ⟨"schedule", "Print the midpoint order used to raise the frame rate by a factor",
      [⟨"factor", "FACTOR", .count, .required, "Power-of-two frame-rate factor"⟩]⟩,
    ⟨"interpolate", "Synthesize the frame halfway between two images",
      [⟨"first", "FIRST", .path, .required, ""⟩, ⟨"second", "SECOND", .path, .required, ""⟩,
        ⟨"out", "OUT", .path, .required, "Output PNG path"⟩] ++ networkOptions⟩,
    ⟨"sequence", "Raise the frame rate of a directory of frames",
      [⟨"in", "IN_DIR", .path, .required,
          "Directory of input frames, processed in file-name order"⟩,
        ⟨"out", "OUT", .path, .required,
          "Output directory; frames are written as `000000.png`, `000001.png`, ..."⟩,
        ⟨"factor", "FACTOR", .count, .fallback "2", "Power-of-two frame-rate factor"⟩]
        ++ networkOptions⟩,
    ⟨"export-params", "Write the deterministic initial parameters as JSON",
      [⟨"out", "OUT", .path, .required, "Output JSON path"⟩, configOption ""]⟩]

/-! ## Reading -/

/-- Why reading stopped before the end of the arguments. -/
inductive Stop
  /-- An argument is out of place, or a required one is missing. -/
  | misuse
  /-- Help is asked for, on a command or on all of them. -/
  | help (command : Option CommandForm)
  /-- Help is asked for on the request for help. -/
  | helpOnHelp
  /-- The version is asked for. -/
  | version
deriving DecidableEq, Repr

/-- Values of options, by name. -/
abbrev Values := List (String × String)

/-- The options found so far. -/
structure Found where
  /-- The values that have been looked at. -/
  values : Values := []
  /-- The last option and its value, if the value has not been looked at yet. -/
  pending : Option (String × String) := none

/-- The count that a text stands for. -/
def readCount? (text : String) : Option Nat :=
  (decimalCount? text.toList).filter (· ≤ maxCount)

/-- Whether a text can be the value of an option of a kind. -/
def ValueKind.accepts : ValueKind → String → Bool
  | text, _ => true
  | path, value => !value.isEmpty
  | count, value => (readCount? value).isSome

/-- An argument that starts with a dash is no value, except for a single dash. -/
def isValue (argument : String) : Bool := argument == "-" || !argument.startsWith "-"

/-- A long option, without the dashes in front, split at its first equals sign. -/
def splitOption (text : String) : String × Option String :=
  match text.toList.span (· != '=') with
  | (name, []) => (String.ofList name, none)
  | (name, _ :: value) => (String.ofList name, some (String.ofList value))

/-- What is read in front of a command and behind it. -/
structure Scope where
  /-- The options that are known here. -/
  options : List OptionForm
  /-- The command that has been named, if any. -/
  command : Option CommandForm

namespace Scope

/-- An option with its value, which must be of its kind; it may be given once. -/
def check (s : Scope) (values : Values) (name value : String) : Except Stop Values :=
  match s.options.find? fun o => o.name == name with
  | none => .error .misuse
  | some o =>
    if o.kind.accepts value && (values.lookup name).isNone then .ok ((name, value) :: values)
    else .error .misuse

/-- All values, the last one looked at as well. -/
def settle (s : Scope) (found : Found) : Except Stop Values :=
  match found.pending with
  | none => .ok found.values
  | some (name, value) => s.check found.values name value

/-- The request that stands for itself behind one or two dashes. -/
def request? (s : Scope) (name : String) : Option Stop :=
  if name == "help" || name == "h" then some (.help s.command)
  else if (name == "version" || name == "V") && s.command.isNone then some .version
  else none

/-- Whether an option is known. -/
def knows (s : Scope) (name : String) : Bool := s.options.any fun o => o.name == name

/-- Reads options up to the end of the arguments or the first argument that is none. -/
def read (s : Scope) (found : Found) : List String → Except Stop (Found × List String)
  | [] => .ok (found, [])
  | argument :: rest =>
    if argument == "--" then
      if rest.isEmpty then .ok (found, []) else .error .misuse
    else if isValue argument then .ok (found, argument :: rest)
    else do
      let values ← s.settle found
      if argument.startsWith "--" then
        match splitOption (argument.drop 2).toString with
        | (name, some value) => s.read ⟨← s.check values name value, none⟩ rest
        | (name, none) =>
          match if name.length == 1 then none else s.request? name with
          | some stop => throw stop
          | none => match rest with
            | value :: rest =>
              if s.knows name && isValue value then s.read ⟨values, some (name, value)⟩ rest
              else throw .misuse
            | [] => throw .misuse
      else throw ((s.request? ((argument.drop 1).take 1).toString).getD .misuse)

end Scope

/-! ## Commands -/

/-- The files that a network is made from. -/
structure NetworkFiles where
  /-- The configuration; the default one if there is none. -/
  config : Option String
  /-- The parameters; the initial ones if there are none. -/
  weights : Option String
deriving DecidableEq, Repr

/-- What the program is to do. -/
inductive Command
  /-- Prints the shapes of all stages for one frame size. -/
  | plan (height width : Nat) (files : NetworkFiles)
  /-- Prints the order in which the frames of an interval are made. -/
  | schedule (factor : Nat)
  /-- Makes the frame halfway between two images. -/
  | interpolate (first second out : String) (files : NetworkFiles)
  /-- Raises the frame rate of a directory of images. -/
  | sequence (input out : String) (factor : Nat) (files : NetworkFiles)
  /-- Writes the parameters that a network starts from. -/
  | exportParameters (out : String) (config : Option String)
deriving DecidableEq, Repr

/-- A command with the log filter it is run under. -/
structure Invocation where
  /-- The log filter. -/
  log : String
  /-- The command. -/
  command : Command
deriving DecidableEq, Repr

namespace Command

/-- The command of a name, from the values that were found or fall back. -/
def ofValues? (name : String) (values : Values) : Option Command := do
  let files : NetworkFiles := ⟨values.lookup "config", values.lookup "weights"⟩
  let count? (name : String) : Option Nat := (values.lookup name).bind readCount?
  match name with
  | "plan" => return plan (← count? "height") (← count? "width") files
  | "schedule" => return schedule (← count? "factor")
  | "interpolate" =>
    return interpolate (← values.lookup "first") (← values.lookup "second")
      (← values.lookup "out") files
  | "sequence" =>
    return sequence (← values.lookup "in") (← values.lookup "out") (← count? "factor") files
  | "export-params" => return exportParameters (← values.lookup "out") files.config
  | _ => none

end Command

/-- The values of options that fall back where they are left out. -/
def fallbacks (options : List OptionForm) : Values :=
  options.filterMap fun o => match o.presence with
    | .fallback value => some (o.name, value)
    | _ => none

/-- What is asked for by the arguments behind `help`. -/
def readHelp : List String → Stop
  | [] => .help none
  | ["help"] => .helpOnHelp
  | [name] => match commandForms.find? fun c => c.name == name with
    | some c => .help (some c)
    | none => .misuse
  | _ => .misuse

/-- What the arguments of the program ask for. A log filter given behind the command counts more
than one given in front of it. -/
def Invocation.read (arguments : List String) : Except Stop Invocation := do
  let outer : Scope := ⟨[logOption], none⟩
  let (front, rest) ← outer.read {} arguments
  match rest with
  | [] => throw .misuse
  | "help" :: rest => throw (readHelp rest)
  | name :: rest =>
    match commandForms.find? fun c => c.name == name with
    | none => throw .misuse
    | some form =>
      let inner : Scope := ⟨form.options ++ [logOption], some form⟩
      match ← inner.read {} rest with
      | (found, []) =>
        let values := (← inner.settle found) ++ (← outer.settle front) ++ fallbacks inner.options
        match Command.ofValues? name values, values.lookup "log" with
        | some command, some log => return ⟨log, command⟩
        | _, _ => throw .misuse
      | _ => throw .misuse

/-! ## Help -/

namespace OptionForm

/-- The option with a place for its value. -/
def usage (o : OptionForm) : String :=
  "--" ++ o.name ++ " <" ++ o.place ++ ">"

/-- What the option is for, and its value where it is left out. -/
def description (o : OptionForm) : String :=
  match o.presence with
  | .fallback value => o.about ++ s!" [default: {value}]"
  | _ => o.about

end OptionForm

/-- Two columns, two spaces apart, behind an indentation. -/
def columns (rows : List (String × String)) : List String :=
  let width := rows.foldl (fun n r => max n r.1.length) 0
  rows.map fun (left, right) =>
    "  " ++ left ++ String.ofList (List.replicate (width - left.length + 2) ' ') ++ right

/-- The lines of the options of a command, or of none. -/
def optionLines (options : List OptionForm) (extra : List (String × String)) : List String :=
  columns (options.map (fun o => ("    " ++ o.usage, o.description)) ++ extra)

/-- The line of the request for help. -/
def helpRow : String × String := ("-h, --help", "Print help")

/-- What the request for help is for. -/
def helpAbout : String := "Print this message or the help of the given subcommand(s)"

/-- The help text on all commands. -/
def helpText : String :=
  let commands := commandForms.map (fun c => (c.name, c.about)) ++ [("help", helpAbout)]
  "\n".intercalate (["Usage: resep [OPTIONS] <COMMAND>", "", "Commands:"] ++ columns commands ++
    ["", "Options:"] ++ optionLines [logOption] [helpRow, ("-V, --version", "Print version")])

/-- The help text on the request for help. -/
def helpOnHelpText : String :=
  "\n".intercalate ([helpAbout, "", "Usage: resep help [COMMAND]...", "", "Arguments:"] ++
    columns [("[COMMAND]...", "Print help for the subcommand(s)")])

/-- The options of a command as its help lists them. The option that holds for all commands shares
the first place with the first option of the command, the two in the order of their names. -/
def CommandForm.listed (c : CommandForm) : List OptionForm :=
  match c.options with
  | [] => [logOption]
  | first :: rest =>
    if first.name < logOption.name then first :: logOption :: rest else logOption :: first :: rest

/-- The help text on one command. -/
def CommandForm.helpText (c : CommandForm) : String :=
  let required := c.options.filterMap fun o =>
    if o.presence == .required then some (" " ++ o.usage) else none
  "\n".intercalate ([c.about, "", "Usage: resep " ++ c.name ++ " [OPTIONS]" ++ String.join required,
    "", "Options:"] ++ optionLines c.listed [helpRow])

/-- The name and version of the program. -/
def versionText : String := "resep 0.1.0"

end Midframe
