import Midframe.Picture

/-!
# What a command needs of its surroundings

Commands read and write files through a `Host`, so that what they do can be told without a real file
system: an actual one lives at the outer edge of the program, and `Midframe.Command.Files` holds one
in memory.
-/

namespace Midframe

/-- Why a file could not be opened. -/
inductive OpenFlaw
  /-- There is no such file, or no such directory on the way to it. -/
  | missing
  /-- A part of the path that must be a directory is none. -/
  | notDirectory
  /-- The path names a directory. -/
  | isDirectory
  /-- The path is too long, or a name in it. -/
  | nameTooLong
  /-- Something else, in the words of the system. -/
  | other (text : String)
deriving DecidableEq, Repr

namespace OpenFlaw

/-- The flaw in words, with the number the system has for it. -/
def text : OpenFlaw → String
  | missing => "No such file or directory (os error 2)"
  | notDirectory => "Not a directory (os error 20)"
  | isDirectory => "Is a directory (os error 21)"
  | nameTooLong => "File name too long (os error 36)"
  | other text => text

end OpenFlaw

/-- The files that commands work on, as actions of a monad `m`. -/
structure Host (m : Type → Type) where
  /-- The contents of a file; `none` where it can be opened but is no text. -/
  readText : String → m (Except OpenFlaw (Option String))
  /-- The image that a file holds, if it holds one of the format that its name tells. -/
  readImage : String → m (Option Image)
  /-- The names of the files in a directory, directories left out and in no particular order. -/
  listFiles : String → m (Option (List String))
  /-- Makes a directory and all directories on the way to it that are not there yet. -/
  makeDirectories : String → m Bool
  /-- Replaces the contents of a file by a text. -/
  writeText : String → String → m (Except OpenFlaw Unit)
  /-- Replaces the contents of a file by an image, which must have pixels. -/
  writeImage : String → Image → m Bool

end Midframe
