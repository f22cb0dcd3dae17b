import Midframe.Command.Host
import Midframe.Command.Path
import Midframe.Keyed
import Midframe.Raster.Format

/-!
# Files in memory

A file tree is a map from places, given as the names on the way from the root, to what is there.
Every directory has an entry of its own, except for the working directory and those on the way to
it.
-/

namespace Midframe

/-- What is at a path. -/
inductive Node
  /-- A directory. -/
  | directory
  /-- A file. -/
  | file (contents : ByteArray)

instance : DecidableEq Node
  | .directory, .directory => isTrue rfl
  | .directory, .file _ => isFalse nofun
  | .file _, .directory => isFalse nofun
  | .file one, .file two => decidable_of_iff (one.data = two.data) (by simp [ByteArray.ext_iff])

/-- Files and directories by their places. -/
abbrev FileTree := Keyed (List String) Node

namespace FileTree

/-- The tree without any file. -/
def empty : FileTree := Keyed.empty

/-- The place of the working directory. The names on the way to it are empty, so that no path leads
down to it from outside. -/
def home : List String := ["", ""]

/-- The most bytes of a name. -/
def maxName : Nat := 255

/-- The most bytes of a path. -/
def maxPath : Nat := 4095

/-- What is at a place. The working directory is always there. -/
def node? (tree : FileTree) (place : List String) : Option Node :=
  if place.isPrefixOf home then some .directory else tree.get? place

/-- A place that must be a directory. -/
def checkDirectory (tree : FileTree) (place : List String) : Except OpenFlaw Unit :=
  match tree.node? place with
  | some .directory => .ok ()
  | some _ => .error .notDirectory
  | none => .error .missing

/-- Where a part of a path leads to from a place. Two dots lead up, and stay at the root. -/
def moved (place : List String) (part : String) : List String :=
  if part.isEmpty || part == "." then place
  else if part == ".." then place.dropLast
  else place ++ [part]

/-- The place that the parts of a path lead to from a place. All places on the way must be
directories, and so must the last one if an empty part or a dot follows it. -/
def follow (tree : FileTree) (place : List String) : List String → Except OpenFlaw (List String)
  | [] => .ok place
  | part :: rest => do
    tree.checkDirectory place
    if maxName < part.utf8ByteSize then throw .nameTooLong
    else tree.follow (moved place part) rest

/-- The place that a path starts from, and its parts. -/
def parts? (path : String) : Except OpenFlaw (List String × List String) :=
  if maxPath < path.utf8ByteSize then .error .nameTooLong
  else if path.isEmpty then .error .missing
  else .ok (if path.startsWith "/" then [] else home, Path.parts path)

/-- The place that a path names. -/
def place? (tree : FileTree) (path : String) : Except OpenFlaw (List String) := do
  let (start, parts) ← parts? path
  tree.follow start parts

/-- What a path names. -/
def open? (tree : FileTree) (path : String) : Except OpenFlaw Node := do
  match tree.node? (← tree.place? path) with
  | some node => return node
  | none => throw .missing

/-- The tree with something at a path, whose directory must be there. A directory is not replaced,
and a path that ends in a slash is taken for one. -/
def write (tree : FileTree) (path : String) (node : Node) : Except OpenFlaw FileTree := do
  let (start, parts) ← parts? path
  let named := (parts.reverse.dropWhile (·.isEmpty)).reverse
  tree.checkDirectory (← tree.follow start named.dropLast)
  if path.endsWith "/" then throw .isDirectory
  else
    let place ← tree.follow start named
    match tree.node? place with
    | some .directory => throw .isDirectory
    | _ => return tree.insert place node

/-- The tree with all directories on the way along the parts of a path, and whether that was
possible. -/
def makeParts (tree : FileTree) (done : List String) : List String → FileTree × Bool
  | [] => (tree, true)
  | part :: rest =>
    let place := moved done part
    if maxName < part.utf8ByteSize then (tree, false)
    else match tree.node? place with
      | some .directory => tree.makeParts place rest
      | some _ => (tree, false)
      | none => FileTree.makeParts (tree.insert place .directory) place rest

/-- The tree with a directory at a path and all directories on the way to it, and whether that was
possible. -/
def makeDirectories (tree : FileTree) (path : String) : FileTree × Bool :=
  match parts? path with
  | .ok (start, parts) => tree.makeParts start parts
  | .error _ => (tree, false)

/-- The names in a directory, with what they name. -/
def children (tree : FileTree) (place : List String) : List (String × Node) :=
  tree.entries.filterMap fun (path, node) =>
    match path.getLast? with
    | some name => if path.dropLast == place then some (name, node) else none
    | none => none

/-- Whether something is a file. -/
def isFile : Node → Bool
  | .directory => false
  | _ => true

/-- The names of the files in a directory. -/
def listFiles (tree : FileTree) (path : String) : Option (List String) :=
  match tree.place? path with
  | .error _ => none
  | .ok place =>
    if tree.node? place == some .directory then
      some (((tree.children place).filter fun child => isFile child.2).map Prod.fst)
    else none

end FileTree

/-- The host whose files are a tree that the monad carries along. The bytes of images are left to a
codec. -/
def Host.inMemory (codec : ImageCodec) : Host (StateM FileTree) where
  readText path := fun tree => (
    match tree.open? path with
    | .error e => .error e
    | .ok (.file contents) => .ok (String.fromUTF8? contents)
    | .ok .directory => .ok none, tree)
  readImage path := fun tree => (
    match Path.extension? path, tree.open? path with
    | some extension, .ok (.file contents) => codec.decode extension contents
    | _, _ => none, tree)
  listFiles path := fun tree => (tree.listFiles path, tree)
  makeDirectories path := fun tree =>
    let (tree, made) := tree.makeDirectories path
    (made, tree)
  writeText path contents := fun tree =>
    match tree.write path (.file contents.toUTF8) with
    | .ok tree => (.ok (), tree)
    | .error e => (.error e, tree)
  writeImage path contents := fun tree =>
    match tree.write path (.file (if contents.isEmpty then .empty else codec.encode contents)) with
    | .ok tree => (!contents.isEmpty, tree)
    | .error _ => (false, tree)

end Midframe
