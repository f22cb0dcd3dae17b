import Midframe.Raster.Bytes

/-!
# Directories of TIFF files

A TIFF file describes its image in a directory: a list of tags with values. A value is a list of
numbers or of something else, and stands in the directory if it fits there and somewhere else in the
file if not. The file says in which order its bytes are and whether places in it take four bytes or
eight.
-/

namespace Midframe

namespace Tiff

open Raster

/-- How numbers are laid out in a file. -/
structure Layout where
  /-- Whether the highest byte of a number comes first. -/
  highFirst : Bool
  /-- The bytes of a place in the file, and of a count of values. -/
  placeBytes : Nat
deriving DecidableEq, Repr

/-- A number of some bytes. -/
def Layout.number (l : Layout) (bytes : ByteArray) (size : Nat) : ByteReader Nat :=
  if l.highFirst then bigEndian bytes 0 size else littleEndian bytes size

/-- A place in the file. -/
def Layout.place (l : Layout) (bytes : ByteArray) : ByteReader Nat := l.number bytes l.placeBytes

/-! ## Values -/

/-- The type of the values of a tag. -/
inductive ValueType
  /-- Whole numbers of some bytes. -/
  | count (bytes : Nat)
  /-- Places of other directories, of some bytes. -/
  | directory (bytes : Nat)
  /-- Something else, each of some bytes. -/
  | other (bytes : Nat)
deriving DecidableEq, Repr

namespace ValueType

/-- The type of a number. -/
def ofNat? : Nat → Option ValueType
  | 1 | 7 => some (count 1)
  | 3 => some (count 2)
  | 4 => some (count 4)
  | 16 => some (count 8)
  | 13 => some (directory 4)
  | 18 => some (directory 8)
  | 2 | 6 => some (other 1)
  | 8 => some (other 2)
  | 9 | 11 => some (other 4)
  | 5 | 10 | 12 | 17 => some (other 8)
  | _ => none

/-- The bytes of a value. -/
def bytes : ValueType → Nat
  | count n | directory n | other n => n

end ValueType

/-- The tag of a directory. -/
structure Entry where
  /-- The number of the tag. -/
  tag : Nat
  /-- The type of its values. -/
  type : ValueType
  /-- The number of its values. -/
  count : Nat
  /-- Where the values are, or the place where they are. -/
  field : Nat
deriving DecidableEq, Repr

/-- A tag; `none` if its type is not known. Such a tag takes the bytes that it has in files with
places of four bytes. -/
def readEntry (l : Layout) (bytes : ByteArray) : ByteReader (Option Entry) := do
  let tag ← l.number bytes 2
  match ValueType.ofNat? (← l.number bytes 2) with
  | none =>
    skip bytes 8
    return none
  | some type =>
    let count ← l.place bytes
    let field ← get
    skip bytes l.placeBytes
    return some ⟨tag, type, count, field⟩

/-- The tags of the directory at a place. -/
def readDirectory (l : Layout) (bytes : ByteArray) (place : Nat) : ByteReader (List Entry) := do
  set place
  let count ← l.number bytes (if l.placeBytes == 8 then 8 else 2)
  let entries ← many (readEntry l bytes) #[] count
  skip bytes l.placeBytes
  return (entries.toList.filterMap id)

/-- A file: its bytes, their layout and its tags. -/
structure File where
  /-- The bytes. -/
  bytes : ByteArray
  /-- Their layout. -/
  layout : Layout
  /-- The tags. -/
  entries : List Entry

namespace File

/-- The layout of a file, and the place of its directory. -/
def readHead (bytes : ByteArray) : ByteReader (Layout × Nat) := do
  let first ← byte bytes
  let second ← byte bytes
  if first != second || !(first == 73 || first == 77) then failure
  else
    let layout : Layout := ⟨first == 77, 4⟩
    match ← layout.number bytes 2 with
    | 42 => return (layout, ← layout.place bytes)
    | 43 =>
      let layout := { layout with placeBytes := 8 }
      let size ← layout.number bytes 2
      let rest ← layout.number bytes 2
      if size != 8 || rest != 0 then failure else return (layout, ← layout.place bytes)
    | _ => failure

/-- The file of some bytes. -/
def ofBytes? (bytes : ByteArray) : Option File := do
  let ((layout, place), position) ← readHead bytes 0
  if place == 0 then none
  else
    let (entries, _) ← readDirectory layout bytes place position
    return ⟨bytes, layout, entries⟩

/-- Whether a file has a tag. -/
def has (f : File) (tag : Nat) : Bool := f.entries.any (·.tag == tag)

/-- A tag of a file. The last one of several equal tags counts. -/
def entry? (f : File) (tag : Nat) : Option Entry := f.entries.reverse.find? (·.tag == tag)

/-- The values of a tag, which must be whole numbers or places. -/
def values? (f : File) (e : Entry) : Option (List Nat) :=
  let size := e.type.bytes
  let values : ByteReader (Array Nat) := do
    set e.field
    if f.layout.placeBytes < e.count * size then set (← f.layout.place f.bytes)
    many (f.layout.number f.bytes size) #[] e.count
  match e.type with
  | .other _ => none
  | _ => (values 0).map fun (values, _) => values.toList

/-- The values of a tag, or `absent` if it is not there. -/
def numbers? (f : File) (tag : Nat) (absent : Option (List Nat)) : Option (List Nat) :=
  match f.entry? tag with
  | none => absent
  | some e => f.values? e

/-- The only value of a tag, or `absent` if it is not there. What must fit into two bytes is no
place. -/
def number? (f : File) (tag : Nat) (absent : Option Nat) (isShort : Bool) : Option Nat :=
  match f.entry? tag with
  | none => absent
  | some e =>
    match e.type, f.values? e with
    | .count _, some [n] => if n < 65536 || (!isShort && n < 4294967296) then some n else none
    | .directory _, some [n] => if !isShort && n < 4294967296 then some n else none
    | _, _ => none

end File

end Tiff

end Midframe
