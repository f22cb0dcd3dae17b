import Midframe.Raster.Bytes

/-!
# Surface files

A DDS file holds a head and blocks of four by four pixels. A block has two colours of sixteen bits;
two more lie between them, and each pixel picks one of the four. Some kinds of blocks have the
opacity of the pixels in front of the colours.
-/

namespace Midframe

namespace Surface

open Raster

/-- A kind of blocks. -/
structure Kind where
  /-- The number of bytes in front of the colours. -/
  front : Nat
  /-- Whether the last colour is black in blocks whose first colour is not the greater one. -/
  hasBlack : Bool
deriving DecidableEq, Repr

/-- Blocks without opacity. -/
def plain : Kind := ⟨0, true⟩

/-- Blocks with opacity. -/
def withOpacity : Kind := ⟨8, false⟩

/-! ## Heads -/

/-- The bits that the flags of a head must have. -/
def requiredFlags : Nat := 0x1007

/-- The bits that the flags of a head may have. -/
def knownFlags : Nat := 0x8a100f

/-- The bit of the flags of a format that says that it is given by name. -/
def namedFlag : Nat := 4

/-- The kind of blocks that a longer head names. -/
def readLongKind (bytes : ByteArray) : ByteReader Kind := do
  let word := littleEndian bytes 4
  let format ← word
  let dimension ← word
  let flag ← word
  let count ← word
  let opacity ← word
  if dimension < 2 || 4 < dimension || (flag != 0 && flag != 4) || (dimension == 4 && count != 1)
      || 4 < opacity then
    failure
  else if 70 ≤ format && format ≤ 72 then return plain
  else if 73 ≤ format && format ≤ 78 then return withOpacity
  else failure

/-- The numbers of columns and rows, and the kind of blocks. -/
def readHead (bytes : ByteArray) : ByteReader (Nat × Nat × Kind) := do
  let word := littleEndian bytes 4
  expect bytes "DDS "
  let size ← word
  let flags ← word
  let height ← word
  let width ← word
  skip bytes 56
  let formatSize ← word
  let formatFlags ← word
  let name ← bigEndian bytes 0 4
  skip bytes 40
  if size != 124 || flags &&& requiredFlags != requiredFlags || flags ||| knownFlags != knownFlags
      || formatSize != 32 || formatFlags &&& namedFlag == 0 then
    failure
  else
    let kind ← match name with
      | 0x44585431 => pure plain
      | 0x44585433 | 0x44585435 => pure withOpacity
      | 0x44583130 => readLongKind bytes
      | _ => failure
    return (width, height, kind)

/-! ## Blocks -/

/-- A colour of sixteen bits: five of red, six of green and five of blue. -/
def colour (number : Nat) : Array Nat :=
  #[number / 2048 % 32 * 255 / 31, number / 32 % 64 * 255 / 63, number % 32 * 255 / 31]

/-- The colour of so many parts of the one and so many of the other. -/
def blend (first second : Array Nat) (m n : Nat) : Array Nat :=
  Array.zipWith (fun a b => (a * m + b * n + 1) / (m + n)) first second

/-- The four colours of a block. -/
def colours (kind : Kind) (first second : Nat) : Array (Array Nat) :=
  let a := colour first
  let b := colour second
  if second < first || !kind.hasBlack then #[a, b, blend a b 2 1, blend a b 1 2]
  else #[a, b, blend a b 1 1, #[0, 0, 0]]

/-- The sixteen pixels of a block. -/
def readBlock (bytes : ByteArray) (kind : Kind) : ByteReader (Array Pixel) := do
  skip bytes kind.front
  let first ← littleEndian bytes 2
  let second ← littleEndian bytes 2
  let picks ← littleEndian bytes 4
  let table := colours kind first second
  return Array.ofFn fun i : Fin 16 =>
    let shares := table.getD (picks >>> (2 * i.val) % 4) #[]
    let share (i : Nat) : UInt8 := .ofNat (shares.getD i 0)
    ⟨share 0, share 1, share 2⟩

/-- The image of a file. Its extents are multiples of four. -/
def readFile (bytes : ByteArray) : ByteReader Image := do
  let (width, height, kind) ← readHead bytes
  if width % 4 != 0 || height % 4 != 0 || !fits width height (if kind.front == 0 then 3 else 4) then
    failure
  else
    let blocks ← many (readBlock bytes kind) #[] (width / 4 * (height / 4))
    return ⟨width, height, Vector.ofFn fun i =>
      let x := i % width
      let y := i / width
      (blocks.getD (y / 4 * (width / 4) + x / 4) #[]).getD (y % 4 * 4 + x % 4) black⟩

/-- The image that a file holds. -/
def decode (bytes : ByteArray) : Option Image := (readFile bytes 0).map Prod.fst

end Surface

end Midframe
