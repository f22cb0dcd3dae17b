import Midframe.Raster.Lzw

/-!
# GIF files

A file starts with the extents of a screen and possibly a palette. Blocks follow, of which the first
frame is read: where it lies on the screen, possibly a palette of its own, and the indices of its
pixels in growing codes. What the frame leaves free is black.
-/

namespace Midframe

namespace Gif

open Raster

/-- A palette of colours of three bytes, if the flags in front of it say that it is there. -/
def readPalette (bytes : ByteArray) (flags : Nat) : ByteReader (Option (Array Pixel)) := do
  if flags < 128 then return none
  else
    let share : ByteReader UInt8 := do return .ofNat (← byte bytes)
    let colour : ByteReader Pixel := do return ⟨← share, ← share, ← share⟩
    return some (← many colour #[] (2 <<< (flags % 8)))

/-- The data of some parts, each behind its size, up to an empty one or the end of the file. The
fuel bounds the number of parts. -/
def readParts (bytes : ByteArray) (data : ByteArray) : Nat → ByteReader ByteArray
  | 0 => failure
  | fuel + 1 => fun position =>
    match byte bytes position with
    | none | some (0, _) => some (data, position + 1)
    | some (size, position) =>
      readParts bytes (data ++ bytes.extract position (position + size)) fuel (position + size)

/-- Whether a number stands for an extension: a text, or something about the next frame, the file or
an application. -/
def isExtension (n : Nat) : Bool := n == 0x01 || n == 0xf9 || n == 0xfe || n == 0xff

/-- Goes to the first frame, past extensions. Other blocks are unknown. The fuel bounds the number
of blocks. -/
def findFrame (bytes : ByteArray) : Nat → ByteReader Unit
  | 0 => failure
  | fuel + 1 => do
    match ← byte bytes with
    | 0x2c => return ()
    | 0x21 =>
      if !isExtension (← byte bytes) then failure
      else
        let _ ← readParts bytes .empty (bytes.size + 1)
        findFrame bytes fuel
    | _ => failure

/-- A frame. -/
structure Frame where
  /-- The first column. -/
  left : Nat
  /-- The first row. -/
  top : Nat
  /-- The number of columns. -/
  width : Nat
  /-- The number of rows. -/
  height : Nat
  /-- Whether the rows come in four passes. -/
  isInterlaced : Bool
  /-- The colours. -/
  palette : Array Pixel
  /-- The indices of the pixels, in the order of the file. -/
  indices : ByteArray

/-- The bits that indices may have. -/
def isIndexWidth (bits : Nat) : Bool := 1 ≤ bits && bits ≤ 11

/-- A frame. The colours are those of the screen if it has none of its own. -/
def readFrame (bytes : ByteArray) (colours : Option (Array Pixel)) : ByteReader Frame := do
  let left ← littleEndian bytes 2
  let top ← littleEndian bytes 2
  let width ← littleEndian bytes 2
  let height ← littleEndian bytes 2
  let flags ← byte bytes
  let own ← readPalette bytes flags
  let palette ← (own <|> colours : Option (Array Pixel))
  let bits ← byte bytes
  if !isIndexWidth bits || width == 0 || (height == 0 && flags / 64 % 2 == 0) then failure
  else
    let data ← readParts bytes .empty (bytes.size + 1)
    let indices ← (Lzw.decode ⟨bits, false⟩ true data (width * height) : Option ByteArray)
    return ⟨left, top, width, height, flags / 64 % 2 == 1, palette, indices⟩

/-- The place of a row in the order of the passes: every eighth row, those half-way between, and so
on. -/
def passRow (height y : Nat) : Nat :=
  if y % 8 == 0 then y / 8
  else if y % 8 == 4 then (height + 7) / 8 + y / 8
  else if y % 4 == 2 then (height + 3) / 4 + y / 4
  else (height + 1) / 2 + y / 2

/-- The pixel of a frame in a column and a row of the screen. -/
def Frame.pixel (f : Frame) (x y : Nat) : Pixel :=
  if x < f.left || y < f.top || f.left + f.width ≤ x || f.top + f.height ≤ y then black
  else
    let row := if f.isInterlaced then passRow f.height (y - f.top) else y - f.top
    f.palette.getD (f.indices.data.getD (row * f.width + (x - f.left)) 0).toNat black

/-- The image of a file. -/
def readFile (bytes : ByteArray) : ByteReader Image := do
  expect bytes "GIF8"
  let version ← byte bytes
  expect bytes "a"
  let width ← littleEndian bytes 2
  let height ← littleEndian bytes 2
  let flags ← byte bytes
  skip bytes 2
  let colours ← readPalette bytes flags
  if !(version == 55 || version == 57) || !fits width height 4 then failure
  else
    findFrame bytes (bytes.size + 1)
    let frame ← readFrame bytes colours
    return ⟨width, height, Vector.ofFn fun i => frame.pixel (i % width) (i / width)⟩

/-- The image that a file holds. -/
def decode (bytes : ByteArray) : Option Image := (readFile bytes 0).map Prod.fst

end Gif

end Midframe
