import Midframe.Raster.Bytes

/-!
# Farbfeld files

A file holds nothing but its extents and its pixels, row by row, with red, green, blue and opacity
of sixteen bits each.
-/

namespace Midframe

namespace Farbfeld

open Raster

/-- A pixel. Its opacity is dropped. -/
def readPixel (bytes : ByteArray) : ByteReader Pixel := do
  let red ← bigEndian bytes 0 2
  let green ← bigEndian bytes 0 2
  let blue ← bigEndian bytes 0 2
  skip bytes 2
  return ⟨narrow red, narrow green, narrow blue⟩

/-- The image of a file. -/
def readFile (bytes : ByteArray) : ByteReader Image := do
  expect bytes "farbfeld"
  let width ← bigEndian bytes 0 4
  let height ← bigEndian bytes 0 4
  if !fits width height 8 then failure
  else
    let pixels ← many (readPixel bytes) #[] (width * height)
    (Image.ofPixels? width height pixels : Option Image)

/-- The image that a file holds. -/
def decode (bytes : ByteArray) : Option Image := (readFile bytes 0).map Prod.fst

end Farbfeld

end Midframe
