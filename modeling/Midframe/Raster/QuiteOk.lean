import Midframe.Raster.Bytes

/-!
# QOI files

The pixels of a file are told one after another, each by what it has in common with the last one or
with one of the last few, which are kept in 64 places by a hash of their colours.
-/

namespace Midframe

namespace QuiteOk

open Raster

/-- A pixel with its opacity. -/
structure Colour where
  /-- The share of red. -/
  red : UInt8
  /-- The share of green. -/
  green : UInt8
  /-- The share of blue. -/
  blue : UInt8
  /-- The opacity. -/
  opacity : UInt8
deriving DecidableEq, Repr, Inhabited

namespace Colour

/-- The place where a colour is kept. -/
def place (c : Colour) : Nat :=
  (c.red.toNat * 3 + c.green.toNat * 5 + c.blue.toNat * 7 + c.opacity.toNat * 11) % 64

/-- A colour with something added to its shares. -/
def shifted (c : Colour) (red green blue : UInt8) : Colour :=
  { c with red := c.red + red, green := c.green + green, blue := c.blue + blue }

/-- The colour without its opacity. -/
def pixel (c : Colour) : Pixel := ⟨c.red, c.green, c.blue⟩

end Colour

/-- What is known of the pixels so far. -/
structure Past where
  /-- The last colour. -/
  last : Colour := ⟨0, 0, 0, 255⟩
  /-- The colours that are kept. -/
  kept : Array Colour := Array.replicate 64 ⟨0, 0, 0, 0⟩
  /-- The pixels. -/
  pixels : Array Pixel := #[]

namespace Past

/-- The past with a colour that was kept. -/
def again (p : Past) (c : Colour) : Past := { p with last := c, pixels := p.pixels.push c.pixel }

/-- The past with a colour that is kept. -/
def add (p : Past) (c : Colour) : Past := { p.again c with kept := p.kept.setIfInBounds c.place c }

/-- The past with the last colour some more times, up to a number of pixels. -/
def run (p : Past) (count size : Nat) : Past :=
  let count := min count (size - p.pixels.size)
  { p with pixels := p.pixels ++ Array.replicate count p.last.pixel }

end Past

/-- Reads pixels up to a number of them; those of a plain file are all opaque. The fuel bounds the
number of steps. -/
def readPixels (bytes : ByteArray) (isPlain : Bool) (size : Nat) (p : Past) :
    Nat → ByteReader (Array Pixel)
  | 0 => failure
  | fuel + 1 => do
    if size ≤ p.pixels.size then return p.pixels
    let b ← byte bytes
    let low : UInt8 := .ofNat (b % 64)
    let share : ByteReader UInt8 := do return .ofNat (← byte bytes)
    if b < 64 then
      let kept := p.kept.getD b default
      let c := if isPlain then { kept with opacity := 255 } else kept
      readPixels bytes isPlain size (p.again c) fuel
    else if b < 128 then
      let c := p.last.shifted (low / 16 - 2) (low / 4 % 4 - 2) (low % 4 - 2)
      readPixels bytes isPlain size (p.add c) fuel
    else if b < 192 then
      let other ← share
      let green := low - 32
      let c := p.last.shifted (green - 8 + other / 16) green (green - 8 + other % 16)
      readPixels bytes isPlain size (p.add c) fuel
    else if b < 254 then readPixels bytes isPlain size (p.run (b % 64 + 1) size) fuel
    else if b == 255 && isPlain then failure
    else
      let red ← share
      let green ← share
      let blue ← share
      let opacity ← if b == 255 then share else pure p.last.opacity
      readPixels bytes isPlain size (p.add ⟨red, green, blue, opacity⟩) fuel

/-- The most pixels of an image. -/
def maxPixels : Nat := 400000000

/-- The image of a file. -/
def readFile (bytes : ByteArray) : ByteReader Image := do
  expect bytes "qoif"
  let width ← bigEndian bytes 0 4
  let height ← bigEndian bytes 0 4
  let channels ← byte bytes
  let space ← byte bytes
  let size := width * height
  if size == 0 || maxPixels < size || !fits width height channels
      || (channels != 3 && channels != 4) || 1 < space then
    failure
  else
    let pixels ← readPixels bytes (channels == 3) size {} (size + 1)
    expect bytes "\x00\x00\x00\x00\x00\x00\x00\x01"
    (Image.ofPixels? width height pixels : Option Image)

/-- The image that a file holds. -/
def decode (bytes : ByteArray) : Option Image := (readFile bytes 0).map Prod.fst

end QuiteOk

end Midframe
