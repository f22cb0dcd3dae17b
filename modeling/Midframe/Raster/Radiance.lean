import Midframe.Count
import Midframe.Raster.Bytes
import Midframe.Text.Character
import Midframe.Text.Number

/-!
# Radiance files

A file starts with lines of text, the last of which gives the extents. The pixels follow, row by
row; a pixel has a share of each colour and an exponent for all three. A row may hold its four
planes one after another in runs, or pixels with marks between them that repeat the one in front.
-/

namespace Midframe

namespace Radiance

open Raster

/-- A pixel: the shares of its colours, and their common exponent. -/
structure Light where
  /-- The share of red. -/
  red : Nat
  /-- The share of green. -/
  green : Nat
  /-- The share of blue. -/
  blue : Nat
  /-- The exponent of two. -/
  exponent : Nat
deriving DecidableEq, Repr, Inhabited

/-- The pixel in eight bits a colour. What shines brighter than white is white. -/
def Light.pixel (l : Light) : Pixel :=
  let bits := if 1 < l.exponent then (l.exponent - 1) <<< 23 else l.exponent <<< 22
  let scale : Float32 := Float32.ofBits (.ofNat bits) * Scalar.ratio 1 256
  let share (n : Nat) : UInt8 := byteOfLight (scale * Scalar.ofNat n)
  ⟨share l.red, share l.green, share l.blue⟩

/-! ## Lines -/

/-- The characters of a line. -/
def chars (line : List UInt8) : List Char :=
  match String.fromUTF8? ⟨line.toArray⟩ with
  | some text => text.toList
  | none => line.map fun b => Char.ofNat b.toNat

/-- The words of a text, which white space keeps apart. -/
def words (text : List Char) : List String :=
  let parts := text.foldr (fun c parts =>
    if isWhiteSpace c then [] :: parts
    else match parts with
      | part :: parts => (c :: part) :: parts
      | [] => [[c]]) [[]]
  (parts.filter fun part => !part.isEmpty).map String.ofList

/-- A property in a line of the head: its name and its value, both of which must be there. -/
def property? (line : List Char) : Option (String × List Char) :=
  match line.span (· != '=') with
  | (c :: name, _ :: d :: value) => some (String.ofList (trimWhiteSpace (c :: name)), d :: value)
  | _ => none

/-- Whether a line of the head is well formed: only one format is known, and some properties are
numbers. -/
def isHeadLine (line : List Char) : Bool :=
  match property? line with
  | some ("FORMAT", value) => String.ofList (trimWhiteSpace value) == "32-bit_rle_rgbe"
  | some ("EXPOSURE", value) | some ("PIXASPECT", value) => isNumber (trimWhiteSpace value)
  | some ("COLORCORR", value) =>
    let factors := words value
    factors.length == 3 && factors.all fun factor => isNumber factor.toList
  | _ => true

/-- Reads the lines up to the first empty one. Those that start with a number sign are passed
over. -/
def readHead (bytes : ByteArray) : Nat → ByteReader Unit
  | 0 => failure
  | fuel + 1 => do
    let line ← readLine bytes
    if line.isEmpty then return ()
    else if line.head? == some 35 || isHeadLine (chars line) then readHead bytes fuel
    else failure

/-- The numbers of columns and rows. Rows go down and columns to the right. -/
def readExtents (bytes : ByteArray) : ByteReader (Nat × Nat) := do
  match words (chars (← readLine bytes)) with
  | ["-Y", height, "+X", width] =>
    let extent? (text : String) : Option Nat :=
      (decimalCount? text.toList).filter (· ≤ maxImageExtent)
    let height ← extent? height
    let width ← extent? width
    return (width, height)
  | _ => failure

/-! ## Rows -/

/-- A pixel with all its shares. -/
def readLight (bytes : ByteArray) : ByteReader Light := do
  return ⟨← byte bytes, ← byte bytes, ← byte bytes, ← byte bytes⟩

/-- One plane of a row in runs, behind what has been read of it. Runs do not go beyond the row. The
fuel bounds the number of runs. -/
def readPlane (bytes : ByteArray) (width : Nat) (done : Array Nat) : Nat → ByteReader (Array Nat)
  | 0 => failure
  | fuel + 1 => do
    if width ≤ done.size then
      if done.size == width then return done else failure
    let count ← byte bytes
    if count ≤ 128 then readPlane bytes width (← many (byte bytes) done count) fuel
    else
      let value ← byte bytes
      readPlane bytes width (done ++ Array.replicate (count - 128) value) fuel

/-- The rest of a row of pixels. A pixel whose shares are all one is a mark: its exponent tells how
often the last pixel is repeated, and marks in a row count 256 times as much each. The fuel bounds
the number of pixels. -/
def readMarked (bytes : ByteArray) (width : Nat) (last : Light) (factor : Nat)
    (done : Array Light) : Nat → ByteReader (Array Light)
  | 0 => failure
  | fuel + 1 => do
    if width ≤ done.size then return done
    let l ← readLight bytes
    if l.red == 1 && l.green == 1 && l.blue == 1 then
      let count := l.exponent * factor
      if width < done.size + count then failure
      else readMarked bytes width last (factor * 256) (done ++ Array.replicate count last) fuel
    else readMarked bytes width l 1 (done.push l) fuel

/-- A row. -/
def readRow (bytes : ByteArray) (width : Nat) : ByteReader (Array Light) := do
  let first ← readLight bytes
  if first.red == 2 && first.green == 2 && first.blue < 128 then
    let plane : ByteReader (Array Nat) := readPlane bytes width #[] (bytes.size + 1)
    let red ← plane
    let green ← plane
    let blue ← plane
    let exponent ← plane
    return Array.ofFn fun x : Fin width =>
      ⟨red.getD x 0, green.getD x 0, blue.getD x 0, exponent.getD x 0⟩
  else if first.red == 1 && first.green == 1 && first.blue == 1 then failure
  else readMarked bytes width first 1 #[first] (bytes.size + 1)

/-- The image of a file. -/
def readFile (bytes : ByteArray) : ByteReader Image := do
  expect bytes "#?RADIANCE"
  let _ ← readLine bytes
  readHead bytes (bytes.size + 1)
  let (width, height) ← readExtents bytes
  if !fits width height 12 then failure
  else
    let rows ← if width == 0 then pure #[] else many (readRow bytes width) #[] height
    let pixels := rows.foldl (fun pixels row => pixels ++ row.map Light.pixel) #[]
    (Image.ofPixels? width height pixels : Option Image)

/-- The image that a file holds. -/
def decode (bytes : ByteArray) : Option Image := (readFile bytes 0).map Prod.fst

end Radiance

end Midframe
