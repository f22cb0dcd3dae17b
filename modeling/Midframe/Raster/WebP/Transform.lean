import Midframe.Raster.WebP.Texels

/-!
# Transforms of WebP files

The pixels of a WebP file may be told by what they have more than others: than pixels nearby, or red
and blue than green. Or they may be told by their places in a palette, of which several may share a
pixel. Each of these transforms is used at most once, and undone in the reverse of the order in
which the file names them.
-/

namespace Midframe

namespace WebP

open Deflate

/-! ## Predictions -/

/-- What some function of whole numbers makes of the shares of pixels, held between 0 and 255. -/
@[inline] def shares (f : (Texel → Int) → Int) : Texel :=
  let share (part : Texel → UInt8) : UInt8 := .ofNat (min 255 (f fun t => (part t).toNat).toNat)
  ⟨share Texel.red, share Texel.green, share Texel.blue, share Texel.alpha⟩

/-- The pixel halfway between two. -/
def mean : Texel → Texel → Texel :=
  Texel.map₂ fun a b => .ofNat ((a.toNat + b.toNat) / 2)

/-- How far apart two pixels are. -/
def gap (s t : Texel) : Nat :=
  let apart (a b : UInt8) : Nat := (a.toNat - b.toNat) + (b.toNat - a.toNat)
  apart s.red t.red + apart s.green t.green + apart s.blue t.blue + apart s.alpha t.alpha

/-- The one of two neighbours that is nearer to their sum without the corner between them. What one
neighbour lacks to it is what the other one and the corner are apart. -/
def nearer (left top corner : Texel) : Texel :=
  if gap top corner < gap left corner then left else top

/-- What a mode expects of a pixel, of which these are the ones to the left, above, above to the
left and above to the right. -/
def predict (left top corner right : Texel) : Nat → Texel
  | 0 => .black
  | 1 => left
  | 2 => top
  | 3 => right
  | 4 => corner
  | 5 => mean (mean left right) top
  | 6 => mean left corner
  | 7 => mean left top
  | 8 => mean corner top
  | 9 => mean top right
  | 10 => mean (mean left corner) (mean top right)
  | 11 => nearer left top corner
  | 12 => shares fun of => of left + of top - of corner
  | 13 => let middle := mean left top
    shares fun of => of middle + (of middle - of corner).tdiv 2
  | _ => .clear

/-- The pixels that are told by what is added to a prediction. The first pixel is added to black,
the others of the first row and of the first column to their only neighbour. The last pixel of a row
has the first one of its own row as the one above to the right, which is the next one in the order
of the file. -/
def addPredictions (width n : Nat) (modes rest : Array Texel) : Array Texel :=
  rest.size.fold (fun i _ out =>
    let x := i % width
    let y := i / width
    let back (distance : Nat) : Texel := out.getD (i - distance) .clear
    let expected :=
      if i == 0 then .black
      else if y == 0 then back 1
      else if x == 0 then back width
      else
        let mode := modes.getD (y >>> n * blocks width n + x >>> n) .clear
        predict (back 1) (back width) (back (width + 1)) (back (width - 1)) mode.green.toNat
    out.push ((rest.getD i .clear).add expected)) #[]

/-! ## Colours -/

/-- A byte as a number with a sign. -/
def signed (b : UInt8) : Int := if b < 128 then b.toNat else (b.toNat : Int) - 256

/-- What some of a share adds to another one, in parts of 32. -/
def part (factor share : UInt8) : UInt8 := .ofNat ((signed factor * signed share / 32) % 256).toNat

/-- A pixel of which parts of green were taken from red, and parts of green and red from blue. -/
def addParts (factors t : Texel) : Texel :=
  let red := t.red + part factors.blue t.green
  { t with red := red, blue := t.blue + part factors.green t.green + part factors.red red }

/-- A pixel of which green was taken from red and blue. -/
def addGreen (t : Texel) : Texel := { t with red := t.red + t.green, blue := t.blue + t.green }

/-! ## Palettes -/

/-- To how many bits the number of places in one pixel is the power of two, for a palette of some
colours. -/
def sharing (colours : Nat) : Nat :=
  if colours ≤ 2 then 3 else if colours ≤ 4 then 2 else if colours ≤ 16 then 1 else 0

/-- The colour of the pixel in a column and a row, told by its place in a palette. The green of a
pixel holds the places, the lowest bits first. Beyond the palette there is nothing. -/
def pick (width : Nat) (palette places : Array Texel) (x y : Nat) : Texel :=
  let n := sharing palette.size
  let bits := 8 >>> n
  let green := (places.getD (y * blocks width n + x >>> n) .clear).green.toNat
  palette.getD (green >>> (x % 1 <<< n * bits) % 1 <<< bits) .clear

/-- The colours of a palette of which each but the first was told by what it has more than the one
in front of it. -/
def addUp (palette : Array Texel) : Array Texel :=
  palette.foldl (fun out t => out.push (t.add (out.back?.getD .clear))) #[]

/-! ## Transforms -/

/-- A transform. -/
inductive Transform
  /-- Pixels are told by what they have more than predicted; the modes are those of squares. -/
  | prediction (n : Nat) (modes : Array Texel)
  /-- Parts of shares are taken from others; the factors are those of squares. -/
  | parts (n : Nat) (factors : Array Texel)
  /-- Green is taken from red and blue. -/
  | green
  /-- Pixels are told by places in a palette. -/
  | palette (colours : Array Texel)

namespace Transform

/-- The number of a transform in a file. -/
def number : Transform → Nat
  | prediction .. => 0
  | parts .. => 1
  | green => 2
  | palette _ => 3

/-- The columns of the transformed pixels of some columns. -/
def columns (width : Nat) : Transform → Nat
  | palette colours => blocks width (sharing colours.size)
  | _ => width

/-- A transform of an image of some extents, given its number. -/
def readFrom (bytes : ByteArray) (width height : Nat) (number : Nat) : BitReader Transform := do
  let squares : BitReader (Nat × Array Texel) := do
    let n := 2 + (← bits bytes 3)
    return (n, ← readPlain bytes (blocks width n) (blocks height n))
  match number with
  | 0 => do
    let (n, modes) ← squares
    return prediction n modes
  | 1 => do
    let (n, factors) ← squares
    return parts n factors
  | 2 => return green
  | _ => do
    let size := 1 + (← bits bytes 8)
    return palette (addUp (← readPlain bytes size 1))

/-- The pixels that were transformed, in rows of `width`. -/
def undo (width height : Nat) (texels : Array Texel) : Transform → Array Texel
  | prediction n modes => addPredictions width n modes texels
  | parts n factors => texels.mapIdx fun i t =>
    addParts (factors.getD ((i / width) >>> n * blocks width n + (i % width) >>> n) .clear) t
  | green => texels.map addGreen
  | palette colours =>
    Array.ofFn fun i : Fin (width * height) => pick width colours texels (i % width) (i / width)

end Transform

/-- The pixels of an image. Each transform changes the columns of the ones behind it. At most as
many transforms are read as the fuel tells. -/
def readTransformed (bytes : ByteArray) (width height : Nat) (seen : List Nat) :
    Nat → BitReader (Array Texel)
  | 0 => failure
  | fuel + 1 => do
    if (← bit bytes) == 0 then readRows bytes width height
    else
      let number ← bits bytes 2
      if seen.contains number then failure
      else
        let transform ← Transform.readFrom bytes width height number
        let texels ← readTransformed bytes (transform.columns width) height (number :: seen) fuel
        return transform.undo width height texels

end WebP

end Midframe
