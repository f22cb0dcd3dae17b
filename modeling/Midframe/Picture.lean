import Midframe.Tensor.Basic

/-!
# Pictures and images

A picture is one frame, plane by plane, with samples between 0 and 1. An image is a frame as it is
stored in files: rows of pixels of eight bits a colour. The planes of a picture are blue, green and
red, in this order.
-/

namespace Midframe

/-- A single frame: a batch of one entry, whose channels are called planes. -/
structure Picture where
  /-- The batch. -/
  batch : Tensor Float32
  /-- It has one entry. -/
  isSingle : batch.shape.batch = 1

namespace Picture

/-- The number of planes. -/
def planes (p : Picture) : Nat := p.batch.shape.channels

/-- The number of rows. -/
def height (p : Picture) : Nat := p.batch.shape.height

/-- The number of columns. -/
def width (p : Picture) : Nat := p.batch.shape.width

/-- The sample of a plane at a row and a column. -/
@[inline] def get (p : Picture) (plane y x : Nat) : Float32 := p.batch.get 0 plane y x

/-- The picture whose sample in plane `c` at row `y` and column `x` is `f c y x`. -/
@[specialize] def ofFn (planes height width : Nat) (f : Nat → Nat → Nat → Float32) : Picture :=
  ⟨Tensor.ofFn ⟨1, planes, height, width⟩ fun _ => f, rfl⟩

end Picture

/-- The colour of a pixel. -/
structure Pixel where
  /-- The share of red. -/
  red : UInt8
  /-- The share of green. -/
  green : UInt8
  /-- The share of blue. -/
  blue : UInt8
deriving DecidableEq, Repr, Inhabited

/-- Rows of pixels, the topmost row first. -/
structure Image where
  /-- The number of columns. -/
  width : Nat
  /-- The number of rows. -/
  height : Nat
  /-- The pixels, row by row. -/
  pixels : Vector Pixel (height * width)
deriving DecidableEq, Repr

namespace Image

/-- Whether there are no pixels. -/
def isEmpty (i : Image) : Bool := i.width == 0 || i.height == 0

/-- The pixel at a row and a column; black outside the image. -/
def get (i : Image) (y x : Nat) : Pixel := i.pixels.toArray.getD (y * i.width + x) ⟨0, 0, 0⟩

/-- Positions are divided into rows and columns. -/
theorem get_div_mod (i : Image) {n : Nat} (h : n < i.height * i.width) :
    i.get (n / i.width) (n % i.width) = i.pixels[n] := by
  rw [get, Nat.div_add_mod']
  exact (Array.getElem_eq_getD _).symm

/-- The image of the given pixels; `none` unless they fill the rows. -/
def ofPixels? (width height : Nat) (pixels : Array Pixel) : Option Image :=
  if h : pixels.size = height * width then some ⟨width, height, ⟨pixels, h⟩⟩ else none

end Image

/-- The share of a colour in a plane, counted from blue. -/
def Pixel.plane (p : Pixel) : Nat → UInt8
  | 0 => p.blue
  | 1 => p.green
  | _ => p.red

/-! ## Between the two -/

/-- The sample of a share of colour. -/
def sampleOfByte (b : UInt8) : Float32 := Scalar.ratio b.toNat 255

/-- The nearest whole number of a sample between 0 and 255, halves rounded up. The whole part is cut
off first, so that the remainder is exact. -/
def roundSample (x : Float32) : Nat :=
  let whole := Scalar.truncate x
  if Scalar.le Scalar.half (x - Scalar.ofNat whole) then whole + 1 else whole

/-- The share of colour of a sample. It is held between 0 and 1; what is not a number counts as
nothing. -/
def byteOfSample (v : Float32) : UInt8 :=
  let held := if Scalar.lt v Scalar.zero then Scalar.zero
    else if Scalar.lt Scalar.one v then Scalar.one else v
  UInt8.ofNat (roundSample (held * Scalar.ofNat 255))

/-- The picture of an image. -/
def Picture.ofImage (i : Image) : Picture :=
  ofFn 3 i.height i.width fun c y x => sampleOfByte ((i.get y x).plane c)

/-- The largest extent of an image: `2 ^ 32 - 1`. -/
def maxImageExtent : Nat := 4294967295

/-- The image of a picture of three planes. -/
def Picture.toImage (p : Picture) : Except Fault Image :=
  if p.planes != 3 then .error (.invalid (.imagePlanes p.planes))
  else if maxImageExtent < p.width then .error (.invalid .tooWide)
  else if maxImageExtent < p.height then .error (.invalid .tooTall)
  else
    .ok ⟨p.width, p.height, Vector.ofFn fun i =>
      let byte (plane : Nat) : UInt8 := byteOfSample (p.get plane (i / p.width) (i % p.width))
      ⟨byte 2, byte 1, byte 0⟩⟩

end Midframe
