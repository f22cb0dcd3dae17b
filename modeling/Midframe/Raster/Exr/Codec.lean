import Midframe.Raster.Exr.Packing

/-!
# EXR files

The image of an EXR file is what the first part with red, green and blue shows. Where its data does
not reach it is black. A table behind the head tells where the blocks of the parts are.
-/

namespace Midframe

namespace Exr

open Raster

/-! ## Samples -/

/-- The fraction of two bytes: a sign, five bits of an exponent, and ten of a mantissa. -/
def fraction (n : Nat) : Float32 :=
  let isNegative := n / 32768 == 1
  let exponent := n / 1024 % 32
  let mantissa := n % 1024
  if exponent == 0 then
    let size : Float32 := Scalar.ratio mantissa 16777216
    if isNegative then Scalar.zero - size else size
  else
    let exponent := if exponent == 31 then 255 else exponent + 112
    let sign := if isNegative then 2147483648 else 0
    .ofBits (.ofNat (sign + exponent * 8388608 + mantissa * 8192))

/-- The number of some bytes from a place on, the lowest first. -/
def numberAt (bytes : ByteArray) (start size : Nat) : Nat :=
  size.fold (fun k _ n => n + (bytes.data.getD (start + k) 0).toNat <<< (8 * k)) 0

/-- The sample from a place on. -/
def SampleType.sampleAt (t : SampleType) (bytes : ByteArray) (start : Nat) : Float32 :=
  let number := numberAt bytes start t.size
  match t with
  | .count => Scalar.ofNat number
  | .half => fraction number
  | .single => .ofBits (.ofNat number)

/-! ## Blocks -/

/-- A block. -/
structure Block where
  /-- The first column within the data. -/
  left : Nat
  /-- The first row within the data. -/
  top : Nat
  /-- The number of columns. -/
  width : Nat
  /-- The number of rows. -/
  height : Nat

/-- The block of some rows that lies at a row of the window. -/
def Part.rowBlock? (p : Part) (y : Int) : Option Block :=
  let index := (y - p.filled.top).tdiv p.rows
  let top := index.toNat * p.rows
  if index < 0 || p.filled.height ≤ top then none
  else some ⟨0, top, p.filled.width, min p.rows (p.filled.height - top)⟩

/-- The most levels. -/
def maxLevel : Nat := 31

/-- The block of a tile of a level. -/
def Part.tileBlock? (p : Part) (t : Tiling) (x y across down : Nat) : Option Block :=
  let left := x * t.width
  let top := y * t.height
  let width := t.extent p.filled.width across
  let height := t.extent p.filled.height down
  if maxLevel < across || maxLevel < down || width ≤ left || height ≤ top then none
  else some ⟨left, top, min t.width (width - left), min t.height (height - top)⟩

/-- A block of a part at a place of the file, and its samples. If there may be several parts, the
number of the part comes first. -/
def readBlock (bytes : ByteArray) (p : Part) (number : Option Nat) :
    ByteReader (Block × ByteArray) := do
  let isOther ← match number with
    | none => pure false
    | some n => do pure ((← readSigned bytes) != n)
  let block ← match p.tiling with
    | none => do
      let y ← readSigned bytes
      (p.rowBlock? y : Option Block)
    | some t => do
      let x ← readCount bytes
      let y ← readCount bytes
      let across ← readCount bytes
      let down ← readCount bytes
      (p.tileBlock? t x y across down : Option Block)
  let size ← readCount bytes
  let start ← get
  skip bytes size
  if isOther || p.blockBytes < size then failure
  else
    let data := bytes.extract start (start + size)
    let samples ← (p.unpack data block.width block.height : Option ByteArray)
    return (block, samples)

/-- The pixels shown by a part, with those of a block. -/
def Part.paint (p : Part) (canvas : Array Pixel) (block : Block) (samples : ByteArray) :
    Array Pixel :=
  let rowBytes := block.width * p.pixelBytes
  let share : Option (Nat × SampleType) → Nat → UInt8
    | none, _ => 0
    | some (start, type), i =>
      let place := i / block.width * rowBytes + start + i % block.width * type.size
      byteOfLight (type.sampleAt samples place)
  let red := p.channel? block.width "R"
  let green := p.channel? block.width "G"
  let blue := p.channel? block.width "B"
  (block.width * block.height).fold (fun i _ canvas =>
    let x := p.filled.left - p.shown.left + (block.left + i % block.width : Nat)
    let y := p.filled.top - p.shown.top + (block.top + i / block.width : Nat)
    if x < 0 || y < 0 || p.shown.width ≤ x || p.shown.height ≤ y then canvas
    else canvas.setIfInBounds (y.toNat * p.shown.width + x.toNat)
      ⟨share red i, share green i, share blue i⟩) canvas

/-- The pixels shown by a part, with those of the blocks at some places. -/
def Part.paintAll (p : Part) (bytes : ByteArray) (number : Option Nat) (canvas : Array Pixel) :
    List Nat → Option (Array Pixel)
  | [] => some canvas
  | place :: places =>
    match readBlock bytes p number place with
    | none => none
    | some ((block, samples), _) =>
      p.paintAll bytes number (p.paint canvas block samples) places

/-! ## Files -/

/-- The image of a file. -/
def readFile (bytes : ByteArray) : ByteReader Image := do
  let (parts, areMany) ← readHead bytes
  let index ← (parts.findIdx? fun p => p.has "R" && p.has "G" && p.has "B" : Option Nat)
  let part ← (parts[index]? : Option Part)
  let shown := part.shown
  if !fits shown.width shown.height (if part.has "A" then 16 else 12) then failure
  else
    let count (parts : Array Part) : Nat := parts.foldl (fun n p => n + p.allBlockCount) 0
    let before := count (parts.extract 0 index)
    let start ← get
    skip bytes (8 * count parts)
    set (start + 8 * before)
    let places ← many (littleEndian bytes 8) #[] part.blockCount
    let canvas := Array.replicate (shown.width * shown.height) black
    let number := if areMany then some index else none
    let pixels ← (part.paintAll bytes number canvas (places.toList.mergeSort) :
      Option (Array Pixel))
    (Image.ofPixels? shown.width shown.height pixels : Option Image)

/-- The image that a file holds. -/
def decode (bytes : ByteArray) : Option Image := (readFile bytes 0).map Prod.fst

end Exr

end Midframe
