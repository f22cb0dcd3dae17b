import Midframe.Picture
import Midframe.Png.Checksum
import Midframe.Raster.Deflate

/-!
# PNG files

Images are written as PNG files of eight bits a colour, unfiltered and stored without compression.
What is read may have any colour type and depth, may be interlaced, and is brought to eight bits a
colour. Transparency is dropped.
-/

namespace Midframe

namespace Png

open Deflate

/-! ## Writing -/

/-- The bytes that every file starts with. -/
def signature : ByteArray := ⟨#[137, 80, 78, 71, 13, 10, 26, 10]⟩

/-- A chunk: the length of its data, its type, its data, and the check of the latter two. -/
def chunk (type : String) (data : ByteArray) : ByteArray :=
  let checked := type.toUTF8 ++ data
  bytes32 data.size ++ checked ++ bytes32 (crc checked).toNat

/-- The rows of an image, each behind a zero for the absence of a filter. -/
def rawRows (image : Image) : ByteArray :=
  Nat.fold image.height (fun y _ out =>
    Nat.fold image.width (fun x _ out =>
      let p := image.get y x
      ((out.push p.red).push p.green).push p.blue) (out.push 0)) .empty

/-- The file of an image. -/
def encode (image : Image) : ByteArray :=
  let header := bytes32 image.width ++ bytes32 image.height ++ ⟨#[8, 2, 0, 0, 0]⟩
  signature ++ chunk "IHDR" header ++ chunk "IDAT" (store (rawRows image)) ++ chunk "IEND" .empty

/-! ## Chunks -/

/-- What the colours of a file are made of. -/
inductive ColourType
  /-- Shades of grey. -/
  | grey
  /-- Red, green and blue. -/
  | rgb
  /-- Indices into a palette. -/
  | palette
  /-- Shades of grey with transparency. -/
  | greyAlpha
  /-- Red, green and blue with transparency. -/
  | rgba
deriving DecidableEq, Repr

namespace ColourType

/-- The colour type of a number. -/
def ofNat? : Nat → Option ColourType
  | 0 => some grey
  | 2 => some rgb
  | 3 => some palette
  | 4 => some greyAlpha
  | 6 => some rgba
  | _ => none

/-- The number of samples of a pixel. -/
def samples : ColourType → Nat
  | grey | palette => 1
  | greyAlpha => 2
  | rgb => 3
  | rgba => 4

/-- The bits that a sample may have. -/
def depths : ColourType → List Nat
  | grey => [1, 2, 4, 8, 16]
  | palette => [1, 2, 4, 8]
  | rgb | greyAlpha | rgba => [8, 16]

end ColourType

/-- The head of a file. -/
structure Header where
  /-- The number of columns. -/
  width : Nat
  /-- The number of rows. -/
  height : Nat
  /-- The bits of a sample. -/
  depth : Nat
  /-- What a pixel is made of. -/
  colours : ColourType
  /-- Whether the rows come in seven passes. -/
  interlaced : Bool
deriving DecidableEq, Repr

namespace Header

/-- The bits of a pixel. -/
def pixelBits (h : Header) : Nat := h.depth * h.colours.samples

/-- The head that a chunk holds. -/
def ofBytes? (data : ByteArray) : Option Header := do
  let byte (i : Nat) : Nat := (data.data.getD i 255).toNat
  let colours ← ColourType.ofNat? (byte 9)
  let header : Header := ⟨word32 data 0, word32 data 4, byte 8, colours, byte 12 == 1⟩
  if data.size == 13 && 0 < header.width && 0 < header.height
      && colours.depths.contains header.depth && byte 10 == 0 && byte 11 == 0 && byte 12 ≤ 1 then
    some header
  else none

end Header

/-- What has been read of a file. -/
structure Parts where
  /-- The head, once it has been read. -/
  header : Option Header := none
  /-- The colours of the palette, three bytes each. -/
  palette : ByteArray := .empty
  /-- The compressed rows. -/
  rows : ByteArray := .empty

/-- Whether the four bytes of a chunk's type are those of a text. -/
def isType (kind : ByteArray) (type : String) : Bool := kind.data == type.toUTF8.data

/-- What has been read with one more chunk, if its data is well-formed. -/
def Parts.add (parts : Parts) (kind data : ByteArray) : Option Parts :=
  if isType kind "IHDR" then
    (Header.ofBytes? data).map fun header => { parts with header := some header }
  else if isType kind "PLTE" then some { parts with palette := data }
  else if isType kind "IDAT" then some { parts with rows := parts.rows ++ data }
  else some parts

/-- The chunks from a position up to the end of the file. -/
def readChunks (file : ByteArray) (parts : Parts) (start : Nat) : Nat → Option Parts
  | 0 => none
  | fuel + 1 =>
    let length := word32 file start
    let behind := start + 8 + length
    let checked := file.extract (start + 4) behind
    let data := file.extract (start + 8) behind
    if file.size < behind + 4 || word32 file behind != (crc checked).toNat then none
    else if isType (checked.extract 0 4) "IEND" then some parts
    else do readChunks file (← parts.add (checked.extract 0 4) data) (behind + 4) fuel

/-! ## Rows -/

/-- The one of three bytes around a byte that is nearest to the plane they span. -/
def paeth (left above corner : Nat) : Nat :=
  let p : Int := (left : Int) + above - corner
  let distance (n : Nat) : Nat := (p - n).natAbs
  if distance left ≤ distance above && distance left ≤ distance corner then left
  else if distance above ≤ distance corner then above
  else corner

/-- What a filter adds to a byte, from the bytes to the left, above, and at the corner. -/
def prediction (filter left above corner : Nat) : Nat :=
  match filter with
  | 1 => left
  | 2 => above
  | 3 => (left + above) / 2
  | 4 => paeth left above corner
  | _ => 0

/-- A row without its filter. `step` is the distance to the byte that counts as its left
neighbour. -/
def unfilter (filter step : Nat) (above row : ByteArray) : ByteArray :=
  Nat.fold row.size (fun i h out =>
    let left := if step ≤ i then (out.data.getD (i - step) 0).toNat else 0
    let corner := if step ≤ i then (above.data.getD (i - step) 0).toNat else 0
    out.push (row[i] + .ofNat (prediction filter left (above.data.getD i 0).toNat corner))) .empty

/-- The rows of one pass from a position on, the last one read being `above`, and the position
behind them. -/
def readRows (data : ByteArray) (size step : Nat) (above : ByteArray) (rows : Array ByteArray)
    (position : Nat) : Nat → Option (Array ByteArray × Nat)
  | 0 => some (rows, position)
  | count + 1 =>
    let behind := position + 1 + size
    let filter := (data.data.getD position 255).toNat
    if data.size < behind || 4 < filter then none
    else
      let row := unfilter filter step above (data.extract (position + 1) behind)
      readRows data size step row (rows.push row) behind count

/-- The pixels of one pass: the first column and row, and the steps between columns and rows. -/
structure Pass where
  /-- The first column. -/
  left : Nat
  /-- The first row. -/
  top : Nat
  /-- The columns from one pixel to the next. -/
  stepX : Nat
  /-- The rows from one pixel to the next. -/
  stepY : Nat
deriving DecidableEq, Repr

/-- The passes of a file. -/
def passes (interlaced : Bool) : List Pass :=
  if interlaced then
    [⟨0, 0, 8, 8⟩, ⟨4, 0, 8, 8⟩, ⟨0, 4, 4, 8⟩, ⟨2, 0, 4, 4⟩, ⟨0, 2, 2, 4⟩, ⟨1, 0, 2, 2⟩,
      ⟨0, 1, 1, 2⟩]
  else [⟨0, 0, 1, 1⟩]

/-- The rows of all passes, and of each the pixels it holds. -/
def readPasses (header : Header) (data : ByteArray) (position : Nat) :
    List Pass → Option (List (Pass × Array ByteArray))
  | [] => some []
  | pass :: rest => do
    let columns := (header.width + pass.stepX - 1 - pass.left) / pass.stepX
    let count := (header.height + pass.stepY - 1 - pass.top) / pass.stepY
    let size := (columns * header.pixelBits + 7) / 8
    let (rows, position) ← readRows data size (max 1 (header.pixelBits / 8)) .empty #[] position
      (if columns == 0 then 0 else count)
    return (pass, rows) :: (← readPasses header data position rest)

/-! ## Pixels -/

/-- A sample of a row, counted in samples. -/
def sampleAt (depth : Nat) (row : ByteArray) (i : Nat) : Nat :=
  let byte (i : Nat) : Nat := (row.data.getD i 0).toNat
  if depth == 16 then byte (2 * i) * 256 + byte (2 * i + 1)
  else byte (i * depth / 8) >>> (8 - depth - i * depth % 8) % (1 <<< depth)

/-- A sample in eight bits. -/
def toByte (depth value : Nat) : UInt8 :=
  .ofNat (if depth == 16 then (value + 128) / 257 else value * 255 / (1 <<< depth - 1))

/-- The pixel in a column of a row. -/
def pixelAt (header : Header) (palette row : ByteArray) (column : Nat) : Pixel :=
  let sample (k : Nat) : Nat := sampleAt header.depth row (column * header.colours.samples + k)
  let shade (k : Nat) : UInt8 := toByte header.depth (sample k)
  match header.colours with
  | .grey | .greyAlpha => ⟨shade 0, shade 0, shade 0⟩
  | .rgb | .rgba => ⟨shade 0, shade 1, shade 2⟩
  | .palette =>
    let colour (k : Nat) : UInt8 := palette.data.getD (sample 0 * 3 + k) 0
    ⟨colour 0, colour 1, colour 2⟩

/-- Whether a pass holds the pixel in a column and a row. -/
def Pass.holds (p : Pass) (x y : Nat) : Bool :=
  p.left ≤ x && p.top ≤ y && (x - p.left) % p.stepX == 0 && (y - p.top) % p.stepY == 0

/-- The pixel in a column and a row of the image. -/
def pixelOf (header : Header) (palette : ByteArray) (passes : List (Pass × Array ByteArray))
    (x y : Nat) : Pixel :=
  match passes.find? fun p => p.1.holds x y with
  | some (p, rows) =>
    pixelAt header palette (rows.getD ((y - p.top) / p.stepY) .empty) ((x - p.left) / p.stepX)
  | none => ⟨0, 0, 0⟩

/-- The image that a file holds. -/
def decode (file : ByteArray) : Option Image := do
  if (file.extract 0 8).data != signature.data then none
  else
    let parts ← readChunks file {} 8 (file.size / 12 + 1)
    let header ← parts.header
    let data ← inflate parts.rows
    let found ← readPasses header data 0 (passes header.interlaced)
    return ⟨header.width, header.height, Vector.ofFn fun i =>
      pixelOf header parts.palette found (i % header.width) (i / header.width)⟩

end Png

end Midframe
