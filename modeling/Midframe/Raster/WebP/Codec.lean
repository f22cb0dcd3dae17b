import Midframe.Raster.Bytes
import Midframe.Raster.WebP.Transform

/-!
# WebP files

A WebP file consists of chunks, each behind its name and its size. The first one is a lossless
image, or tells of a canvas and what the other chunks are: a lossless image that fills the canvas,
or frames of an animation, the first of which is read. Images that were compressed with losses are
not known.
-/

namespace Midframe

namespace WebP

open Raster

/-! ## Images -/

/-- The mark at the start of a lossless image. -/
def imageMark : Nat := 0x2f

/-- The numbers of columns and rows at the start of a lossless image. -/
def readExtents (bytes : ByteArray) : Deflate.BitReader (Nat × Nat) := do
  let mark ← Deflate.bits bytes 8
  let width := 1 + (← Deflate.bits bytes 14)
  let height := 1 + (← Deflate.bits bytes 14)
  let _ ← Deflate.bit bytes
  let version ← Deflate.bits bytes 3
  if mark != imageMark || version != 0 then failure else return (width, height)

/-- The pixels of a lossless image, which must have these extents. -/
def texels? (bytes : ByteArray) (width height : Nat) : Option (Array Texel) := do
  let (extents, position) ← readExtents bytes 0
  if extents != (width, height) then none
  else
    let (texels, _) ← readTransformed bytes width height [] 5 position
    return texels

/-! ## Chunks -/

/-- A part of a file. -/
structure Chunk where
  /-- The name. -/
  name : String
  /-- Where the data starts. -/
  start : Nat
  /-- The number of bytes of the data. -/
  size : Nat
deriving DecidableEq, Repr

namespace Chunk

/-- Behind the data, which takes an even number of bytes. -/
def stop (c : Chunk) : Nat := c.start + c.size + c.size % 2

/-- The data. -/
def data (c : Chunk) (bytes : ByteArray) : ByteArray := bytes.extract c.start (c.start + c.size)

end Chunk

/-- A chunk up to its data. -/
def readChunk (bytes : ByteArray) : ByteReader Chunk := do
  let name ← many (byte bytes) #[] 4
  let size ← littleEndian bytes 4
  return ⟨.ofList (name.toList.map Char.ofNat), ← get, size⟩

/-- The bytes of a frame in front of its image, together with the head of that. -/
def frameHeadSize : Nat := 24

/-- The chunks that start in front of `limit`, behind those that were read before. A frame has the
head of its image. The fuel bounds the number of chunks. -/
def readChunks (bytes : ByteArray) (limit : Nat) (done : Array Chunk) :
    Nat → ByteReader (Array Chunk)
  | 0 => failure
  | fuel + 1 => fun position =>
    if limit ≤ position then some (done, position)
    else match readChunk bytes position with
      | none => some (done, position)
      | some (chunk, start) =>
        if chunk.name == "ANMF" &&
            (chunk.size < frameHeadSize || bytes.size < start + frameHeadSize) then none
        else readChunks bytes limit (done.push chunk) fuel chunk.stop

/-- The first chunk of a name. -/
def chunk? (chunks : Array Chunk) (name : String) : Option Chunk := chunks.find? (·.name == name)

/-! ## Animations -/

/-- A share of colour on an empty canvas, by its opacity: that of an opaque pixel as it is, and
otherwise what is left of multiplying and dividing by the opacity. -/
def shareOnCanvas (alpha share : UInt8) : UInt8 :=
  if alpha == 0 then 0
  else if alpha == 255 then share
  else
    let scale := 16777216 / alpha.toNat
    .ofNat (share.toNat * alpha.toNat * scale / 16777216)

/-- The colour of a pixel on an empty canvas. -/
def Texel.onCanvas (t : Texel) : Texel :=
  ⟨shareOnCanvas t.alpha t.red, shareOnCanvas t.alpha t.green, shareOnCanvas t.alpha t.blue,
    t.alpha⟩

/-- The pixels of a canvas of some extents with a frame on it. -/
def readFrame (bytes : ByteArray) (frame : Chunk) (width height : Nat) :
    ByteReader (Nat → Nat → Texel) := do
  let number := littleEndian bytes 3
  set frame.start
  let left := 2 * (← number)
  let top := 2 * (← number)
  let columns := 1 + (← number)
  let rows := 1 + (← number)
  skip bytes 3
  let flags ← byte bytes
  let image ← readChunk bytes
  if columns > 16384 || rows > 16384 || left + columns > width || top + rows > height ||
      image.name != "VP8L" || frame.size < frameHeadSize + 8 ||
      frame.size < image.size + image.size % 2 + frameHeadSize then
    failure
  else
    let texels ← (texels? (image.data bytes) columns rows : Option (Array Texel))
    return fun x y =>
      if x < left || y < top || left + columns ≤ x || top + rows ≤ y then .clear
      else
        let t := texels.getD ((y - top) * columns + (x - left)) .clear
        if flags / 2 % 2 == 0 then t.onCanvas else t

/-! ## Files -/

/-- The image of some pixels, each of which takes some bytes. -/
def image? (width height texelBytes : Nat) (texel : Nat → Nat → Texel) : Option Image :=
  if !fits width height texelBytes then none
  else some ⟨width, height, Vector.ofFn fun i =>
    let t := texel (i % width) (i / width)
    ⟨t.red, t.green, t.blue⟩⟩

/-- The largest extent of an image in a file of its own. -/
def maxExtent : Nat := 16383

/-- The image of the chunk of a lossless image. -/
def readSimple (bytes : ByteArray) (chunk : Chunk) : Option Image := do
  let data := chunk.data bytes
  let ((width, height), _) ← readExtents data 0
  let texels ← if maxExtent < width || maxExtent < height || !fits width height 3 then none
    else texels? data width height
  image? width height 3 fun x y => texels.getD (y * width + x) .clear

/-- The image of a canvas: a lossless image, or the first frame of an animation, which must have the
chunk about animations. What else is announced must be there as well. -/
def readCanvas (bytes : ByteArray) (chunk : Chunk) (fileSize : Nat) : ByteReader Image := do
  let flags ← byte bytes
  let number := littleEndian bytes 3
  skip bytes 3
  let width := 1 + (← number)
  let height := 1 + (← number)
  let texelBytes := if flags / 16 % 2 == 1 then 4 else 3
  set chunk.stop
  let chunks ← readChunks bytes (chunk.stop + (fileSize - 12)) #[] (bytes.size + 1)
  let has (name : String) : Bool := (chunk? chunks name).isSome
  let isAnimated := flags / 2 % 2 == 1
  if !fits width height texelBytes || (flags / 8 % 2 == 1 && !has "EXIF") ||
      (flags / 4 % 2 == 1 && !has "XMP ") || (!isAnimated && has "VP8 ") then
    failure
  else if isAnimated then
    let about ← (chunk? chunks "ANIM" : Option Chunk)
    let frame ← (chunk? chunks "ANMF" : Option Chunk)
    if about.size != 6 || bytes.size < about.start + about.size then failure
    else (image? width height texelBytes (← readFrame bytes frame width height) : Option Image)
  else
    let image ← (chunk? chunks "VP8L" : Option Chunk)
    let texels ← (texels? (image.data bytes) width height : Option (Array Texel))
    (image? width height texelBytes fun x y => texels.getD (y * width + x) .clear : Option Image)

/-- The image of a file. -/
def readFile (bytes : ByteArray) : ByteReader Image := do
  let file ← readChunk bytes
  expect bytes "WEBP"
  let chunk ← readChunk bytes
  if file.name != "RIFF" then failure
  else match chunk.name with
    | "VP8L" => (readSimple bytes chunk : Option Image)
    | "VP8X" => readCanvas bytes chunk file.size
    | _ => failure

/-- The image that a file holds. -/
def decode (bytes : ByteArray) : Option Image := (readFile bytes 0).map Prod.fst

end WebP

end Midframe
