import Midframe.Raster.Bytes

/-!
# TGA files

A file has a head of eighteen bytes, a comment, possibly a palette, and the pixels: indices, colours
or shades of grey, one after another or in packets. The head says at which corner the pixels start.
-/

namespace Midframe

namespace Targa

open Raster

/-- The head of a file. -/
structure Head where
  /-- The number of bytes of the comment. -/
  comment : Nat
  /-- Whether there is a palette: 1 if so. -/
  palette : Nat
  /-- What the pixels are: 1 indices, 2 colours, 3 shades; 8 is added if they come in packets. -/
  kind : Nat
  /-- The index of the first colour of the palette. -/
  firstColour : Nat
  /-- The number of colours of the palette. -/
  colours : Nat
  /-- The bits of a colour of the palette. -/
  colourBits : Nat
  /-- The number of columns. -/
  width : Nat
  /-- The number of rows. -/
  height : Nat
  /-- The bits of a pixel. -/
  depth : Nat
  /-- The corner at which the pixels start, and the bits of their opacity. -/
  layout : Nat
deriving DecidableEq, Repr

/-- The head of a file. -/
def readHead (bytes : ByteArray) : ByteReader Head := do
  let comment ← byte bytes
  let palette ← byte bytes
  let kind ← byte bytes
  let firstColour ← littleEndian bytes 2
  let colours ← littleEndian bytes 2
  let colourBits ← byte bytes
  skip bytes 4
  let width ← littleEndian bytes 2
  let height ← littleEndian bytes 2
  let depth ← byte bytes
  let layout ← byte bytes
  return ⟨comment, palette, kind, firstColour, colours, colourBits, width, height, depth, layout⟩

namespace Head

/-- Whether the pixels are indices. -/
def isIndexed (h : Head) : Bool := h.kind == 1 || h.kind == 9

/-- Whether the pixels have a colour. -/
def isColoured (h : Head) : Bool := h.isIndexed || h.kind == 2 || h.kind == 10

/-- Whether the pixels come in packets. -/
def isPacked (h : Head) : Bool := h.kind == 9 || h.kind == 10 || h.kind == 11

/-- The bits of the opacity. -/
def opacityBits (h : Head) : Nat := h.layout % 16

/-- The bytes of a pixel. -/
def pixelBytes (h : Head) : Nat := (h.depth + 7) / 8

/-- The bytes of a colour of the palette. -/
def colourBytes (h : Head) : Nat := (h.colourBits + 7) / 8

/-- The bits of a colour or a shade: of the palette if pixels are indices. -/
def colourDepth (h : Head) : Nat := if h.isIndexed then h.colourBits else h.depth

/-- Whether pixels of these bits can be read. -/
def isKnown (h : Head) : Bool :=
  0 < h.width && 0 < h.height &&
    (!h.isIndexed ||
      (h.palette == 1 && (h.depth == 8 || h.depth == 16) && h.depth ≤ h.colourBits)) &&
    (h.palette != 1 || (2 ≤ h.colourBytes && h.colourBytes ≤ 4)) &&
    h.opacityBits ≤ h.colourDepth &&
    match h.opacityBits, h.colourDepth - h.opacityBits with
    | 0, 32 | 8, 24 | 0, 24 | 1, 15 | 0, 15 | 0, 16 => h.isColoured
    | 8, 8 | 0, 8 | 8, 0 => !h.isColoured
    | _, _ => false

end Head

/-- The bytes of the pixels in packets, up to a number of them. The highest bit of the head of a
packet says that its one pixel is repeated. What a packet has beyond the last pixel is left out. The
fuel bounds the number of packets. -/
def readPackets (bytes : ByteArray) (pixelBytes size : Nat) (data : ByteArray) :
    Nat → ByteReader ByteArray
  | 0 => failure
  | fuel + 1 => do
    let room := size - data.size
    if room == 0 then return data
    let head ← byte bytes
    let count := head % 128 + 1
    let start ← get
    let length := if head < 128 then min (count * pixelBytes) room else pixelBytes
    skip bytes length
    let packet := bytes.extract start (start + length)
    let times := if head < 128 then 1 else min count (room / pixelBytes)
    readPackets bytes pixelBytes size (times.fold (fun _ _ data => data ++ packet) data) fuel

/-- Five bits of a colour in eight bits: the nearest share of the whole. -/
def widen (value : Nat) : UInt8 := .ofNat ((value % 32 * 255 * 2 + 31) / 62)

/-- The pixel of some bytes, from a position on: blue, green and red, all in two bytes or each in
one, or a shade of grey. -/
def pixelAt (h : Head) (data : ByteArray) (position : Nat) : Pixel :=
  let share (i : Nat) : Nat := (data.data.getD (position + i) 0).toNat
  if !h.isColoured then grey (.ofNat (share 0))
  else if h.colourDepth ≤ 16 then
    let number := share 0 + 256 * share 1
    ⟨widen (number / 1024), widen (number / 32), widen number⟩
  else ⟨.ofNat (share 2), .ofNat (share 1), .ofNat (share 0)⟩

/-- The pixel of an index. -/
def colourAt? (h : Head) (palette : ByteArray) (index : Nat) : Option Pixel :=
  let position := (index - h.firstColour) * h.colourBytes
  if h.firstColour ≤ index && position + h.colourBytes ≤ palette.size then
    some (pixelAt h palette position)
  else none

/-- Where the pixel in a column and a row of the image is found, counted in pixels. -/
def Head.source (h : Head) (x y : Nat) : Nat :=
  let x := if h.layout / 16 % 2 == 1 then h.width - 1 - x else x
  let y := if h.layout / 32 % 2 == 0 then h.height - 1 - y else y
  y * h.width + x

/-- The image of a file. -/
def readFile (bytes : ByteArray) : ByteReader Image := do
  let h ← readHead bytes
  if !h.isKnown || !fits h.width h.height 4 then failure
  skip bytes h.comment
  let start ← get
  if h.palette == 1 then skip bytes (h.colours * h.colourBytes)
  let palette := bytes.extract start (← get)
  let start ← get
  let size := h.width * h.height * h.pixelBytes
  let data ← if h.isPacked then readPackets bytes h.pixelBytes size .empty (size + 1) else do
    skip bytes size
    pure (bytes.extract start (start + size))
  let pixels ← (Array.range (h.width * h.height)).mapM fun i =>
    let position := h.source (i % h.width) (i / h.width) * h.pixelBytes
    if h.isIndexed then
      let index := (data.data.getD position 0).toNat +
        if h.pixelBytes == 2 then 256 * (data.data.getD (position + 1) 0).toNat else 0
      (colourAt? h palette index : Option Pixel)
    else some (pixelAt h data position)
  (Image.ofPixels? h.width h.height pixels : Option Image)

/-- The image that a file holds. -/
def decode (bytes : ByteArray) : Option Image := (readFile bytes 0).map Prod.fst

end Targa

end Midframe
