import Midframe.Png.Codec
import Midframe.Raster.Bitmap

/-!
# Icon files

A file lists images of several sizes and depths, of which the best is read. It is a bitmap without
the first part of its head, possibly with a mask behind it, or a whole PNG file.
-/

namespace Midframe

namespace Icon

open Raster

/-- An image in the list of a file. -/
structure Entry where
  /-- The number of columns, held at 256. -/
  width : Nat
  /-- The number of rows, held at 256. -/
  height : Nat
  /-- The bits of a pixel. -/
  depth : Nat
  /-- The number of bytes. -/
  length : Nat
  /-- Where the bytes start. -/
  start : Nat
deriving DecidableEq, Repr

/-- The largest number of planes and of bits of a pixel. -/
def maxDepth : Nat := 256

/-- An image in the list. An extent of zero stands for 256. -/
def readEntry (bytes : ByteArray) : ByteReader Entry := do
  let extent : ByteReader Nat := do
    let n ← byte bytes
    return if n == 0 then 256 else n
  let width ← extent
  let height ← extent
  skip bytes 2
  let planes ← littleEndian bytes 2
  let depth ← littleEndian bytes 2
  let length ← littleEndian bytes 4
  let start ← littleEndian bytes 4
  if maxDepth < planes || maxDepth < depth then failure
  else return ⟨width, height, depth, length, start⟩

/-- Whether an image has deeper pixels than another, or pixels of the same depth and more of
them. -/
def Entry.isBetter (e other : Entry) : Bool :=
  other.depth < e.depth ||
    (other.depth == e.depth && other.width * other.height < e.width * e.height)

/-- The best image. Of images alike the last one in the list counts, if it is among them, and
otherwise the first one. -/
def best? (entries : Array Entry) : Option Entry := do
  let last ← entries.back?
  return entries.foldl (fun best e => if e.isBetter best then e else best) last

/-- Whether the extents of an image are those in the list. -/
def Entry.isOf (e : Entry) (i : Image) : Bool :=
  e.width == min i.width 256 && e.height == min i.height 256

/-- The bitmap of an entry. Its mask, if there is one, takes the rest of the bytes. -/
def readBitmap (bytes : ByteArray) (e : Entry) : ByteReader Image := do
  let image ← Bitmap.readIcon bytes
  let stop := e.start + e.length
  let mask := (image.width + 31) / 32 * 4 * image.height
  let position ← get
  if !e.isOf image then failure
  else if position + mask ≤ stop then do
    skip bytes mask
    return image
  else if position == stop then return image
  else failure

/-- The PNG file of an entry, which has eight bits a colour and transparency. -/
def readPng (bytes : ByteArray) (e : Entry) : Option Image := do
  let file := bytes.extract e.start bytes.size
  let image ← Png.decode file
  let isKnown := file.data.getD 24 0 == 8 && file.data.getD 25 0 == 6
  if isKnown && e.isOf image && Png.signature.size ≤ e.length then some image else none

/-- The image of a file. -/
def readFile (bytes : ByteArray) : ByteReader Image := do
  skip bytes 4
  let count ← littleEndian bytes 2
  let entries ← many (readEntry bytes) #[] count
  let entry ← (best? entries : Option Entry)
  let first := bytes.extract entry.start (entry.start + Png.signature.size)
  if first.size < Png.signature.size then failure
  else if first.data == Png.signature.data then (readPng bytes entry : Option Image)
  else
    set entry.start
    readBitmap bytes entry

/-- The image that a file holds. -/
def decode (bytes : ByteArray) : Option Image := (readFile bytes 0).map Prod.fst

end Icon

end Midframe
