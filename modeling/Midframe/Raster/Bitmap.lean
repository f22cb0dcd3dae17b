import Midframe.Raster.Bytes

/-!
# Bitmap files

A file has a head of one of several sizes, possibly a palette, and rows of pixels from the place
that the head names on. Rows go from the bottom up unless the head gives a negative height, and each
takes a multiple of four bytes. A pixel is an index into the palette, or its colours side by side in
one number; indices may also come in runs.
-/

namespace Midframe

namespace Bitmap

open Raster

/-- The bits of a number that hold a colour. -/
structure Field where
  /-- The number of bits below them. -/
  shift : Nat
  /-- The number of bits, 8 at most. -/
  length : Nat
deriving DecidableEq, Repr

namespace Field

/-- The field whose bits are set in a mask; they are in one piece, not above `most` bits. Of more
than eight bits the upper ones count. -/
def ofMask? (most mask : Nat) : Option Field :=
  let shift := (List.range 32).takeWhile fun i => mask >>> i % 2 == 0
  let rest := mask >>> shift.length
  let length := ((List.range 32).takeWhile fun i => rest >>> i % 2 == 1).length
  if length == 0 || rest >>> length != 0 || most < shift.length + length then none
  else if 8 < length then some ⟨shift.length + length - 8, 8⟩
  else some ⟨shift.length, length⟩

/-- The colour in a number, brought to eight bits. -/
def read (f : Field) (number : Nat) : UInt8 :=
  let full := 1 <<< f.length - 1
  .ofNat ((2 * 255 * (number >>> f.shift % (full + 1)) + full) / (2 * full))

end Field

/-- How the colours of a pixel share a number. -/
structure Fields where
  /-- The share of red. -/
  red : Field
  /-- The share of green. -/
  green : Field
  /-- The share of blue. -/
  blue : Field
deriving DecidableEq, Repr

/-- Five bits for each colour, blue the lowest. -/
def fields555 : Fields := ⟨⟨10, 5⟩, ⟨5, 5⟩, ⟨0, 5⟩⟩

/-- Eight bits for each colour, blue the lowest. -/
def fields888 : Fields := ⟨⟨16, 8⟩, ⟨8, 8⟩, ⟨0, 8⟩⟩

/-- The pixel that a number stands for. -/
def Fields.pixel (f : Fields) (number : Nat) : Pixel :=
  ⟨f.red.read number, f.green.read number, f.blue.read number⟩

/-- What the rows of a file are made of. -/
inductive Coding
  /-- Indices of some bits. -/
  | indices (bits : Nat)
  /-- Runs of indices of some bits. -/
  | runs (bits : Nat)
  /-- Numbers of some bytes. -/
  | numbers (bytes : Nat) (fields : Fields)
  /-- Numbers of some bytes, whose fields are given behind the head. -/
  | masked (bytes : Nat)
deriving DecidableEq, Repr

/-- The head of a file. -/
structure Head where
  /-- Where the rows start, if not right behind what is in front of them. -/
  start : Option Nat
  /-- The number of columns. -/
  width : Nat
  /-- The number of rows. -/
  height : Nat
  /-- Whether the topmost row comes first. -/
  fromTop : Bool
  /-- What the rows are made of. -/
  coding : Coding
  /-- The number of colours of the palette, if it is given. -/
  colours : Nat
  /-- Where the head ends. -/
  stop : Nat
  /-- The bytes of a colour of the palette. -/
  colourBytes : Nat
deriving DecidableEq, Repr

/-- The largest extent of an image. -/
def maxExtent : Nat := 65535

/-! ## Heads -/

/-- The sizes of the longer heads. -/
def longHeads : List Nat := [40, 52, 56, 108, 124]

/-- The coding of plain pixels of some bits. -/
def plainCoding? : Nat → Option Coding
  | 1 => some (.indices 1)
  | 2 => some (.indices 2)
  | 4 => some (.indices 4)
  | 8 => some (.indices 8)
  | 16 => some (.numbers 2 fields555)
  | 24 => some (.numbers 3 fields888)
  | 32 => some (.numbers 4 fields888)
  | _ => none

/-- The coding of a kind and a number of bits. -/
def coding? (kind bits : Nat) : Option Coding :=
  match kind, bits with
  | 0, bits => plainCoding? bits
  | 1, 8 => some (.runs 8)
  | 2, 4 => some (.runs 4)
  | 3, 16 => some (.masked 2)
  | 3, 32 => some (.masked 4)
  | _, _ => none

/-- The short head, whose size has been read. -/
def readShortHead (bytes : ByteArray) (start : Option Nat) (stop : Nat) : ByteReader Head := do
  let width ← littleEndian bytes 2
  let height ← littleEndian bytes 2
  let planes ← littleEndian bytes 2
  let bits ← littleEndian bytes 2
  if planes != 1 || !(bits == 1 || bits == 4 || bits == 8 || bits == 24) then failure
  return ⟨start, width, height, false, ← plainCoding? bits, 0, stop, 3⟩

/-- A long head, whose size has been read. An image from top to bottom has no runs. -/
def readLongHead (bytes : ByteArray) (start : Option Nat) (stop : Nat) : ByteReader Head := do
  let width ← littleEndian bytes 4
  let signed ← littleEndian bytes 4
  let fromTop := 2147483648 ≤ signed
  let height := if fromTop then 4294967296 - signed else signed
  if maxExtent < width || (maxExtent < height && !fromTop) || height == 2147483648 then failure
  let planes ← littleEndian bytes 2
  if planes != 1 then failure
  let bits ← littleEndian bytes 2
  let kind ← littleEndian bytes 4
  if fromTop && kind != 0 && kind != 3 then failure
  let coding ← coding? kind bits
  skip bytes 12
  let colours ← littleEndian bytes 4
  skip bytes 4
  return ⟨start, width, height, fromTop, coding, colours, stop, 4⟩

/-- The head that describes an image, with its number of bytes. Every image has pixels. -/
def readHead (bytes : ByteArray) (start : Option Nat) : ByteReader (Head × Nat) := do
  let position ← get
  let size ← littleEndian bytes 4
  let stop := position + size
  let head ← if size == 12 then readShortHead bytes start stop
    else if longHeads.contains size then readLongHead bytes start stop
    else failure
  if head.width == 0 || head.height == 0 || !fits head.width head.height 3 then failure
  else return (head, size)

/-- The fields that masks give. -/
def readFields (bytes : ByteArray) (most size : Nat) : ByteReader Fields := do
  let field : ByteReader Field := do Field.ofMask? most (← littleEndian bytes 4)
  let fields : Fields := ⟨← field, ← field, ← field⟩
  if [40, 52].contains size then return fields
  else
    let transparency ← littleEndian bytes 4
    if transparency != 0 && (Field.ofMask? most transparency).isNone then failure
    return fields

/-- The colours of a palette. What is missing from it is black. -/
def readPalette (bytes : ByteArray) (h : Head) (bits : Nat) : ByteReader (Array Pixel) := do
  let full := 1 <<< bits
  if full < h.colours then failure
  set h.stop
  let colour : ByteReader Pixel := do
    let number ← littleEndian bytes h.colourBytes
    return fields888.pixel number
  many colour #[] (if h.colours == 0 then full else h.colours)

/-! ## Rows -/

/-- The index of some bits in a row of bytes, the highest bits of a byte first. -/
def indexAt (bytes : ByteArray) (start bits x : Nat) : Nat :=
  let b := (bytes.data.getD (start + x * bits / 8) 0).toNat
  b >>> (8 - bits - x * bits % 8) % (1 <<< bits)

/-- The pixels of some indices. -/
def indexed (bytes : ByteArray) (palette : Array Pixel) (bits count start : Nat) : Array Pixel :=
  Array.ofFn fun x : Fin count => palette.getD (indexAt bytes start bits x) black

/-- A row of indices. -/
def readIndexRow (bytes : ByteArray) (palette : Array Pixel) (bits width : Nat) :
    ByteReader (Array Pixel) := do
  let start ← get
  skip bytes ((bits * width + 31) / 32 * 4)
  return indexed bytes palette bits width start

/-- A row of numbers. -/
def readNumberRow (bytes : ByteArray) (size : Nat) (fields : Fields) (width : Nat) :
    ByteReader (Array Pixel) := do
  let pixel : ByteReader Pixel := do return fields.pixel (← littleEndian bytes size)
  let row ← many pixel #[] width
  skip bytes ((4 - size * width % 4) % 4)
  return row

/-- A row with black up to its end. -/
def filled (width : Nat) (row : Array Pixel) : Array Pixel :=
  row ++ Array.replicate (width - row.size) black

/-- The row that is being read: its pixels so far, and how many were asked for. -/
structure RunRow where
  /-- The pixels, which do not go beyond the row. -/
  pixels : Array Pixel := #[]
  /-- The column that the runs have reached, which may lie beyond the row. -/
  reached : Nat := 0

/-- The row with some more pixels. What does not fit is cut off if that is allowed, and fails
otherwise. -/
def RunRow.extend? (row : RunRow) (width : Nat) (isCut : Bool) (more : Array Pixel) :
    Option RunRow :=
  let room := width - row.pixels.size
  if more.size ≤ room || isCut then
    some ⟨row.pixels ++ more.extract 0 room, row.reached + more.size⟩
  else none

/-- The rows that runs stand for, the last row being read. A zero stands in front of an end, of a
step to the right and up, or of indices that are no run. Of all these, only the runs of whole bytes
may go beyond their row. The fuel bounds the number of runs. -/
def readRuns (bytes : ByteArray) (palette : Array Pixel) (bits width height : Nat)
    (rows : Array (Array Pixel)) (row : RunRow) : Nat → ByteReader (Array (Array Pixel))
  | 0 => failure
  | fuel + 1 => do
    let next (rows : Array (Array Pixel)) (row : RunRow) : ByteReader (Array (Array Pixel)) :=
      readRuns bytes palette bits width height rows row fuel
    let ended := rows.push (filled width row.pixels)
    let count ← byte bytes
    let value ← byte bytes
    if 0 < count then
      let run := Array.ofFn fun i : Fin count =>
        palette.getD (if bits == 8 then value else if i.val % 2 == 0 then value / 16
          else value % 16) black
      next rows (← row.extend? width (bits == 8) run)
    else match value with
      | 0 => if ended.size == height then return ended else next ended {}
      | 1 => return ended ++ Array.replicate (height - ended.size) (filled width #[])
      | 2 =>
        let right ← byte bytes
        let up ← byte bytes
        let blank (row : RunRow) (count : Nat) : Option RunRow :=
          row.extend? width false (Array.replicate count black)
        if up == 0 then next rows (← blank row right)
        else if height ≤ rows.size + up then failure
        else
          next (ended ++ Array.replicate (up - 1) (filled width #[]))
            (← blank (← blank {} row.reached) right)
      | count =>
        let start ← get
        let taken := (count * bits + 7) / 8
        skip bytes (taken + taken % 2)
        next rows (← row.extend? width false (indexed bytes palette bits count start))

/-- The rows of an image whose head of `size` bytes has been read. Masks stand behind some heads and
within others. -/
def readRows (bytes : ByteArray) (h : Head) (size : Nat) : ByteReader (Array (Array Pixel)) := do
  let goToStart : ByteReader Unit := match h.start with
    | some start => set start
    | none => return ()
  match h.coding with
  | .indices bits =>
    let palette ← readPalette bytes h bits
    goToStart
    many (readIndexRow bytes palette bits h.width) #[] h.height
  | .runs bits =>
    let palette ← readPalette bytes h bits
    goToStart
    readRuns bytes palette bits h.width h.height #[] {} (bytes.size + 1)
  | .numbers size fields =>
    set h.stop
    goToStart
    many (readNumberRow bytes size fields h.width) #[] h.height
  | .masked count =>
    let fields ← readFields bytes (8 * count) size
    set (if [40, 108, 124].contains size then h.stop + 12 else h.stop)
    goToStart
    many (readNumberRow bytes count fields h.width) #[] h.height

/-- The image of a head of `size` bytes. -/
def readImage (bytes : ByteArray) (h : Head) (size : Nat) : ByteReader Image := do
  let rows ← readRows bytes h size
  let rows := if h.fromTop then rows else rows.reverse
  (Image.ofPixels? h.width h.height (rows.foldl (· ++ ·) #[]) : Option Image)

/-- The image of a file. -/
def readFile (bytes : ByteArray) : ByteReader Image := do
  expect bytes "BM"
  skip bytes 8
  let start ← littleEndian bytes 4
  let (head, size) ← readHead bytes (some start)
  readImage bytes head size

/-- The image of an icon, which has no file of its own. The head counts the rows of a mask as
well. -/
def readIcon (bytes : ByteArray) : ByteReader Image := do
  let (head, size) ← readHead bytes none
  readImage bytes { head with height := head.height / 2 } size

/-- The image that a file holds. -/
def decode (bytes : ByteArray) : Option Image := (readFile bytes 0).map Prod.fst

end Bitmap

end Midframe
