import Midframe.Raster.Bytes

/-!
# Heads of EXR files

An EXR file holds one part or several, each of which is described by attributes: a name, a type and
data. What a part shows lies in a window; its data fills another one, which may lie elsewhere. The
data is cut into blocks: of some rows, or tiles, of which there may also be smaller copies of the
image, called levels.
-/

namespace Midframe

namespace Exr

open Raster

/-- A number with a sign, of the four bytes of one without. -/
def signed (n : Nat) : Int := if n < 2147483648 then n else (n : Int) - 4294967296

/-- A number with a sign. -/
def readSigned (bytes : ByteArray) : ByteReader Int := do return signed (← littleEndian bytes 4)

/-- A number with a sign that is no less than zero. -/
def readCount (bytes : ByteArray) : ByteReader Nat := do
  let n ← littleEndian bytes 4
  if n < 2147483648 then return n else failure

/-- A name: a byte, and more of them up to a zero. -/
def readName (bytes : ByteArray) (longest : Nat) : ByteReader String := fun position =>
  let start := position + 1
  let rest := (bytes.extract start (start + longest)).toList.takeWhile (· != 0)
  let stop := start + rest.length
  if stop < bytes.size && rest.length < longest then
    let letters := (bytes.extract position stop).toList
    some (.ofList (letters.map fun b => Char.ofNat b.toNat), stop + 1)
  else none

/-- Passes over the zero that ends a sequence, if it is there. -/
def readEnd (bytes : ByteArray) : ByteReader Bool := fun position =>
  if h : position < bytes.size then
    if bytes[position] == 0 then some (true, position + 1) else some (false, position)
  else none

/-! ## Attributes -/

/-- An attribute of a part. -/
structure Attribute where
  /-- The name. -/
  name : String
  /-- The type. -/
  type : String
  /-- The data. -/
  data : ByteArray

/-- The attributes of a part, the last one first, in front of those that were read before. The fuel
bounds their number. -/
def readAttributes (bytes : ByteArray) (longest : Nat) (done : List Attribute) :
    Nat → ByteReader (List Attribute)
  | 0 => failure
  | fuel + 1 => do
    if ← readEnd bytes then return done
    else
      let name ← readName bytes longest
      let type ← readName bytes longest
      let size ← readCount bytes
      let start ← get
      skip bytes size
      let next := ⟨name, type, bytes.extract start (start + size)⟩
      readAttributes bytes longest (next :: done) fuel

/-- The last value of a name and a type. Data that cannot be read is passed over. -/
def value? {α : Type} (attributes : List Attribute) (name type : String)
    (read : ByteArray → ByteReader α) : Option α :=
  attributes.findSome? fun a =>
    if a.name == name && a.type == type then (read a.data 0).map Prod.fst else none

/-! ## Windows -/

/-- A rectangle of pixels. -/
structure Window where
  /-- The first column. -/
  left : Int
  /-- The first row. -/
  top : Int
  /-- The number of columns. -/
  width : Nat
  /-- The number of rows. -/
  height : Nat
deriving DecidableEq, Repr

/-- What the columns and rows of windows stay below, and above if they are negative. -/
def reach : Int := 1073741823

/-- A window, given by two of its corners. -/
def readWindow (bytes : ByteArray) : ByteReader Window := do
  let a ← readSigned bytes
  let b ← readSigned bytes
  let c ← readSigned bytes
  let d ← readSigned bytes
  let left := min a c
  let top := min b d
  let right := max a c + 1
  let bottom := max b d + 1
  if reach ≤ right || reach ≤ bottom || left ≤ -reach || top ≤ -reach then failure
  else return ⟨left, top, (right - left).toNat, (bottom - top).toNat⟩

/-! ## Channels -/

/-- What the samples of a channel are. -/
inductive SampleType
  /-- Whole numbers of four bytes. -/
  | count
  /-- Fractions of two bytes. -/
  | half
  /-- Fractions of four bytes. -/
  | single
deriving DecidableEq, Repr

namespace SampleType

/-- The bytes of a sample. -/
def size : SampleType → Nat
  | count => 4
  | half => 2
  | single => 4

/-- The type of a number. -/
def ofNat? : Nat → Option SampleType
  | 0 => some count
  | 1 => some half
  | 2 => some single
  | _ => none

end SampleType

/-- A channel. -/
structure Channel where
  /-- The name. -/
  name : String
  /-- What its samples are. -/
  type : SampleType
deriving DecidableEq, Repr

/-- The bytes of a sample of each of some channels. -/
def sampleBytes (channels : Array Channel) : Nat := channels.foldl (fun n c => n + c.type.size) 0

/-- The longest name of a channel. -/
def longestChannelName : Nat := 256

/-- A channel. It has a sample for every pixel. -/
def readChannel (bytes : ByteArray) : ByteReader Channel := do
  let name ← readName bytes longestChannelName
  let type ← (SampleType.ofNat? (← littleEndian bytes 4) : Option SampleType)
  let isLinear ← byte bytes
  skip bytes 3
  let across ← readCount bytes
  let down ← readCount bytes
  if 1 < isLinear || across != 1 || down != 1 then failure else return ⟨name, type⟩

/-- The channels, behind those that were read before. There is one at least, and they are in the
order of their names. The fuel bounds their number. -/
def readChannels (bytes : ByteArray) (done : Array Channel) : Nat → ByteReader (Array Channel)
  | 0 => failure
  | fuel + 1 => do
    if ← readEnd bytes then if done.isEmpty then failure else return done
    else
      let channel ← readChannel bytes
      if done.back?.any fun before => decide (channel.name < before.name) then failure
      else readChannels bytes (done.push channel) fuel

/-! ## Tiles -/

/-- How tiles are laid out. -/
structure Tiling where
  /-- The number of columns of a tile. -/
  width : Nat
  /-- The number of rows of a tile. -/
  height : Nat
  /-- Of what there are levels: of nothing, of the image, or of its columns and of its rows. -/
  levels : Nat
  /-- Whether the extents of levels are rounded up. -/
  roundsUp : Bool
deriving DecidableEq, Repr

namespace Tiling

/-- Tiles. -/
def readFrom (bytes : ByteArray) : ByteReader Tiling := do
  let width ← littleEndian bytes 4
  let height ← littleEndian bytes 4
  let mode ← byte bytes
  if 2 < mode % 16 || 1 < mode / 16 then failure
  else return ⟨width, height, mode % 16, mode / 16 == 1⟩

/-- Whether tiles have pixels, and not too many of them. -/
def isSound (t : Tiling) : Bool :=
  0 < t.width && 0 < t.height && t.width < reach.toNat && t.height < reach.toNat

/-- An extent at a level: it is halved as often as the level says. -/
def extent (t : Tiling) (whole level : Nat) : Nat :=
  max 1 ((if t.roundsUp then whole + (1 <<< level - 1) else whole) >>> level)

/-- The number of levels of an extent. -/
def levelCount (t : Tiling) (whole : Nat) : Nat :=
  1 + (if t.roundsUp then 2 * whole - 1 else whole).log2

/-- The number of tiles of an image of some extents. -/
def count (t : Tiling) (width height : Nat) : Nat :=
  ((width + t.width - 1) / t.width) * ((height + t.height - 1) / t.height)

/-- The number of tiles of all levels of an image of some extents. -/
def countAll (t : Tiling) (width height : Nat) : Nat :=
  let ofLevel (across down : Nat) : Nat := t.count (t.extent width across) (t.extent height down)
  match t.levels with
  | 0 => t.count width height
  | 1 => (t.levelCount (max width height)).fold (fun n _ all => all + ofLevel n n) 0
  | _ => (t.levelCount height).fold (fun down _ all =>
      (t.levelCount width).fold (fun across _ all => all + ofLevel across down) all) 0

end Tiling

/-! ## Parts -/

/-- How blocks are packed. -/
inductive Packing
  /-- Not at all. -/
  | none
  /-- In runs of equal bytes. -/
  | runs
  /-- With DEFLATE. -/
  | deflate
  /-- With DEFLATE, and shorter fractions. -/
  | shortened
  /-- In a way that is not known. -/
  | unknown
deriving DecidableEq, Repr

/-- The packing of a number, and the rows of a block. -/
def Packing.ofNat? : Nat → Option (Packing × Nat)
  | 0 => some (none, 1)
  | 1 => some (runs, 1)
  | 2 => some (deflate, 1)
  | 3 => some (deflate, 16)
  | 5 => some (shortened, 16)
  | 4 | 6 | 7 | 8 => some (unknown, 32)
  | 9 => some (unknown, 256)
  | _ => Option.none

/-- A part of a file. -/
structure Part where
  /-- What it shows. -/
  shown : Window
  /-- Where its data lies. -/
  filled : Window
  /-- The channels. -/
  channels : Array Channel
  /-- How blocks are packed. -/
  packing : Packing
  /-- The number of rows of a block, if these are no tiles. -/
  rows : Nat
  /-- The tiles, if blocks are tiles. -/
  tiling : Option Tiling

namespace Part

/-- The bytes of a pixel. -/
def pixelBytes (p : Part) : Nat := sampleBytes p.channels

/-- The most bytes of a block. -/
def blockBytes (p : Part) : Nat :=
  p.pixelBytes * match p.tiling with
    | none => p.rows * p.filled.width
    | some t => t.width * t.height

/-- The number of blocks of the image itself. These come in front of those of its levels. -/
def blockCount (p : Part) : Nat :=
  match p.tiling with
  | none => (p.filled.height + p.rows - 1) / p.rows
  | some t => t.count p.filled.width p.filled.height

/-- The number of blocks, together with those of levels. -/
def allBlockCount (p : Part) : Nat :=
  match p.tiling with
  | none => p.blockCount
  | some t => t.countAll p.filled.width p.filled.height

/-- Where the samples of a channel start in a row of so many pixels, and what they are. -/
def channel? (p : Part) (width : Nat) (name : String) : Option (Nat × SampleType) := do
  let index ← p.channels.findIdx? (·.name == name)
  let channel ← p.channels[index]?
  return (width * sampleBytes (p.channels.extract 0 index), channel.type)

/-- Whether a channel is there. -/
def has (p : Part) (name : String) : Bool := p.channels.any (·.name == name)

end Part

/-- A text that takes all of the data. -/
def readText (bytes : ByteArray) : ByteReader String := fun position =>
  some (.ofList (bytes.toList.map fun b => Char.ofNat b.toNat), position)

/-- A part. Blocks are tiles if its type says so, or if it has no type and the file says so. -/
def readPart (bytes : ByteArray) (longest : Nat) (isTiled : Bool) : ByteReader Part := do
  let attributes ← readAttributes bytes longest [] (bytes.size + 1)
  let number (data : ByteArray) : ByteReader (Packing × Nat) := do
    (Packing.ofNat? (← byte data) : Option (Packing × Nat))
  let channels (data : ByteArray) : ByteReader (Array Channel) :=
    readChannels data #[] (data.size + 1)
  let (packing, rows) ←
    (value? attributes "compression" "compression" number : Option (Packing × Nat))
  let shown ← (value? attributes "displayWindow" "box2i" readWindow : Option Window)
  let filled ← (value? attributes "dataWindow" "box2i" readWindow : Option Window)
  let channels ← (value? attributes "channels" "chlist" channels : Option (Array Channel))
  let tiling := value? attributes "tiles" "tiledesc" Tiling.readFrom
  let isTiled ← match value? attributes "type" "string" readText with
    | some "scanlineimage" => pure false
    | some "tiledimage" => pure true
    | some _ => failure
    | none => pure isTiled
  let isNegative (name : String) : Bool := (value? attributes name "int" readSigned).any (· < 0)
  if !tiling.all Tiling.isSound || (isTiled && tiling.isNone) || isNegative "chunkCount" ||
      isNegative "maxSamplesPerPixel" then
    failure
  else return ⟨shown, filled, channels, packing, rows, if isTiled then tiling else none⟩

/-- The parts up to the end of their sequence, behind those that were read before. The fuel bounds
their number. -/
def readParts (bytes : ByteArray) (longest : Nat) (done : Array Part) :
    Nat → ByteReader (Array Part)
  | 0 => failure
  | fuel + 1 => do
    if ← readEnd bytes then return done
    else readParts bytes longest (done.push (← readPart bytes longest false)) fuel

/-- The parts of a file, and whether there may be several. The flags behind the version say this,
whether the only part has tiles, and how long names may be. -/
def readHead (bytes : ByteArray) : ByteReader (Array Part × Bool) := do
  let mark ← littleEndian bytes 4
  let flags ← littleEndian bytes 4
  let version := flags % 16
  let flag (n : Nat) : Bool := flags.testBit n
  let longest := if flag 10 then 256 else 32
  if mark != 20000630 || flags >>> 13 != 0 || flag 11 || (flag 9 && flag 12) ||
      !(version == 2 || (version == 1 && !flag 12)) then
    failure
  else if flag 12 then return (← readParts bytes longest #[] (bytes.size + 1), true)
  else return (#[← readPart bytes longest (flag 9)], false)

end Exr

end Midframe
