import Midframe.Raster.Tiff.Directory
import Midframe.Raster.Tiff.Packing

/-!
# TIFF files

The image of a TIFF file is cut into strips or tiles, each of which is packed on its own. Samples
may be told by what they have more than the ones in front of them. Shades of grey, red, green and
blue, or the four inks of print are known, of so many bits that they are whole bytes, or of one bit.
-/

namespace Midframe

namespace Tiff

open Raster

/-! ## What a file says -/

/-- What the samples of a pixel are. -/
inductive Colours
  /-- A shade of grey, and whether the greatest sample is black. -/
  | grey (isInverted : Bool)
  /-- Red, green and blue, possibly with transparency. -/
  | rgb
  /-- The four inks: cyan, magenta, yellow and black. -/
  | inks
deriving DecidableEq, Repr

/-- How samples are told by the ones in front of them. -/
inductive Prediction
  /-- Not at all. -/
  | none
  /-- By what is added to the sample of the pixel to the left. -/
  | difference
  /-- By what is added to a byte of the pixel to the left, the bytes of a row being sorted by their
  weight. -/
  | bytes
deriving DecidableEq, Repr

/-- An image of a file. -/
structure Plan where
  /-- The number of columns. -/
  width : Nat
  /-- The number of rows. -/
  height : Nat
  /-- What the samples are. -/
  colours : Colours
  /-- The number of samples of a pixel. -/
  samples : Nat
  /-- The bits of a sample. -/
  bits : Nat
  /-- How samples are packed. -/
  packing : Packing
  /-- How samples are told. -/
  prediction : Prediction
  /-- The number of columns of a piece. -/
  pieceWidth : Nat
  /-- The number of rows of a piece. -/
  pieceHeight : Nat
  /-- Where the pieces are, and how many bytes they take. -/
  pieces : Array (Nat × Nat)

namespace Plan

/-- The bytes of a row of so many pixels. -/
def rowBytes (p : Plan) (columns : Nat) : Nat := (columns * p.samples * p.bits + 7) / 8

/-- The number of pieces side by side. -/
def across (p : Plan) : Nat := (p.width + p.pieceWidth - 1) / p.pieceWidth

/-- The number of pieces one below the other. -/
def down (p : Plan) : Nat := (p.height + p.pieceHeight - 1) / p.pieceHeight

/-- The bytes that the pixels of the image take. -/
def size (p : Plan) : Nat :=
  let shares := match p.colours with
    | .grey _ => 1
    | _ => p.samples
  p.width * p.height * shares * ((p.bits + 7) / 8)

/-- Whether the pieces and their bytes can be held, and pieces side by side end at whole bytes. -/
def isSound (p : Plan) : Bool :=
  2 * p.size ≤ maxBytes && p.pieces.size == p.across * p.down &&
    p.pieces.all (fun (_, length) => length + 2 * p.size ≤ maxBytes) &&
    (p.across ≤ 1 || p.pieceWidth * p.samples * p.bits % 8 == 0)

end Plan

/-- What the samples of a pixel are: by a number, their count, and their bits. -/
def Colours.ofNat? (kind samples bits : Nat) : Option Colours :=
  match kind, samples with
  | 0, 1 => if [1, 8, 16].contains bits then some (grey true) else none
  | 1, 1 => if [1, 8, 16].contains bits then some (grey false) else none
  | 2, 3 | 2, 4 => if [8, 16, 32].contains bits then some rgb else none
  | 5, 4 => if [8, 16].contains bits then some inks else none
  | _, _ => none

/-- How samples are told, by a number. Only samples of whole bytes can be told by others, and only
fractions by the bytes of others. -/
def Prediction.ofNat? (number bits : Nat) (isFraction : Bool) : Option Prediction :=
  match number with
  | 1 => some .none
  | 2 => if bits < 8 then Option.none else some .difference
  | 3 => if isFraction then some .bytes else Option.none
  | _ => Option.none

/-- Whether samples of some bits are fractions; `none` if their formats are not known. Without
formats they are no fractions. -/
def isFraction? (bits : Nat) (formats : List Nat) : Option Bool :=
  if formats.isEmpty then none
  else if formats.all (· == 1) && bits ≤ 16 then some false
  else if formats.all (· == 3) && bits == 32 then some true
  else none

/-- The tags of what is needed. -/
structure Tags where
  /-- The number of columns. -/
  width : Nat := 256
  /-- The number of rows. -/
  height : Nat := 257
  /-- The bits of the samples. -/
  bits : Nat := 258
  /-- The packing. -/
  packing : Nat := 259
  /-- What the samples are. -/
  colours : Nat := 262
  /-- Where the strips are. -/
  strips : Nat := 273
  /-- The number of samples of a pixel. -/
  samples : Nat := 277
  /-- The number of rows of a strip. -/
  stripHeight : Nat := 278
  /-- How many bytes the strips take. -/
  stripBytes : Nat := 279
  /-- Whether the samples of a pixel are together. -/
  planes : Nat := 284
  /-- The prediction. -/
  prediction : Nat := 317
  /-- The number of columns of a tile. -/
  tileWidth : Nat := 322
  /-- The number of rows of a tile. -/
  tileHeight : Nat := 323
  /-- Where the tiles are. -/
  tiles : Nat := 324
  /-- How many bytes the tiles take. -/
  tileBytes : Nat := 325
  /-- The formats of the samples. -/
  formats : Nat := 339

/-- The bits of the samples, which all have the same. -/
def sampleBits? (samples : Nat) : List Nat → Option Nat
  | [] => none
  | n :: rest =>
    if rest.all (· == n) && n < 256 && (rest.isEmpty || rest.length + 1 == samples) then some n
    else none

/-- What a file says of its image. -/
def plan? (f : File) : Option Plan := do
  let tags : Tags := {}
  let width ← f.number? tags.width none false
  let height ← f.number? tags.height none false
  let samples ← f.number? tags.samples (some 1) true
  let bits ← sampleBits? samples (← f.numbers? tags.bits (some [1]))
  let colours ← Colours.ofNat? (← f.number? tags.colours none true) samples bits
  let isFraction ← if f.has tags.formats then isFraction? bits (← f.numbers? tags.formats none)
    else some false
  let packing ← Packing.ofNat? (← f.number? tags.packing (some 1) true)
  let prediction ← Prediction.ofNat? (← f.number? tags.prediction (some 1) true) bits isFraction
  let planes ← f.number? tags.planes (some 1) true
  let isStrips := f.has tags.strips && f.has tags.stripBytes
  let isTiles := f.has tags.tiles && f.has tags.tileBytes
  let isMixed := if isStrips then f.has tags.tiles || f.has tags.tileBytes
    else f.has tags.strips || f.has tags.stripBytes
  if width == 0 || height == 0 || planes != 1 || isMixed || !(isStrips || isTiles) then none
  else
    let pieceWidth ← if isStrips then some width else f.number? tags.tileWidth none false
    let pieceHeight ← if isStrips then f.number? tags.stripHeight (some height) false
      else f.number? tags.tileHeight none false
    let places ← f.numbers? (if isStrips then tags.strips else tags.tiles) none
    let lengths ← f.numbers? (if isStrips then tags.stripBytes else tags.tileBytes) none
    let plan : Plan := ⟨width, height, colours, samples, bits, packing, prediction, pieceWidth,
      pieceHeight, (places.zip lengths).toArray⟩
    if pieceWidth == 0 || pieceHeight == 0 || places.length != lengths.length || !plan.isSound then
      none
    else some plan

/-! ## Samples -/

/-- The samples of a row of bytes, none of them told by others. -/
def rowSamples (l : Layout) (bits count : Nat) (row : ByteArray) : Array Nat :=
  let share (i : Nat) : Nat := (row.data.getD i 0).toNat
  Array.ofFn fun i : Fin count =>
    if bits < 8 then share (i * bits / 8) >>> (8 - bits - i * bits % 8) % (1 <<< bits)
    else
      let size := bits / 8
      size.fold (fun k _ n =>
        256 * n + share (i * size + if l.highFirst then k else size - 1 - k)) 0

/-- The samples of a row that are told by what is added to the one `step` in front of them. -/
def addUp (modulus step : Nat) (row : Array Nat) : Array Nat :=
  row.size.fold (fun i _ out =>
    let before := if step ≤ i then out.getD (i - step) 0 else 0
    out.push ((before + row.getD i 0) % modulus)) #[]

/-- The samples of a row of bytes of a whole piece, as far as they belong to the image. -/
def Plan.readRow (p : Plan) (l : Layout) (columns : Nat) (row : ByteArray) : Array Nat :=
  let count := columns * p.samples
  match p.prediction with
  | .none => rowSamples l p.bits count row
  | .difference => addUp (1 <<< p.bits) p.samples (rowSamples l p.bits count row)
  | .bytes =>
    let shares := addUp 256 p.samples (row.data.map UInt8.toNat)
    let weight := shares.size / 4
    Array.ofFn fun i : Fin count =>
      Nat.fold 4 (fun k _ n => 256 * n + shares.getD (k * weight + i) 0) 0

/-- The rows of a piece: those that belong to the image. Rows are as long as the piece is wide, but
of the last one only what belongs to the image is needed, unless the bytes of rows are sorted. -/
def Plan.readPiece (p : Plan) (f : File) (index : Nat) : Option (Array (Array Nat)) := do
  let (place, length) ← p.pieces[index]?
  let columns := min p.pieceWidth (p.width - index % p.across * p.pieceWidth)
  let rows := min p.pieceHeight (p.height - index / p.across * p.pieceHeight)
  let step := p.rowBytes p.pieceWidth
  let last := if p.prediction == .bytes then step else p.rowBytes columns
  let data ← p.packing.unpack f.bytes place length ((rows - 1) * step + last)
  return Array.ofFn fun y : Fin rows =>
    p.readRow f.layout columns (data.extract (y * step) ((y + 1) * step))

/-! ## Pixels -/

/-- A share of a colour in the light that inks leave, out of `full`. What is left of a whole is cut
off. -/
def inkShare (full ink black : Nat) : Nat :=
  let rest : Float32 := Scalar.one - Scalar.ratio black full
  Scalar.truncate (Scalar.ofNat (full - ink) * rest)

/-- A sample in eight bits. -/
def toByte (bits value : Nat) : UInt8 :=
  match bits with
  | 1 => .ofNat (value * 255)
  | 8 => .ofNat value
  | 16 => narrow value
  | _ => byteOfLight (Float32.ofBits (.ofNat value))

/-- The pixel of some samples. -/
def Plan.pixel (p : Plan) (sample : Nat → Nat) : Pixel :=
  let full := 1 <<< p.bits - 1
  match p.colours with
  | .grey isInverted =>
    grey (toByte p.bits (if isInverted then full - sample 0 else sample 0))
  | .rgb => ⟨toByte p.bits (sample 0), toByte p.bits (sample 1), toByte p.bits (sample 2)⟩
  | .inks =>
    let share (i : Nat) : UInt8 := toByte p.bits (inkShare full (sample i) (sample 3))
    ⟨share 0, share 1, share 2⟩

/-- The image that a file holds. -/
def decode (bytes : ByteArray) : Option Image := do
  let file ← File.ofBytes? bytes
  let plan ← plan? file
  let pieces ← (Array.range plan.pieces.size).mapM (plan.readPiece file)
  return ⟨plan.width, plan.height, Vector.ofFn fun i =>
    let x := i % plan.width
    let y := i / plan.width
    let piece := pieces.getD (y / plan.pieceHeight * plan.across + x / plan.pieceWidth) #[]
    let row := piece.getD (y % plan.pieceHeight) #[]
    plan.pixel fun k => row.getD (x % plan.pieceWidth * plan.samples + k) 0⟩

end Tiff

end Midframe
