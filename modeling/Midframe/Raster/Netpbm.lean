import Midframe.Count
import Midframe.Raster.Bytes

/-!
# Netpbm files

A file starts with a `P` and a digit for its kind: bits, shades of grey or colours, each as text or
as bytes, or whatever the lines of the head say. Samples go up to a maximum that the head gives;
they are brought to eight bits, or to sixteen if the maximum takes more than eight.
-/

namespace Midframe

namespace Netpbm

open Raster

/-- What the pixels of a file are. -/
structure Head where
  /-- The number of columns. -/
  width : Nat
  /-- The number of rows. -/
  height : Nat
  /-- The number of samples of a pixel, transparency included. -/
  samples : Nat
  /-- The value of a full sample. -/
  maximum : Nat
  /-- Whether samples have sixteen bits. -/
  isWide : Bool
  /-- Whether samples are just set or not. -/
  isBit : Bool := false
deriving DecidableEq, Repr

/-- The word at a position and the separator behind it. Comments, from a number sign to the end of
its line, are left out where they are known, even inside a word. The fuel bounds the number of
bytes. -/
def readWord (bytes : ByteArray) (comments : Bool) (inComment : Bool) (word : List Char) :
    Nat → ByteReader (List Char)
  | 0 => failure
  | fuel + 1 => fun position =>
    match byte bytes position with
    | none => if word.isEmpty then none else some (word.reverse, position)
    | some (b, position) =>
      if inComment then readWord bytes comments (b != 10 && b != 13) word fuel position
      else if comments && b == 35 then readWord bytes comments true word fuel position
      else if isSeparator b then
        if word.isEmpty then readWord bytes comments false word fuel position
        else some (word.reverse, position)
      else if 127 < b then none
      else readWord bytes comments false (Char.ofNat b :: word) fuel position

/-- A number of at most `most`, without a sign. -/
def readNumber (bytes : ByteArray) (comments : Bool) (most : Nat) : ByteReader Nat := do
  let word ← readWord bytes comments false [] (bytes.size + 1)
  match digitCount? word with
  | some n => if n ≤ most then return n else failure
  | none => failure

/-- A number of a head. -/
def readExtent (bytes : ByteArray) : ByteReader Nat := readNumber bytes true maxImageExtent

/-! ## Samples -/

/-- A sample as text. -/
def readTextSample (bytes : ByteArray) (isWide : Bool) : ByteReader Nat :=
  readNumber bytes false (if isWide then 65535 else 255)

/-- A sample as bytes. -/
def readByteSample (bytes : ByteArray) (isWide : Bool) : ByteReader Nat :=
  bigEndian bytes 0 (if isWide then 2 else 1)

/-- A bit as text, behind separators; black is 1. -/
def readTextBit (bytes : ByteArray) : Nat → ByteReader Nat
  | 0 => failure
  | fuel + 1 => do
    let b ← byte bytes
    if isSeparator b then readTextBit bytes fuel
    else if b == 48 then return 1
    else if b == 49 then return 0
    else failure

/-- A sample in eight bits. It is first brought to the full range of its bits, in single
precision. -/
def Head.shade (h : Head) (value : Nat) : UInt8 :=
  let target := if h.isWide then 65535 else 255
  let full :=
    if h.maximum == target then value
    else
      let factor : Float32 := Scalar.ratio target h.maximum
      min target (roundSample (Scalar.ofNat value * factor))
  if h.isWide then narrow full else .ofNat full

/-- The pixel of some samples. -/
def Head.pixel (h : Head) (samples : Array Nat) : Pixel :=
  let shade (i : Nat) : UInt8 := h.shade (samples.getD i 0)
  if h.samples < 3 then grey (shade 0) else ⟨shade 0, shade 1, shade 2⟩

/-- The image of a head whose samples a reader gives. -/
@[specialize] def readImage (h : Head) (sample : ByteReader Nat) : ByteReader Image := do
  if !fits h.width h.height (h.samples * if h.isWide then 2 else 1) then failure
  else
    let pixel : ByteReader Pixel := do
      let samples ← many sample #[] h.samples
      if h.isBit && samples.any (1 < ·) then failure else return h.pixel samples
    (Image.ofPixels? h.width h.height (← many pixel #[] (h.width * h.height)) : Option Image)

/-- The image of packed bits, the highest bit of a byte first, where black is 1. Every row starts
with a byte of its own. -/
def readPackedBits (bytes : ByteArray) (width height : Nat) : ByteReader Image := do
  let rowBytes := (width + 7) / 8
  let start ← get
  if !fits width height 1 then failure
  skip bytes (rowBytes * height)
  return ⟨width, height, Vector.ofFn fun i =>
    let x := i % width
    let b := (bytes.data.getD (start + i / width * rowBytes + x / 8) 0).toNat
    grey (if b >>> (7 - x % 8) % 2 == 0 then 255 else 0)⟩

/-! ## Heads of lines -/

/-- What the lines of a head say. -/
structure Lines where
  /-- The number of rows. -/
  height : Option Nat := none
  /-- The number of columns. -/
  width : Option Nat := none
  /-- The number of samples of a pixel. -/
  depth : Option Nat := none
  /-- The value of a full sample. -/
  maximum : Option Nat := none
  /-- What the samples are. -/
  kind : Option String := none
deriving DecidableEq, Repr

/-- The text in front of its first white space, and what is left without white space around it. -/
def splitLine (line : List Char) : String × List Char :=
  let blank (c : Char) : Bool := isSeparator c.toNat
  let (name, rest) := line.span (!blank ·)
  (String.ofList name, ((rest.dropWhile blank).reverse.dropWhile blank).reverse)

/-- What lines say together with one more, of a name and a value. Numbers are given once. -/
def Lines.add? (l : Lines) (name : String) (value : List Char) : Option Lines :=
  let number (old : Option Nat) : Option Nat :=
    if old.isSome then none else (decimalCount? value).filter (· ≤ maxImageExtent)
  match name with
  | "HEIGHT" => (number l.height).map fun n => { l with height := some n }
  | "WIDTH" => (number l.width).map fun n => { l with width := some n }
  | "DEPTH" => (number l.depth).map fun n => { l with depth := some n }
  | "MAXVAL" => (number l.maximum).map fun n => { l with maximum := some n }
  | "TUPLTYPE" =>
    let kind := match l.kind with
      | some kind => kind ++ " " ++ String.ofList value
      | none => String.ofList value
    some { l with kind := some kind }
  | _ => none

/-- What the lines up to the end of the head say, and those that were read before. -/
def readLines (bytes : ByteArray) (l : Lines) : Nat → ByteReader Lines
  | 0 => failure
  | fuel + 1 => do
    let line ← readLine bytes
    if line.head? == some 35 then readLines bytes l fuel
    else if line.any (127 < ·) then failure
    else
      let (name, value) := splitLine (line.map fun b => Char.ofNat b.toNat)
      if name == "ENDHDR" then return l else readLines bytes (← l.add? name value) fuel

/-- The head that lines stand for. Without a kind, samples have eight bits whatever the maximum
is; grey samples without a depth have sixteen. -/
def Lines.head? (l : Lines) : Option Head := do
  let height ← l.height
  let width ← l.width
  let depth ← l.depth
  let maximum ← l.maximum
  let plain (isWide : Bool) : Head := ⟨width, height, depth, maximum, isWide, false⟩
  let scaled (samples : Nat) : Option Head :=
    if depth == samples && maximum ≤ 65535 then some (plain (255 < maximum)) else none
  let bits (samples : Nat) : Option Head :=
    if depth == samples && maximum == 1 then some { plain false with isBit := true } else none
  if maximum == 0 then none
  else match l.kind with
    | none => if 1 ≤ depth && depth ≤ 4 then some (plain false) else none
    | some "BLACKANDWHITE" => bits 1
    | some "BLACKANDWHITE_ALPHA" => bits 2
    | some "GRAYSCALE" =>
      if depth == 0 && maximum ≤ 65535 then some { plain true with samples := 1 } else scaled 1
    | some "GRAYSCALE_ALPHA" => scaled 2
    | some "RGB" => scaled 3
    | some "RGB_ALPHA" => scaled 4
    | some _ => none

/-! ## Files -/

/-- The image of shades or colours with a maximum. -/
def readScaled (bytes : ByteArray) (samples : Nat) (isText : Bool) : ByteReader Image := do
  let width ← readExtent bytes
  let height ← readExtent bytes
  let maximum ← readExtent bytes
  if maximum == 0 || 65535 < maximum then failure
  else
    let head : Head := ⟨width, height, samples, maximum, 255 < maximum, false⟩
    if isText then readImage head (readTextSample bytes head.isWide)
    else readImage head (readByteSample bytes head.isWide)

/-- The image of a file behind its first byte. -/
def readFile (bytes : ByteArray) : ByteReader Image := do
  expect bytes "P"
  match Char.ofNat (← byte bytes) with
  | '1' =>
    let width ← readExtent bytes
    let height ← readExtent bytes
    readImage ⟨width, height, 1, 1, false, true⟩ (readTextBit bytes (bytes.size + 1))
  | '2' => readScaled bytes 1 true
  | '3' => readScaled bytes 3 true
  | '4' => readPackedBits bytes (← readExtent bytes) (← readExtent bytes)
  | '5' => readScaled bytes 1 false
  | '6' => readScaled bytes 3 false
  | '7' =>
    expect bytes "\n"
    let lines ← readLines bytes {} (bytes.size + 1)
    match lines.head? with
    | some head => readImage head (readByteSample bytes head.isWide)
    | none => failure
  | _ => failure

/-- The image that a file holds. -/
def decode (bytes : ByteArray) : Option Image := (readFile bytes 0).map Prod.fst

end Netpbm

end Midframe
