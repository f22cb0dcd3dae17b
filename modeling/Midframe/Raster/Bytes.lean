import Midframe.Picture

/-!
# Reading bytes

The parts that all readers of image files share. A reader is a function of a position; it fails
where a file ends too early or is not of its format.
-/

namespace Midframe

namespace Raster

/-- A reader of bytes: from a position to a result and the position behind it. -/
abbrev ByteReader := StateT Nat Option

/-- The next byte. -/
def byte (bytes : ByteArray) : ByteReader Nat := fun position =>
  if h : position < bytes.size then some (bytes[position].toNat, position + 1) else none

/-- Passes over some bytes, which must be there. -/
def skip (bytes : ByteArray) (count : Nat) : ByteReader Unit := fun position =>
  if position + count ≤ bytes.size then some ((), position + count) else none

/-- A number of `n` bytes, the lowest first. -/
def littleEndian (bytes : ByteArray) : Nat → ByteReader Nat
  | 0 => return 0
  | n + 1 => do
    let low ← byte bytes
    return low + 256 * (← littleEndian bytes n)

/-- A number of `n` bytes, the highest first, behind the higher bytes of the number `high`. -/
def bigEndian (bytes : ByteArray) (high : Nat) : Nat → ByteReader Nat
  | 0 => return high
  | n + 1 => do bigEndian bytes (256 * high + (← byte bytes)) n

/-- Passes over the bytes of a text, which must be there. -/
def expect (bytes : ByteArray) (text : String) : ByteReader Unit := fun position =>
  if (bytes.extract position (position + text.utf8ByteSize)).data == text.toUTF8.data then
    some ((), position + text.utf8ByteSize)
  else none

/-- Whether a byte separates words. -/
def isSeparator (b : Nat) : Bool := b == 32 || (9 ≤ b && b ≤ 13)

/-- The bytes of the next line, without the line break; not at the end of the file. -/
def readLine (bytes : ByteArray) : ByteReader (List UInt8) := fun position =>
  if bytes.size ≤ position then none
  else
    let line := (bytes.extract position bytes.size).toList.takeWhile (· != 10)
    some (line, position + line.length + 1)

/-- The results of a reader that is used a number of times, behind those of earlier uses. -/
@[specialize] def many {α : Type} (read : ByteReader α) (done : Array α) :
    Nat → ByteReader (Array α)
  | 0 => fun position => some (done, position)
  | count + 1 => fun position =>
    match read position with
    | some (result, position) => many read (done.push result) count position
    | none => none

/-- The most bytes that the pixels of an image take. -/
def maxBytes : Nat := 536870912

/-- Whether the pixels of an image, each of some bytes, can be held. -/
def fits (width height pixelBytes : Nat) : Bool := width * height * pixelBytes ≤ maxBytes

/-- Sixteen bits of a colour in eight bits: the nearest share of the whole. -/
def narrow (value : Nat) : UInt8 := .ofNat ((value + 128) / 257)

/-- The share of colour of some light, which counts as white if it is brighter than that or no
number at all. -/
def byteOfLight (x : Float32) : UInt8 := if Scalar.lt x Scalar.one then byteOfSample x else 255

/-- A shade of grey. -/
def grey (shade : UInt8) : Pixel := ⟨shade, shade, shade⟩

/-- Black. -/
def black : Pixel := grey 0

end Raster

end Midframe
