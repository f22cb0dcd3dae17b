import Midframe.Raster.WebP.Code

/-!
# Pixels of WebP files

The pixels of a WebP file come row by row. Each is told by its four shares, by a place in a cache of
the pixels of late, or by the distance of pixels that are repeated. Small distances mean pixels
nearby, in the rows above. The codes may be others for every square of pixels.
-/

namespace Midframe

namespace WebP

open Deflate

/-- A pixel with opacity. -/
structure Texel where
  /-- The share of red. -/
  red : UInt8
  /-- The share of green. -/
  green : UInt8
  /-- The share of blue. -/
  blue : UInt8
  /-- The opacity. -/
  alpha : UInt8
deriving DecidableEq, Repr, Inhabited

namespace Texel

/-- Nothing. -/
def clear : Texel := ⟨0, 0, 0, 0⟩

/-- Black. -/
def black : Texel := ⟨0, 0, 0, 255⟩

/-- The pixel of what a function makes of the shares of two. -/
@[inline] def map₂ (f : UInt8 → UInt8 → UInt8) (s t : Texel) : Texel :=
  ⟨f s.red t.red, f s.green t.green, f s.blue t.blue, f s.alpha t.alpha⟩

/-- The sums of the shares of two pixels. -/
def add : Texel → Texel → Texel := map₂ (· + ·)

/-- The pixel as one number. -/
def number (t : Texel) : Nat :=
  ((t.alpha.toNat * 256 + t.red.toNat) * 256 + t.green.toNat) * 256 + t.blue.toNat

end Texel

/-- How many squares of `2 ^ n` pixels a side it takes to cover some pixels. -/
def blocks (pixels n : Nat) : Nat := (pixels + (1 <<< n - 1)) >>> n

/-! ## The cache -/

/-- The pixels of late. -/
structure Cache where
  /-- The bits of a place; zero if there is no cache. -/
  bits : Nat
  /-- The pixels. -/
  texels : Array Texel

namespace Cache

/-- The cache at the start. -/
def empty (bits : Nat) : Cache :=
  ⟨bits, if bits == 0 then #[] else Array.replicate (1 <<< bits) .clear⟩

/-- The number of places. -/
def size (c : Cache) : Nat := c.texels.size

/-- The factor that spreads pixels over the cache. -/
def factor : Nat := 0x1e35a7bd

/-- The cache with one more pixel. -/
def insert (c : Cache) (t : Texel) : Cache :=
  let place := factor * t.number % 4294967296 / (4294967296 >>> c.bits)
  ⟨c.bits, c.texels.setIfInBounds place t⟩

end Cache

/-! ## Distances -/

/-- The steps to the left and up, to a pixel in front of another, that have short distances: nearest
first, and those as near by the columns between them. -/
def nearby : List (Int × Nat) :=
  let steps : List (Int × Nat) := (List.range 9).flatMap fun x : Nat =>
    (List.range 8).flatMap fun y =>
      if x == 0 || y == 0 || x == 8 then [(↑x, y)] else [(↑x, y), (-↑x, y)]
  let square (s : Int × Nat) : Nat := s.1.natAbs * s.1.natAbs + s.2 * s.2
  (steps.filter (· != (0, 0))).mergeSort fun s t => square s ≤ square t

/-- How far back the pixels are that a number means, in rows of some pixels. The first numbers mean
pixels nearby. -/
def distance (width number : Nat) : Nat :=
  match nearby[number - 1]? with
  | some (x, y) => max 1 (x + y * width).toNat
  | none => number - nearby.length

/-! ## Reading -/

/-- The codes that tell pixels. -/
structure Codes where
  /-- The share of green, the length of what is repeated, or the place in the cache. -/
  green : Code
  /-- The share of red. -/
  red : Code
  /-- The share of blue. -/
  blue : Code
  /-- The opacity. -/
  alpha : Code
  /-- The distance of what is repeated. -/
  distance : Code

/-- The number of symbols for lengths. -/
def lengthSymbols : Nat := 24

/-- Codes for pixels with a cache of some size. -/
def readCodes (bytes : ByteArray) (cacheSize : Nat) : BitReader Codes := do
  return {
    green := ← Code.readFrom bytes (256 + lengthSymbols + cacheSize)
    red := ← Code.readFrom bytes 256
    blue := ← Code.readFrom bytes 256
    alpha := ← Code.readFrom bytes 256
    distance := ← Code.readFrom bytes 40 }

/-- Pixels that were read, and the cache behind them. -/
structure Trail where
  /-- The pixels. -/
  texels : Array Texel
  /-- The cache. -/
  cache : Cache

/-- One more pixel. -/
def Trail.push (t : Trail) (texel : Texel) : Trail := ⟨t.texels.push texel, t.cache.insert texel⟩

/-- As many repeated pixels as asked for, from so far back. -/
def Trail.again (distance : Nat) (t : Trail) : Nat → Trail
  | 0 => t
  | n + 1 => again distance (t.push (t.texels.getD (t.texels.size - distance) .clear)) n

/-- The pixels up to `count`, in rows of `width`. The codes of a pixel are told by its place. Every
symbol tells a pixel at least, which bounds the symbols. -/
def readTexels (bytes : ByteArray) (codes : Nat → Option Codes) (width count : Nat) (t : Trail) :
    Nat → BitReader (Array Texel)
  | 0 => return t.texels
  | fuel + 1 => do
    let done := t.texels.size
    if count ≤ done then return t.texels
    else
      let own ← (codes done : Option Codes)
      let symbol ← own.green.read bytes
      if symbol < 256 then
        let red ← own.red.read bytes
        let blue ← own.blue.read bytes
        let alpha ← own.alpha.read bytes
        readTexels bytes codes width count
          (t.push ⟨.ofNat red, .ofNat symbol, .ofNat blue, .ofNat alpha⟩) fuel
      else if symbol < 256 + lengthSymbols then
        let length ← readExtended bytes (symbol - 256)
        let number ← readExtended bytes (← own.distance.read bytes)
        let distance := distance width number
        if done < distance || count - done < length then failure
        else readTexels bytes codes width count (t.again distance length) fuel
      else
        let texel := t.cache.texels.getD (symbol - 256 - lengthSymbols) .clear
        readTexels bytes codes width count { t with texels := t.texels.push texel } fuel

/-- The bits of the places of a cache; zero if there is none. -/
def readCacheBits (bytes : ByteArray) : BitReader Nat := do
  if (← bit bytes) == 0 then return 0
  else
    let width ← bits bytes 4
    if 1 ≤ width && width ≤ 11 then return width else failure

/-- Some rows of pixels that all have the same codes. -/
def readPlain (bytes : ByteArray) (width height : Nat) : BitReader (Array Texel) := do
  let cache := Cache.empty (← readCacheBits bytes)
  let codes ← readCodes bytes cache.size
  readTexels bytes (fun _ => some codes) width (width * height) ⟨#[], cache⟩ (width * height)

/-- The codes of a number of squares. -/
def readManyCodes (bytes : ByteArray) (cacheSize : Nat) (done : Array Codes) :
    Nat → BitReader (Array Codes)
  | 0 => return done
  | n + 1 => do readManyCodes bytes cacheSize (done.push (← readCodes bytes cacheSize)) n

/-- Some rows of pixels. If codes are others for every square, an image in front of them tells which
ones they are. -/
def readRows (bytes : ByteArray) (width height : Nat) : BitReader (Array Texel) := do
  let cache := Cache.empty (← readCacheBits bytes)
  let codes ← if (← bit bytes) == 0 then do
      let codes ← readCodes bytes cache.size
      pure fun (_ : Nat) => some codes
    else do
      let n := 2 + (← bits bytes 3)
      let across := blocks width n
      let choices := (← readPlain bytes across (blocks height n)).map fun t =>
        t.red.toNat * 256 + t.green.toNat
      let all ← readManyCodes bytes cache.size #[] (choices.foldl max 0 + 1)
      pure fun i => all[choices.getD ((i / width) >>> n * across + (i % width) >>> n) 0]?
  readTexels bytes codes width (width * height) ⟨#[], cache⟩ (width * height)

end WebP

end Midframe
