import Midframe.Raster.Deflate

/-!
# Codes of WebP files

The pixels of a WebP file are told by symbols of prefix codes. A code has one symbol, which takes no
bits, or its words use up all sequences of bits. It is given by its only symbols, if these are one
or two, or by the lengths of its words, themselves coded.
-/

namespace Midframe

namespace WebP

open Deflate

/-- A code of symbols. -/
inductive Code
  /-- The code of a single symbol. -/
  | single (symbol : Nat)
  /-- A prefix code. -/
  | words (code : PrefixCode)

namespace Code

/-- The next symbol. -/
def read (c : Code) (bytes : ByteArray) : BitReader Nat :=
  match c with
  | single symbol => return symbol
  | words code => code.read bytes

/-- The code in which symbol `s` has a word of `lengths[s]` bits, and none if that is zero. Of the
sequences of the greatest length, a word of `n` bits starts as many as two to the power of what `n`
lacks; together these must be all. -/
def ofLengths? (lengths : List Nat) : Option Code :=
  match lengths.zipIdx.filter fun (length, _) => length != 0 with
  | [] => none
  | [(_, symbol)] => some (single symbol)
  | used =>
    let sequences := used.foldl (fun n (length, _) => n + 1 <<< (PrefixCode.maxLength - length)) 0
    if sequences == 1 <<< PrefixCode.maxLength then some (words (.ofLengths lengths)) else none

/-- The code of two symbols. -/
def pair (first second : Nat) : Code := words ⟨#[2], #[first, second]⟩

/-- The order in which the lengths of the words for lengths are given. -/
def lengthOrder : List Nat := [17, 18, 0, 1, 2, 3, 4, 5, 16, 6, 7, 8, 9, 10, 11, 12, 13, 14, 15]

/-- The lengths of the words of `size` symbols, behind those that were read before. The length that
is repeated is `last`. At most as many symbols are read as the fuel tells; what they leave open has
no word. -/
def readLengths (bytes : ByteArray) (code : Code) (size last : Nat) (lengths : Array Nat) :
    Nat → BitReader (Array Nat)
  | 0 => return lengths
  | fuel + 1 => do
    if size ≤ lengths.size then return lengths
    else
      let symbol ← code.read bytes
      if symbol < 16 then
        let last := if symbol == 0 then last else symbol
        readLengths bytes code size last (lengths.push symbol) fuel
      else
        let (length, count) ← match symbol with
          | 16 => do pure (last, 3 + (← bits bytes 2))
          | 17 => do pure (0, 3 + (← bits bytes 3))
          | _ => do pure (0, 11 + (← bits bytes 7))
        if size < lengths.size + count then failure
        else readLengths bytes code size last (lengths ++ Array.replicate count length) fuel

/-- A code of one or two symbols below `size`. -/
def readShort (bytes : ByteArray) (size : Nat) : BitReader Code := do
  let isPair ← bit bytes
  let isByte ← bit bytes
  let first ← bits bytes (if isByte == 1 then 8 else 1)
  if isPair == 0 then if first < size then return single first else failure
  else
    let second ← bits bytes 8
    if first < size && second < size then return pair first second else failure

/-- A code of symbols below `size` by the lengths of its words. The length in front of all is 8. -/
def readLong (bytes : ByteArray) (size : Nat) : BitReader Code := do
  let given := 4 + (← bits bytes 4)
  let lengths ← (lengthOrder.take given).mapM fun symbol => do
    return (symbol, ← bits bytes 3)
  let code ← (ofLengths? ((List.range 19).map fun s => (lengths.lookup s).getD 0) : Option Code)
  let most ← if (← bit bytes) == 1 then do
      let width := 2 + 2 * (← bits bytes 3)
      pure (2 + (← bits bytes width))
    else pure size
  if size < most then failure
  else
    let lengths ← readLengths bytes code size 8 #[] most
    (ofLengths? lengths.toList : Option Code)

/-- A code of symbols below `size`. -/
def readFrom (bytes : ByteArray) (size : Nat) : BitReader Code := do
  if (← bit bytes) == 1 then readShort bytes size else readLong bytes size

end Code

/-- The number that a symbol stands for, with the bits behind it: a length or a distance. -/
def readExtended (bytes : ByteArray) (symbol : Nat) : BitReader Nat := do
  if symbol < 4 then return symbol + 1
  else
    let added := (symbol - 2) / 2
    return (2 + symbol % 2) <<< added + (← bits bytes added) + 1

end WebP

end Midframe
