import Midframe.Raster.Bytes

/-!
# Data in growing codes

Some formats of image files compress bytes with the method of Lempel, Ziv and Welch. Codes stand for
words: each byte is a word, and every code adds one, which is the word in front of it with one more
byte. Codes take more bits as the words get more. Two codes are no words: one starts the words anew,
and one ends the data.
-/

namespace Midframe

namespace Lzw

/-- How the codes of some data are laid out. -/
structure Layout where
  /-- The bits of the bytes that are told. -/
  byteBits : Nat
  /-- Whether the highest bits of a byte come first; if so, codes grow one word early as well. -/
  highFirst : Bool
deriving DecidableEq, Repr

/-- The bits of the longest codes. -/
def maxWidth : Nat := 12

namespace Layout

/-- The code that starts anew. -/
def clear (l : Layout) : Nat := 1 <<< l.byteBits

/-- The code that ends the data. -/
def stop (l : Layout) : Nat := l.clear + 1

/-- The code of some bits from a position on, counted in bits; `none` where the data ends. -/
def codeAt? (l : Layout) (bytes : ByteArray) (position width : Nat) : Option Nat :=
  if 8 * bytes.size < position + width then none
  else
    let bit (i : Nat) : Nat :=
      let i := position + i
      let b := (bytes.data.getD (i / 8) 0).toNat
      b >>> (if l.highFirst then 7 - i % 8 else i % 8) % 2
    some (width.fold (fun i _ code =>
      code + bit i <<< (if l.highFirst then width - 1 - i else i)) 0)

end Layout

/-- What is known of the words. -/
structure Words where
  /-- The words, in the order of their codes. -/
  all : Array ByteArray
  /-- The bits of a code. -/
  width : Nat
  /-- The word of the last code; `none` at the start. -/
  last : Option ByteArray

namespace Words

/-- The words at the start: single bytes, and empty ones for the codes that are no words. -/
def fresh (l : Layout) : Words :=
  let bytes := Array.ofFn fun b : Fin l.clear => ByteArray.mk #[.ofNat b]
  ⟨bytes ++ #[.empty, .empty], l.byteBits + 1, none⟩

/-- The word of a code. It may be the one that this code itself adds. -/
def word? (w : Words) (l : Layout) (code : Nat) : Option ByteArray :=
  match w.last with
  | none => if code < l.clear then w.all[code]? else none
  | some last =>
    if code == w.all.size then some (last ++ last.extract 0 1) else w.all[code]?

/-- The words after a code has told one. -/
def after (w : Words) (l : Layout) (word : ByteArray) : Words :=
  match w.last with
  | none => { w with last := some word }
  | some last =>
    let added := w.all.size
    if 1 <<< maxWidth ≤ added then { w with last := some word }
    else
      let most := 1 <<< w.width - if l.highFirst then 2 else 1
      ⟨w.all.push (last ++ word.extract 0 1),
        if most ≤ added && w.width < maxWidth then w.width + 1 else w.width, some word⟩

end Words

/-- The first `size` bytes that codes from a position on stand for, behind those that were told
before. The code behind the last byte, if there is one, must have a meaning if `isChecked`. The fuel
bounds the number of codes. -/
def tell (l : Layout) (isChecked : Bool) (bytes : ByteArray) (size : Nat) (w : Words)
    (out : ByteArray) (position : Nat) : Nat → Option ByteArray
  | 0 => none
  | fuel + 1 =>
    if size ≤ out.size && !isChecked then some (out.extract 0 size)
    else
      let isFull := size ≤ out.size
      match l.codeAt? bytes position w.width with
      | none => if isFull then some (out.extract 0 size) else none
      | some code =>
        if isFull then
          if code == l.clear || code == l.stop || (w.word? l code).isSome then
            some (out.extract 0 size)
          else none
        else if code == l.clear then
          tell l isChecked bytes size (.fresh l) out (position + w.width) fuel
        else if code == l.stop then none
        else match w.word? l code with
          | some word =>
            tell l isChecked bytes size (w.after l word) (out ++ word) (position + w.width) fuel
          | none => none

/-- The first `size` bytes of some data. -/
def decode (l : Layout) (isChecked : Bool) (bytes : ByteArray) (size : Nat) : Option ByteArray :=
  tell l isChecked bytes size (.fresh l) .empty 0 (8 * bytes.size + 1)

end Lzw

end Midframe
