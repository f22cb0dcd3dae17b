import Midframe.Text.Alphabetic
import Midframe.Text.Numeric

/-!
# Kinds of characters

White space, letters and numbers of all scripts.
-/

namespace Midframe

/-- Whether a code lies in one of some closed ranges. -/
def inRanges (ranges : List (Nat × Nat)) (code : Nat) : Bool :=
  ranges.any fun (first, last) => first ≤ code && code ≤ last

/-- The codes of all white space. -/
def whiteSpaceRanges : List (Nat × Nat) :=
  [(0x9, 0xd), (0x20, 0x20), (0x85, 0x85), (0xa0, 0xa0), (0x1680, 0x1680), (0x2000, 0x200a),
    (0x2028, 0x2029), (0x202f, 0x202f), (0x205f, 0x205f), (0x3000, 0x3000)]

/-- Whether a character is white space. -/
def isWhiteSpace (c : Char) : Bool := inRanges whiteSpaceRanges c.toNat

/-- Whether a character is alphabetic. -/
def isAlphabetic (c : Char) : Bool := inRanges alphabeticRanges c.toNat

/-- Whether a character is a digit or stands for a number. -/
def isNumeric (c : Char) : Bool := inRanges numericRanges c.toNat

/-- Whether a character is alphabetic or numeric. -/
def isLetterOrNumber (c : Char) : Bool := isAlphabetic c || isNumeric c

/-- A text without the white space around it. -/
def trimWhiteSpace (text : List Char) : List Char :=
  (text.dropWhile isWhiteSpace).reverse.dropWhile isWhiteSpace |>.reverse

end Midframe
