import Midframe.Decimal.Shortest

/-!
# How numbers are laid out as text

A `Layout` records the decisions of one number format: which numbers are written positionally, how
a whole number ends, how an exponent is marked, and how ties between two shortest decimals go.
`Layout.text` lays a number out by them; which digits it shows is the matter of
`Midframe.Decimal.Shortest`.
-/

namespace Midframe

/-- The decisions of a number format. -/
structure Layout where
  /-- Whether a number whose leading digit stands for `10 ^ e` is written without an exponent. -/
  isPositional : Int → Bool
  /-- A whole number written positionally ends in `.0`. -/
  pointZero : Bool
  /-- An exponent that is not negative is written with a plus sign. -/
  exponentPlus : Bool
  /-- The choice between two shortest decimals at the same distance. -/
  tie : Tie

namespace Layout

/-- The text of a positive decimal. -/
def decimalText (l : Layout) (d : Decimal) : String :=
  let d := d.stripZeros (d.digits.log2 + 1)
  let digits := Decimal.digitChars d.digits
  let leading := d.exponent + (digits.length : Int) - 1
  if l.isPositional leading then
    if 0 ≤ d.exponent then
      String.ofList (digits ++ List.replicate d.exponent.toNat '0') ++
        (if l.pointZero then ".0" else "")
    else if 0 ≤ leading then
      String.ofList (digits.take (leading.toNat + 1)) ++ "." ++
        String.ofList (digits.drop (leading.toNat + 1))
    else
      "0." ++ String.ofList (List.replicate (-leading - 1).toNat '0' ++ digits)
  else
    let significand := match digits with
      | [] => ""
      | [c] => String.ofList [c]
      | c :: rest => String.ofList (c :: '.' :: rest)
    let sign := if leading < 0 then "-" else if l.exponentPlus then "+" else ""
    significand ++ "e" ++ sign ++ toString leading.natAbs

open Float.Model in
/-- The text of an unpacked number of the given format. -/
def unpackedText (l : Layout) (format : Format) (x : UnpackedFloat) : String :=
  let signed (s : UnpackedFloat.Sign) (text : String) := match s with
    | .negative => "-" ++ text
    | .positive => text
  match x with
  | .notANumber => "NaN"
  | .infinity s => signed s "inf"
  | .zero s => signed s (if l.pointZero then "0.0" else "0")
  | .finite s .. => signed s <| match Binary.ofUnpacked? format x with
    | some b => l.decimalText (b.shortest l.tie)
    | none => ""

/-- The text of a double precision number. -/
def text (l : Layout) (x : Float) : String :=
  l.unpackedText Float.Model.Format.binary64 x.toModel.unpack

/-- The text of a single precision number. -/
def text32 (l : Layout) (x : Float32) : String :=
  l.unpackedText Float.Model.Format.binary32 x.toModel.unpack

/-- The layout of numbers inside sentences: never an exponent, whole numbers bare. -/
def prose : Layout where
  isPositional _ := true
  pointZero := false
  exponentPlus := false
  tie := .up

/-- The layout of numbers shown as tokens: a fraction or an exponent is always there, the latter
from `10 ^ 16` upwards and below `10 ^ -4`. -/
def token : Layout where
  isPositional e := -5 < e && e < 16
  pointZero := true
  exponentPlus := false
  tie := .up

/-- The layout of numbers in data files: as for tokens, with an exponent from `10 ^ 13` upwards and
below `10 ^ -6`. -/
def data : Layout where
  isPositional e := -7 < e && e < 13
  pointZero := true
  exponentPlus := true
  tie := .toEven

end Layout

end Midframe
