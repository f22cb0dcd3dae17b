/-!
# Decimal numbers

The form of decimal numbers that may have a fraction and an exponent. What they stand for does not
matter where this is asked.
-/

namespace Midframe

/-- Whether some characters are an exponent of ten or nothing. -/
def isExponent : List Char → Bool
  | [] => true
  | c :: rest =>
    let digits := match rest with
      | '+' :: digits | '-' :: digits => digits
      | digits => digits
    c.toLower == 'e' && !digits.isEmpty && digits.all Char.isDigit

/-- Whether some characters are a number without a sign, possibly an infinite or undefined one. -/
def isUnsigned (text : List Char) : Bool :=
  ["inf", "infinity", "nan"].contains (String.ofList text).toLower ||
    let (whole, rest) := text.span Char.isDigit
    let (fraction, rest) := match rest with
      | '.' :: rest => rest.span Char.isDigit
      | rest => ([], rest)
    !(whole ++ fraction).isEmpty && isExponent rest

/-- Whether some characters are a number. -/
def isNumber : List Char → Bool
  | '+' :: rest | '-' :: rest => isUnsigned rest
  | text => isUnsigned text

end Midframe
