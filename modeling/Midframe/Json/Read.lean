import Midframe.Json.Tree

/-!
# Reading data texts

The grammar is strict: no leading zeros, no control characters inside strings, and nothing but white
space around the one value. Escapes are only checked for their form here.

Every function takes the characters that are left and gives back what it read and the characters
behind it; `none` means that the grammar is violated. Lists and objects nest to any depth, so the
reading of a value is bounded by a count that the length of the text provides.
-/

namespace Midframe

/-- White space between the parts of a text. -/
def isJsonSpace (c : Char) : Bool := c == ' ' || c == '\n' || c == '\t' || c == '\r'

/-- The characters behind white space. -/
def skipSpace (text : List Char) : List Char := text.dropWhile isJsonSpace

namespace Quoted

/-- The body of a string and the characters behind the closing quotation mark. -/
def readBody : List Char → Option (List Char × List Char)
  | [] => none
  | '"' :: rest => some ([], rest)
  | '\\' :: 'u' :: a :: b :: c :: d :: rest =>
    if (hexWord? a b c d).isSome then
      (readBody rest).map fun (body, rest) => ('\\' :: 'u' :: a :: b :: c :: d :: body, rest)
    else none
  | '\\' :: c :: rest =>
    if (escaped? c).isSome then
      (readBody rest).map fun (body, rest) => ('\\' :: c :: body, rest)
    else none
  | c :: rest =>
    if c < ' ' || c == '\\' then none
    else (readBody rest).map fun (body, rest) => (c :: body, rest)

end Quoted

namespace Numeral

/-- The digits in front. -/
def readDigits (text : List Char) : List Char × List Char := text.span Char.isDigit

/-- One digit or more. -/
def readSomeDigits (text : List Char) : Option (List Char × List Char) :=
  match readDigits text with
  | ([], _) => none
  | found => some found

/-- A whole part: zero alone, or digits that do not start with zero. -/
def readWhole (text : List Char) : Option (List Char × List Char) :=
  match readDigits text with
  | ([], _) => none
  | ('0' :: _ :: _, _) => none
  | found => some found

/-- The digits behind a point; none where there is no point. -/
def readFraction : List Char → Option (List Char × List Char)
  | '.' :: rest => readSomeDigits rest
  | text => some ([], text)

/-- The sign and the digits of an exponent, behind its mark. -/
def readExponentDigits : List Char → Option ((Bool × List Char) × List Char)
  | '-' :: rest => (readSomeDigits rest).map fun (digits, rest) => ((true, digits), rest)
  | '+' :: rest => (readSomeDigits rest).map fun (digits, rest) => ((false, digits), rest)
  | text => (readSomeDigits text).map fun (digits, rest) => ((false, digits), rest)

/-- An exponent, where there is one. -/
def readExponent : List Char → Option (Option (Bool × List Char) × List Char)
  | 'e' :: rest | 'E' :: rest => (readExponentDigits rest).map fun (e, rest) => (some e, rest)
  | text => some (none, text)

/-- A minus sign, where there is one. -/
def readMinus : List Char → Bool × List Char
  | '-' :: rest => (true, rest)
  | text => (false, text)

/-- A number. -/
def read (text : List Char) : Option (Numeral × List Char) := do
  let (negative, text) := readMinus text
  let (whole, text) ← readWhole text
  let (fraction, text) ← readFraction text
  let (exponent, text) ← readExponent text
  return ({ negative, whole, fraction, exponent }, text)

end Numeral

namespace Json

mutual

/-- A value and the characters behind it. -/
def readValue : Nat → List Char → Option (Json × List Char)
  | 0, _ => none
  | fuel + 1, text =>
    match skipSpace text with
    | 'n' :: 'u' :: 'l' :: 'l' :: rest => some (null, rest)
    | 't' :: 'r' :: 'u' :: 'e' :: rest => some (bool true, rest)
    | 'f' :: 'a' :: 'l' :: 's' :: 'e' :: rest => some (bool false, rest)
    | '"' :: rest => (Quoted.readBody rest).map fun (body, rest) => (string ⟨body⟩, rest)
    | '[' :: rest => match skipSpace rest with
      | ']' :: rest => some (array [], rest)
      | rest => (readItems fuel rest).map fun (items, rest) => (array items, rest)
    | '\x7b' :: rest => match skipSpace rest with
      | '\x7d' :: rest => some (object [], rest)
      | rest => (readMembers fuel rest).map fun (members, rest) => (object members, rest)
    | text => (Numeral.read text).map fun (n, rest) => (number n, rest)

/-- The items of a list up to its closing bracket, one or more. -/
def readItems : Nat → List Char → Option (List Json × List Char)
  | 0, _ => none
  | fuel + 1, text => do
    let (item, rest) ← readValue fuel text
    match skipSpace rest with
    | ',' :: rest => (readItems fuel rest).map fun (items, rest) => (item :: items, rest)
    | ']' :: rest => some ([item], rest)
    | _ => none

/-- The members of an object up to its closing brace, one or more. -/
def readMembers : Nat → List Char → Option (List (Quoted × Json) × List Char)
  | 0, _ => none
  | fuel + 1, text => do
    let (name, rest) ← match skipSpace text with
      | '"' :: rest => Quoted.readBody rest
      | _ => none
    let rest ← match skipSpace rest with
      | ':' :: rest => some rest
      | _ => none
    let (value, rest) ← readValue fuel rest
    match skipSpace rest with
    | ',' :: rest =>
      (readMembers fuel rest).map fun (members, rest) => ((⟨name⟩, value) :: members, rest)
    | '\x7d' :: rest => some ([(⟨name⟩, value)], rest)
    | _ => none

end

/-- A count that suffices for a text of the given length: of the calls nested inside each other at
most two share a character. -/
def readingFuel (length : Nat) : Nat := 2 * length + 2

/-- The value of a text. -/
def readChars? (text : List Char) : Option Json :=
  match readValue (readingFuel text.length) text with
  | some (value, rest) => if (skipSpace rest).isEmpty then some value else none
  | none => none

/-- The value of a text. -/
def read? (text : String) : Option Json := readChars? text.toList

end Json

end Midframe
