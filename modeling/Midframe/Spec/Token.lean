import Midframe.Decimal.Layout

/-!
# Tokens of block specifications

`scan` cuts a text into tokens. Blanks separate tokens and are dropped; every token is the longest
one that starts where it starts. A number is a run of digits with an optional fraction, or a
fraction alone (`.5`); a point that no digit follows belongs to no number. All characters of a token
are ASCII, so that a token has as many bytes as characters. Positions count the bytes of the text.
-/

namespace Midframe

/-- The smallest meaningful pieces of a specification. -/
inductive Token
  /-- A word. -/
  | ident (name : String)
  /-- A number without sign. -/
  | number (value : Float)
  /-- An opening parenthesis. -/
  | lparen
  /-- A closing parenthesis. -/
  | rparen
  /-- A comma between arguments. -/
  | comma
  /-- The separator of a chain, also the sign of a negative argument. -/
  | minus
  /-- The mark in front of a flag. -/
  | plus
  /-- The end of the text. -/
  | eof
deriving DecidableEq, Repr

namespace Token

/-- The token as error messages show it. -/
def text : Token → String
  | ident name => "Ident(\"" ++ name ++ "\")"
  | number value => "Number(" ++ Layout.token.text value ++ ")"
  | lparen => "LParen"
  | rparen => "RParen"
  | comma => "Comma"
  | minus => "Minus"
  | plus => "Plus"
  | eof => "Eof"

end Token

/-- A token and the bytes it covers. -/
structure Located where
  /-- The token. -/
  token : Token
  /-- The byte at which the token starts. -/
  start : Nat
  /-- The byte after its last one. -/
  stop : Nat
deriving DecidableEq, Repr

/-- The tokens of a text, its end kept apart so that reading always makes progress. -/
structure Tokens where
  /-- The tokens in front of the end. -/
  items : List Located
  /-- The byte length of the text, where the end lies. -/
  stop : Nat
deriving DecidableEq, Repr

namespace Token

/-- The characters that separate tokens: the ASCII blanks. -/
def isBlank (c : Char) : Bool := c == ' ' || (9 ≤ c.toNat && c.toNat ≤ 13)

/-- The characters a word starts with. -/
def isWordStart (c : Char) : Bool := c.isAlpha || c == '_'

/-- The characters a word goes on with. -/
def isWordPart (c : Char) : Bool := c.isAlphanum || c == '_'

/-- The number that a run of decimal digits stands for. -/
def digitsValue (digits : List Char) : Nat :=
  digits.foldl (fun acc c => 10 * acc + (c.toNat - '0'.toNat)) 0

/-- The number nearest to the given whole and fractional digits. -/
def numberValue (whole fraction : List Char) : Float :=
  Float.ofScientific (digitsValue (whole ++ fraction)) true fraction.length

/-- The fraction that a text starts with: the digits behind a point, if there are any. -/
def fraction? : List Char → Option (List Char)
  | '.' :: cs => match cs.takeWhile Char.isDigit with
    | [] => none
    | digits => some digits
  | _ => none

/-- The digits in front of the point and behind it, for the number that a text starts with. -/
def number? (cs : List Char) : Option (List Char × Option (List Char)) :=
  let whole := cs.takeWhile Char.isDigit
  let fraction := fraction? (cs.drop whole.length)
  if whole.isEmpty && fraction.isNone then none else some (whole, fraction)

/-- The token of a single character. -/
def symbol? : Char → Option Token
  | '(' => some lparen
  | ')' => some rparen
  | ',' => some comma
  | '-' => some minus
  | '+' => some plus
  | _ => none

/-- The longest token that a text starts with, and the number of its characters. -/
def longest? (cs : List Char) : Option (Token × Nat) :=
  match number? cs with
  | some (whole, none) => some (number (numberValue whole []), whole.length)
  | some (whole, some fraction) =>
    some (number (numberValue whole fraction), whole.length + 1 + fraction.length)
  | none => match cs with
    | [] => none
    | c :: rest =>
      if isWordStart c then
        let word := c :: rest.takeWhile isWordPart
        some (ident (String.ofList word), word.length)
      else (symbol? c).map fun t => (t, 1)

/-- A token is never empty, so that `scan` comes to an end. -/
theorem longest?_pos {cs : List Char} {t : Token} {n : Nat} (h : longest? cs = some (t, n)) :
    0 < n := by
  unfold longest? at h
  split at h
  · next whole hn =>
    simp only [Option.some.injEq, Prod.mk.injEq] at h
    simp only [number?] at hn
    split at hn
    · exact absurd hn (by simp)
    · next he =>
      simp only [Option.some.injEq, Prod.mk.injEq] at hn
      obtain ⟨rfl, hf⟩ := hn
      have : (cs.takeWhile Char.isDigit) ≠ [] := by
        intro hw
        rw [hf] at he
        simp [hw] at he
      have := List.length_pos_iff.mpr this
      omega
  · simp only [Option.some.injEq, Prod.mk.injEq] at h
    omega
  · split at h
    · exact absurd h (by simp)
    · split at h
      · simp only [Option.some.injEq, Prod.mk.injEq, List.length_cons] at h
        omega
      · simp only [Option.map_eq_some_iff, Prod.mk.injEq] at h
        obtain ⟨_, _, _, rfl⟩ := h
        exact Nat.one_pos

/-- The tokens of the text `cs`, which starts at byte `at`, or the byte and the character at which
no token starts. -/
def scan (position : Nat) (cs : List Char) : Except (Nat × Char) (List Located) :=
  match cs with
  | [] => .ok []
  | c :: rest =>
    if isBlank c then scan (position + 1) rest
    else match _found : longest? (c :: rest) with
      | none => .error (position, c)
      | some (t, n) =>
        match scan (position + n) ((c :: rest).drop n) with
        | .ok items => .ok (⟨t, position, position + n⟩ :: items)
        | .error e => .error e
termination_by cs.length
decreasing_by
  · simp
  · have := longest?_pos _found
    simp only [List.length_drop, List.length_cons]
    omega

end Token

namespace Tokens

/-- The tokens of a text, or the byte and the character at which no token starts. -/
def ofString (text : String) : Except (Nat × Char) Tokens :=
  match Token.scan 0 text.toList with
  | .ok items => .ok ⟨items, text.utf8ByteSize⟩
  | .error e => .error e

end Tokens

end Midframe
