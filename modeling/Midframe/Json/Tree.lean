import Midframe.Decimal.Layout

/-!
# Data texts

Configurations, plans, shape tables and parameters are stored as JSON. A `Json` keeps a text as it
was written: members in their order and with repetitions, strings with their escapes, numbers digit
by digit. What a string or a number stands for, and whether it stands for anything, is decided
where its value is needed.
-/

namespace Midframe

/-- A number as written. -/
structure Numeral where
  /-- Whether it starts with a minus sign. -/
  negative : Bool
  /-- The digits of the whole part. -/
  whole : List Char
  /-- The digits behind the point, empty if there is no point. -/
  fraction : List Char
  /-- Whether the exponent has a minus sign, and its digits. -/
  exponent : Option (Bool × List Char)
deriving DecidableEq, Repr

/-- A string as written: the characters between the quotation marks, escapes included. -/
structure Quoted where
  /-- The characters. -/
  body : List Char
deriving DecidableEq, Repr

/-- A data text. -/
inductive Json
  /-- No value. -/
  | null
  /-- A truth value. -/
  | bool (value : Bool)
  /-- A number. -/
  | number (numeral : Numeral)
  /-- A string. -/
  | string (quoted : Quoted)
  /-- A list of values. -/
  | array (items : List Json)
  /-- Values by name. -/
  | object (members : List (Quoted × Json))

instance : Inhabited Json := ⟨.null⟩

/-! ## Strings -/

namespace Quoted

/-- The value of a hexadecimal digit. -/
def hexDigit? (c : Char) : Option Nat :=
  if '0' ≤ c ∧ c ≤ '9' then some (c.toNat - '0'.toNat)
  else if 'a' ≤ c ∧ c ≤ 'f' then some (c.toNat - 'a'.toNat + 10)
  else if 'A' ≤ c ∧ c ≤ 'F' then some (c.toNat - 'A'.toNat + 10)
  else none

/-- The number of four hexadecimal digits. -/
def hexWord? (a b c d : Char) : Option Nat := do
  return (((← hexDigit? a) * 16 + (← hexDigit? b)) * 16 + (← hexDigit? c)) * 16 + (← hexDigit? d)

/-- The character that a letter stands for behind a backslash. -/
def escaped? : Char → Option Char
  | '"' => some '"'
  | '\\' => some '\\'
  | '/' => some '/'
  | 'b' => some '\x08'
  | 'f' => some '\x0c'
  | 'n' => some '\n'
  | 'r' => some '\r'
  | 't' => some '\t'
  | _ => none

/-- A word that opens a surrogate pair. -/
def isHighSurrogate (w : Nat) : Bool := 0xd800 ≤ w && w < 0xdc00

/-- A word that closes a surrogate pair. -/
def isLowSurrogate (w : Nat) : Bool := 0xdc00 ≤ w && w < 0xe000

/-- The characters that a body stands for; `none` where an escape is malformed or a surrogate lacks
its partner. -/
def decodeBody : List Char → Option (List Char)
  | [] => some []
  | '\\' :: 'u' :: a :: b :: c :: d :: rest => do
    let word ← hexWord? a b c d
    if isHighSurrogate word then
      match rest with
      | '\\' :: 'u' :: a :: b :: c :: d :: rest => do
        let low ← hexWord? a b c d
        if isLowSurrogate low then
          let chars ← decodeBody rest
          return Char.ofNat (0x10000 + (word - 0xd800) * 0x400 + (low - 0xdc00)) :: chars
        else none
      | _ => none
    else if isLowSurrogate word then none
    else
      let chars ← decodeBody rest
      return Char.ofNat word :: chars
  | '\\' :: c :: rest => do
    let char ← escaped? c
    let chars ← decodeBody rest
    return char :: chars
  | ['\\'] => none
  | c :: rest => do
    let chars ← decodeBody rest
    return c :: chars

/-- The text that a string stands for. -/
def decode? (q : Quoted) : Option String := (decodeBody q.body).map String.ofList

/-- The lower case hexadecimal digit of a number below sixteen. -/
def hexChar (n : Nat) : Char := if n < 10 then Char.ofNat (48 + n) else Char.ofNat (87 + n)

/-- A character as it stands in a body: quotation marks, backslashes and control characters are
escaped, all others are not. -/
def escapeChar (c : Char) : List Char :=
  match c with
  | '"' => ['\\', '"']
  | '\\' => ['\\', '\\']
  | '\x08' => ['\\', 'b']
  | '\x0c' => ['\\', 'f']
  | '\n' => ['\\', 'n']
  | '\r' => ['\\', 'r']
  | '\t' => ['\\', 't']
  | c =>
    if c < ' ' then ['\\', 'u', '0', '0', hexChar (c.toNat / 16), hexChar (c.toNat % 16)] else [c]

/-- The string that stands for a text. -/
def ofString (s : String) : Quoted := ⟨s.toList.flatMap escapeChar⟩

/-- The string with its quotation marks. -/
def chars (q : Quoted) : List Char := '"' :: q.body ++ ['"']

end Quoted

/-! ## Numbers -/

namespace Numeral

/-- A whole number without sign. -/
def ofNat (n : Nat) : Numeral := ⟨false, Decimal.digitChars n, [], none⟩

/-- The number in characters. -/
def chars (n : Numeral) : List Char :=
  (if n.negative then ['-'] else []) ++ n.whole ++
    (if n.fraction.isEmpty then [] else '.' :: n.fraction) ++
    match n.exponent with
    | none => []
    | some (negative, digits) => 'e' :: (if negative then '-' else '+') :: digits

end Numeral

/-! ## Writing -/

namespace Json

/-- A whole number. -/
def ofNat (n : Nat) : Json := number (.ofNat n)

/-- A text. -/
def ofString (s : String) : Json := string (.ofString s)

/-- A list of whole numbers. -/
def ofNats (ns : List Nat) : Json := array (ns.map ofNat)

/-- Values by names that need no escapes or are escaped here. -/
def ofMembers (members : List (String × Json)) : Json :=
  object (members.map fun m => (.ofString m.1, m.2))

/-- A value, or null where there is none. -/
def ofOption {α : Type} (f : α → Json) : Option α → Json
  | none => null
  | some a => f a

/-- A truth value in characters. -/
def boolChars (b : Bool) : List Char := (if b then "true" else "false").toList

mutual

/-- The text without any space. -/
def compactChars : Json → List Char
  | null => "null".toList
  | bool b => boolChars b
  | number n => n.chars
  | string q => q.chars
  | array items => '[' :: compactItems items
  | object members => '{' :: compactMembers members

/-- What follows the opening bracket of a list. -/
def compactItems : List Json → List Char
  | [] => [']']
  | item :: rest =>
    compactChars item ++ match rest with
      | [] => [']']
      | rest => ',' :: compactItems rest

/-- What follows the opening brace of an object. -/
def compactMembers : List (Quoted × Json) → List Char
  | [] => ['}']
  | (name, value) :: rest =>
    name.chars ++ ':' :: compactChars value ++ match rest with
      | [] => ['}']
      | rest => ',' :: compactMembers rest

end

/-- The text without any space. -/
def compact (j : Json) : String := String.ofList j.compactChars

/-- A new line, indented by two spaces for every level of nesting. -/
def newLine (depth : Nat) : List Char := '\n' :: List.replicate (2 * depth) ' '

mutual

/-- The text with every item and member on a line of its own. -/
def prettyChars (depth : Nat) : Json → List Char
  | array (item :: rest) => '[' :: prettyItems depth (item :: rest)
  | object (member :: rest) => '{' :: prettyMembers depth (member :: rest)
  | array [] => ['[', ']']
  | object [] => ['{', '}']
  | null => "null".toList
  | bool b => boolChars b
  | number n => n.chars
  | string q => q.chars

/-- The lines behind the opening bracket of a list. -/
def prettyItems (depth : Nat) : List Json → List Char
  | [] => newLine depth ++ [']']
  | item :: rest =>
    newLine (depth + 1) ++ prettyChars (depth + 1) item ++ match rest with
      | [] => newLine depth ++ [']']
      | rest => ',' :: prettyItems depth rest

/-- The lines behind the opening brace of an object. -/
def prettyMembers (depth : Nat) : List (Quoted × Json) → List Char
  | [] => newLine depth ++ ['}']
  | (name, value) :: rest =>
    newLine (depth + 1) ++ name.chars ++ ':' :: ' ' :: prettyChars (depth + 1) value ++
      match rest with
      | [] => newLine depth ++ ['}']
      | rest => ',' :: prettyMembers depth rest

end

/-- The text with every item and member on a line of its own. -/
def pretty (j : Json) : String := String.ofList (j.prettyChars 0)

end Json

end Midframe
