import Midframe.Json.Tree
import Midframe.Text.Character

/-!
# Regular expressions

A value in a log filter is a regular expression. Nothing is ever matched against it, so all that is
told here is whether it is one that can be used: it must be well formed, nest no deeper than
`maxDepth`, and keep to what is known. In Unicode mode, no kind of characters is known and no word
boundary, and no letter is taken for both cases; outside of it, nothing may stand for a part of a
character.

Braces have no place here outside of classes, since a filter holds none in pairs. Every reader takes
the characters that are left and gives back those behind what it read; `none` means that there is no
way to go on.
-/

namespace Midframe

namespace Pattern

/-- How deeply an expression may be nested. -/
def maxDepth : Nat := 250

/-- What the letters in front of an expression switch on and off, as far as it counts here. -/
structure Mode where
  /-- Letters stand for both cases. -/
  ignoreCase : Bool := false
  /-- Characters are taken as a whole. -/
  unicode : Bool := true
  /-- White space and comments are passed over. -/
  spaced : Bool := false
deriving DecidableEq, Repr

/-! ## Single pieces -/

/-- What is left behind white space and comments. A comment goes from a number sign to the end of
its line. -/
def skipBlanks (comment : Bool) : List Char → List Char
  | [] => []
  | c :: rest =>
    if comment then skipBlanks (c != '\n') rest
    else if isWhiteSpace c then skipBlanks false rest
    else if c == '#' then skipBlanks true rest
    else c :: rest

/-- What is left behind everything that a mode passes over. -/
def Mode.skip (m : Mode) (text : List Char) : List Char :=
  if m.spaced then skipBlanks false text else text

/-- White space and comments are passed over forwards. -/
theorem skipBlanks_length (comment : Bool) (text : List Char) :
    (skipBlanks comment text).length ≤ text.length := by
  induction text generalizing comment with
  | nil => simp [skipBlanks]
  | cons c rest ih =>
    unfold skipBlanks
    split
    · exact Nat.le_succ_of_le (ih _)
    · split
      · exact Nat.le_succ_of_le (ih _)
      · split
        · exact Nat.le_succ_of_le (ih _)
        · exact Nat.le_refl _

/-- A mode passes over text forwards. -/
theorem Mode.skip_length (m : Mode) (text : List Char) : (m.skip text).length ≤ text.length := by
  unfold Mode.skip
  split
  · exact skipBlanks_length false text
  · exact Nat.le_refl _

/-- A piece that has no pieces in it. -/
inductive Piece
  /-- The character of a code; `isByte` if it was written as a byte. -/
  | character (code : Nat) (isByte : Bool)
  /-- Any character. -/
  | any
  /-- A character of a kind, or one that is not of the kind. -/
  | kind (negated : Bool)
  /-- The start or the end of a word, or that there is neither. -/
  | boundary
  /-- The start or the end of a line or of the whole text. -/
  | anchor
deriving DecidableEq, Repr

/-- Whether a piece can be used in a mode. -/
def Piece.isKnown (m : Mode) : Piece → Bool
  | character code isByte => if m.unicode then !m.ignoreCase else !isByte || code < 128
  | any => m.unicode
  | kind negated => !m.unicode && !negated
  | boundary => !m.unicode
  | anchor => true

/-- Whether a piece can be used as a member of a class. Outside of Unicode mode a class has bytes
for members. -/
def Piece.isMember (m : Mode) : Piece → Bool
  | character code isByte => (character code isByte).isKnown m && (m.unicode || code < 128)
  | kind negated => (kind negated).isKnown m
  | _ => false

/-- The code that a number of hexadecimal digits stand for. -/
def readHex (m : Mode) (code : Nat) : Nat → List Char → Option (Nat × List Char)
  | 0, text => if code.isValidChar then some (code, m.skip text) else none
  | n + 1, text =>
    match m.skip text with
    | [] => none
    | c :: rest => do readHex m (16 * code + (← Quoted.hexDigit? c)) n rest

/-- The piece behind a backslash. -/
def readEscape (m : Mode) : List Char → Option (Piece × List Char)
  | [] => none
  | c :: rest =>
    let coded (digits : Nat) : Option (Piece × List Char) :=
      (readHex m 0 digits rest).map fun (code, rest) => (.character code (digits == 2), rest)
    match c with
    | 'x' => coded 2
    | 'u' => coded 4
    | 'U' => coded 8
    | 'd' | 's' | 'w' => some (.kind false, rest)
    | 'D' | 'S' | 'W' => some (.kind true, rest)
    | 'b' | 'B' | '<' | '>' => some (.boundary, rest)
    | 'A' | 'z' => some (.anchor, rest)
    | 'a' => some (.character 7 false, rest)
    | 't' => some (.character 9 false, rest)
    | 'n' => some (.character 10 false, rest)
    | 'v' => some (.character 11 false, rest)
    | 'f' => some (.character 12 false, rest)
    | 'r' => some (.character 13 false, rest)
    | c => if c.toNat < 128 && !c.isAlphanum then some (.character c.toNat false, rest) else none

/-- A piece outside of classes. -/
def readPiece (m : Mode) : List Char → Option (Piece × List Char)
  | [] => none
  | '\\' :: rest => readEscape m rest
  | '.' :: rest => some (.any, rest)
  | '^' :: rest | '$' :: rest => some (.anchor, rest)
  | c :: rest => some (.character c.toNat false, rest)

/-- The depth of pieces side by side: one more than the deepest, unless there is but one. -/
def joinedDepth : List Nat → Nat
  | [] => 0
  | [depth] => depth
  | depths => 1 + depths.foldl max 0

/-! ## Classes -/

/-- A class while it is read. -/
structure Bracket where
  /-- The depth of what stands in front of the last operator, if there is one. -/
  left : Option Nat
  /-- The depths of the members behind it. -/
  members : List Nat
deriving DecidableEq, Repr

namespace Bracket

/-- The class with one more member. -/
def add (b : Bracket) (depth : Nat) : Bracket := { b with members := depth :: b.members }

/-- The depth of all that has been read. -/
def depth (b : Bracket) : Nat :=
  match b.left with
  | none => joinedDepth b.members
  | some left => 1 + max left (joinedDepth b.members)

end Bracket

/-- The number of dashes that a text starts with, and what is left behind them. -/
def readDashes (m : Mode) (text : List Char) : Nat × List Char :=
  match text with
  | '-' :: rest =>
    let (n, rest) := readDashes m (m.skip rest)
    (n + 1, rest)
  | text => (0, text)
termination_by text.length
decreasing_by exact Nat.lt_succ_of_le (m.skip_length rest)

/-- The class behind an opening bracket. Dashes are members of it where they come first, and so is a
closing bracket. A class of all bytes but some holds parts of characters. -/
def openBracket (m : Mode) (text : List Char) : Option (Bracket × List Char) :=
  let (negated, text) := match m.skip text with
    | '^' :: rest => (true, m.skip rest)
    | text => (false, text)
  let (members, text) := match readDashes m text with
    | (0, ']' :: rest) => (1, m.skip rest)
    | read => read
  if text.isEmpty || (negated && !m.unicode) ||
      (0 < members && !(Piece.character '-'.toNat false).isMember m) then none
  else some (⟨none, List.replicate members 0⟩, text)

/-- The names of the kinds of ASCII characters. -/
def kindNames : List String :=
  ["alnum", "alpha", "ascii", "blank", "cntrl", "digit", "graph", "lower", "print", "punct",
    "space", "upper", "word", "xdigit"]

/-- Whether the kind of ASCII characters behind an opening bracket inside a class is negated. -/
def readKind : List Char → Option (Bool × List Char)
  | ':' :: text =>
    let (negated, text) := match text with
      | '^' :: rest => (true, rest)
      | text => (false, text)
    match text.span (· != ':') with
    | (name, ':' :: ']' :: rest) =>
      if kindNames.contains (String.ofList name) then some (negated, rest) else none
    | _ => none
  | _ => none

/-- A member of a class, or the end of a range of members. -/
def readEnd (m : Mode) : List Char → Option (Piece × List Char)
  | [] => none
  | '\\' :: rest => readEscape m rest
  | c :: rest => some (.character c.toNat false, rest)

/-- Whether the dash in front of a text is no sign of a range: a closing bracket follows it or
another dash. White space is passed over on the way, but of comments only the sign of the first. -/
def endsAtDash (m : Mode) (text : List Char) : Bool :=
  let text := if !m.spaced then text else match text.dropWhile isWhiteSpace with
    | '#' :: rest => rest.dropWhile isWhiteSpace
    | text => text
  match text with
  | ']' :: _ | '-' :: _ => true
  | _ => false

/-- What is left behind a member of a class or a range of members. -/
def readMember (m : Mode) (text : List Char) : Option (List Char) := do
  let (first, rest) ← readEnd m text
  let single (rest : List Char) : Option (List Char) :=
    if first.isMember m then some rest else none
  match m.skip rest with
  | [] => none
  | '-' :: behind =>
    if endsAtDash m behind then single ('-' :: behind)
    else
      let (last, rest) ← readEnd m (m.skip behind)
      match first, last with
      | .character low _, .character high _ =>
        if first.isMember m && last.isMember m && low ≤ high then some rest else none
      | _, _ => none
  | rest => single rest

/-- The depth of a class inside its brackets, and what is left behind it. The fuel bounds the number
of steps, each of which takes a character at least. -/
def readBracket (m : Mode) (b : Bracket) (outer : List Bracket) :
    Nat → List Char → Option (Nat × List Char)
  | 0, _ => none
  | fuel + 1, text =>
    match m.skip text with
    | '[' :: rest =>
      match readKind rest with
      | some (negated, rest) =>
        if if m.unicode then !m.ignoreCase else !negated then
          readBracket m (b.add 0) outer fuel rest
        else none
      | none => do
        let (inner, rest) ← openBracket m rest
        readBracket m inner (b :: outer) fuel rest
    | ']' :: rest =>
      match outer with
      | [] => some (1 + b.depth, rest)
      | next :: outer => readBracket m (next.add (1 + b.depth)) outer fuel rest
    | '&' :: '&' :: rest | '-' :: '-' :: rest | '~' :: '~' :: rest =>
      readBracket m ⟨some b.depth, []⟩ outer fuel rest
    | text => do readBracket m (b.add 0) outer fuel (← readMember m text)

/-! ## Groups -/

/-- The letters that switch a mode, and the dash that switches off. -/
def modeLetters : List Char := ['i', 'm', 's', 'U', 'u', 'R', 'x', '-']

/-- Whether letters can switch a mode: none comes twice, and something follows the dash. -/
def areModeLetters (letters : List Char) : Bool :=
  letters.all modeLetters.contains && decide letters.Nodup && letters.getLast? != some '-'

/-- The mode that letters switch to. -/
def Mode.switched (m : Mode) (on : Bool) : List Char → Mode
  | [] => m
  | c :: rest =>
    match c with
    | '-' => m.switched false rest
    | 'i' => Mode.switched { m with ignoreCase := on } on rest
    | 'u' => Mode.switched { m with unicode := on } on rest
    | 'x' => Mode.switched { m with spaced := on } on rest
    | _ => m.switched on rest

/-- Whether some characters are a name. -/
def isName : List Char → Bool
  | [] => false
  | c :: rest =>
    (c == '_' || isAlphabetic c) &&
      rest.all fun c => c == '_' || c == '.' || c == '[' || c == ']' || isLetterOrNumber c

/-- What stands behind an opening parenthesis. -/
inductive Opening
  /-- A group in a mode, which may have a name. -/
  | group (mode : Mode) (name : Option (List Char))
  /-- A switch of the mode for the rest of the group around it. -/
  | switch (mode : Mode)
deriving DecidableEq, Repr

/-- What an opening parenthesis opens. -/
def readOpening (m : Mode) (text : List Char) : Option (Opening × List Char) :=
  let named (text : List Char) : Option (Opening × List Char) :=
    match text.span (· != '>') with
    | (name, _ :: rest) => if isName name then some (.group m (some name), rest) else none
    | _ => none
  match m.skip text with
  | '?' :: 'P' :: '<' :: rest => named rest
  | '?' :: '<' :: rest => named rest
  | '?' :: rest =>
    match rest.span fun c => c != ':' && c != ')' with
    | (_, []) => none
    | (letters, close :: rest) =>
      if !areModeLetters letters || (letters.isEmpty && close == ')') then none
      else if close == ')' then some (.switch (m.switched true letters), rest)
      else some (.group (m.switched true letters) none, rest)
  | text => some (.group m none, text)

/-! ## Expressions -/

/-- A group while it is read. -/
structure Level where
  /-- The mode behind the group. -/
  back : Mode
  /-- The depths of the alternatives that have been read. -/
  alternatives : List Nat
  /-- The depths of the pieces of the alternative that is being read, the last one first; `none` is
  a switch of the mode, which cannot be repeated. -/
  pieces : List (Option Nat)
deriving DecidableEq, Repr

namespace Level

/-- The level with one more piece. -/
def add (l : Level) (piece : Option Nat) : Level := { l with pieces := piece :: l.pieces }

/-- The depth of the alternative that is being read. -/
def alternative (l : Level) : Nat := joinedDepth (l.pieces.map fun piece => piece.getD 0)

/-- The level at the start of its next alternative. -/
def next (l : Level) : Level := ⟨l.back, l.alternative :: l.alternatives, []⟩

/-- The depth of all that has been read. -/
def depth (l : Level) : Nat := joinedDepth (l.alternative :: l.alternatives)

/-- The level with its last piece repeated. -/
def repeated? (l : Level) : Option Level :=
  match l.pieces with
  | some depth :: pieces => some { l with pieces := some (1 + depth) :: pieces }
  | _ => none

end Level

/-- Where the reading of an expression stands. -/
structure Reading where
  /-- The mode. -/
  mode : Mode := {}
  /-- The names of the groups so far. -/
  names : List (List Char) := []
  /-- The innermost group. -/
  level : Level := ⟨{}, [], []⟩
  /-- The groups around it, the innermost one first. -/
  outer : List Level := []

namespace Reading

/-- The reading behind one more piece of a depth. -/
def add (r : Reading) (depth : Nat) : Reading := { r with level := r.level.add (some depth) }

/-- The reading behind an opening parenthesis. A name is given once. -/
def opened? (r : Reading) : Opening → Option Reading
  | .switch mode => some { r with mode, level := r.level.add none }
  | .group mode name =>
    if name.any r.names.contains then none
    else some ⟨mode, name.toList ++ r.names, ⟨r.mode, [], []⟩, r.level :: r.outer⟩

/-- The reading behind a closing parenthesis. -/
def closed? (r : Reading) : Option Reading :=
  match r.outer with
  | [] => none
  | level :: outer =>
    some { r with mode := r.level.back, level := level.add (some (1 + r.level.depth)), outer }

/-- The reading behind the next sign, and what is left; the text does not start with anything that
is passed over. -/
def step (r : Reading) : List Char → Option (Reading × List Char)
  | [] => none
  | '(' :: rest => do
    let (opening, rest) ← readOpening r.mode rest
    return (← r.opened? opening, rest)
  | ')' :: rest => do return (← r.closed?, rest)
  | '|' :: rest => some ({ r with level := r.level.next }, rest)
  | '[' :: rest => do
    let (b, rest) ← openBracket r.mode rest
    let (depth, rest) ← readBracket r.mode b [] (rest.length + 1) rest
    return (r.add depth, rest)
  | '\x7b' :: _ => none
  | c :: rest =>
    if c == '*' || c == '+' || c == '?' then do
      return ({ r with level := ← r.level.repeated? }, match rest with
        | '?' :: rest => rest
        | rest => rest)
    else do
      let (piece, rest) ← readPiece r.mode (c :: rest)
      if piece.isKnown r.mode then return (r.add 0, rest) else none

/-- The depth of a whole expression. The fuel bounds the number of steps, each of which takes a
character at least. -/
def depth? (r : Reading) : Nat → List Char → Option Nat
  | 0, _ => none
  | fuel + 1, text =>
    match r.mode.skip text with
    | [] => if r.outer.isEmpty then some r.level.depth else none
    | text => do
      let (r, rest) ← r.step text
      r.depth? fuel rest

end Reading

/-- Whether a text is a regular expression that can be used. -/
def isValid (text : List Char) : Bool :=
  match Reading.depth? {} (text.length + 1) text with
  | some depth => depth ≤ maxDepth
  | none => false

end Pattern

end Midframe
