import Midframe.Command.Pattern
import Midframe.Count
import Midframe.Text.Number

/-!
# Log filters

A log filter is a list of directives between commas. A directive is a level, a target, or a target
with a level behind an equals sign; a span in brackets, with a field in braces, may stand in front
of the level or take the place of the target. A field may have a value, which is a truth value, a
number or a regular expression. The program itself logs nothing that its answers depend on, so all
that matters is whether a filter is well formed.

White space around a directive is no part of it. Positions are counted in bytes from the first
character behind that white space, but the parts between them are taken from the directive as it
stands, and so lie further to the front where it starts with white space.
-/

namespace Midframe

namespace LogFilter

/-- Why a filter cannot be read. -/
inductive Flaw
  /-- A directive is not well formed. -/
  | malformed
  /-- A part of a directive starts or ends inside a character. -/
  | splitCharacter
deriving DecidableEq, Repr

/-- The names of the levels. Level `i` may also be written as the number `i`. -/
def levelNames : List String := ["off", "error", "warn", "info", "debug", "trace"]

/-- Whether a text names a level; nothing at all is one as well. -/
def isLevel (text : String) : Bool :=
  text.isEmpty || levelNames.contains text.toLower ||
    match decimalCount? text.toList with
    | some n => n < levelNames.length
    | none => false

/-! ## Fields -/

/-- Whether some characters are the value of a field. Truth values are regular expressions as
well. -/
def isValue (text : List Char) : Bool := isNumber text || Pattern.isValid text

/-- Whether some characters are a field: a name, and possibly a value behind an equals sign. What
follows a second equals sign does not count. -/
def isField (text : List Char) : Bool :=
  match text.dropWhile (· != '=') with
  | [] => !text.isEmpty
  | _ :: rest => isValue (rest.takeWhile (· != '='))

/-! ## Directives -/

/-- The two parts of a text in front of a byte and behind it; `none` if it lies inside a
character. -/
def splitAt? : List Char → Nat → Option (List Char × List Char)
  | text, 0 => some ([], text)
  | [], _ + 1 => none
  | c :: rest, position + 1 =>
    if position + 1 < c.utf8Size then none
    else (splitAt? rest (position + 1 - c.utf8Size)).map fun (front, back) => (c :: front, back)

/-- What is behind a byte of a text. -/
def behind (text : List Char) (start : Nat) : Except Flaw (List Char) :=
  match splitAt? text start with
  | some (_, back) => .ok back
  | none => .error .splitCharacter

/-- What is between two bytes of a text. -/
def between (text : List Char) (start stop : Nat) : Except Flaw (List Char) := do
  match splitAt? (← behind text start) (stop - start) with
  | some (front, _) => return front
  | none => throw .splitCharacter

/-- Where the reading of a directive stands. -/
inductive Reading
  /-- Nothing has been read. -/
  | start
  /-- Inside a level or a target. -/
  | word
  /-- Inside the name of a span that started at the given byte. -/
  | span (start : Nat)
  /-- Inside a field that started at the given byte. -/
  | field (start : Nat)
  /-- Behind the field of a span. -/
  | fields
  /-- Behind a target or a span. -/
  | target
  /-- Inside a level that started at the given byte. -/
  | level (start : Nat)
deriving DecidableEq, Repr

/-- A character that a directive may start with. -/
def startsDirective (c : Char) : Bool := c == '-' || c == ':' || c == '_' || isLetterOrNumber c

/-- The reading of a directive behind a character of it, which starts at byte `i`. -/
def advance (text : List Char) (r : Reading) (i : Nat) (c : Char) : Except Flaw Reading := do
  match r, c with
  | .start, '[' => return .span (i + 1)
  | .start, c => if startsDirective c then return .word else throw .malformed
  | .word, '=' =>
    let _ ← between text 0 i
    return .level (i + 1)
  | .word, '[' =>
    let _ ← between text 0 i
    return .span (i + 1)
  | .word, _ => return .word
  | .target, '=' => return .level (i + 1)
  | .target, _ => throw .malformed
  | .span start, ']' =>
    let _ ← between text start i
    return .target
  | .span start, '\x7b' =>
    let _ ← between text start i
    return .field (i + 1)
  | .span start, _ => return .span start
  | .field start, '\x7d' =>
    if isField (← between text start i) then return .fields else throw .malformed
  | .field start, _ => return .field start
  | .fields, ']' => return .target
  | .fields, _ => throw .malformed
  | .level start, _ => return .level start

/-- The reading of a directive behind all characters from byte `i` on. -/
def advanceAll (text : List Char) (r : Reading) (i : Nat) : List Char → Except Flaw Reading
  | [] => .ok r
  | c :: rest => do advanceAll text (← advance text r i c) (i + c.utf8Size) rest

/-- Reads a directive. -/
def checkDirective (text : List Char) : Except Flaw Unit := do
  match ← advanceAll text .start 0 (trimWhiteSpace text) with
  | .word | .target => return ()
  | .level start =>
    if isLevel (String.ofList (← behind text start)) then return () else throw .malformed
  | _ => throw .malformed

/-- Reads a filter. Empty directives are passed over. -/
def check (text : String) : Except Flaw Unit :=
  (text.toList.splitOn ',').forM fun directive =>
    if directive.isEmpty then .ok () else checkDirective directive

end LogFilter

end Midframe
