import Midframe.Fault
import Midframe.Scalar

/-!
# Reading block specifications

A specification is a chain of operations separated by `-`, followed by flags that each start with
`+`. An operation is a word with optional arguments in parentheses; arguments are separated by
commas, and a number may carry a minus sign. Reading goes from left to right and stops at the first
flaw, which is reported with the byte at which it was found. Every step consumes at least one token,
so that reading comes to an end on every text.
-/

namespace Midframe

/-- A place in the text and what is wrong there. -/
abbrev TextFault := Nat × TextFlaw

/-- What stands between the parentheses of an operation. -/
inductive Argument
  /-- A word. -/
  | word (name : String)
  /-- A number with its sign. -/
  | number (value : Float)
deriving DecidableEq, Repr

namespace Argument

/-- The argument as messages repeat it. -/
def shown : Argument → String
  | word name => name
  | number value => Layout.prose.text value

end Argument

/-- An argument and the byte at which it starts. -/
structure LocatedArgument where
  /-- The argument. -/
  argument : Argument
  /-- The byte at which it starts, sign included. -/
  start : Nat
deriving DecidableEq, Repr

/-! ## Operations from their arguments -/

namespace Op

/-- The operation does not take this argument. -/
def refuse {α : Type} (keyword : String) (a : LocatedArgument) : Except TextFault α :=
  .error (a.start, .unexpectedArgument a.argument.shown keyword)

/-- The border that a list of words ends on; a later word replaces an earlier one. -/
def readBorder (keyword : String) (border : Border) :
    List LocatedArgument → Except TextFault Border
  | [] => .ok border
  | a :: rest => match a.argument with
    | .number _ => refuse keyword a
    | .word name => match Border.ofKeyword? name with
      | some border => readBorder keyword border rest
      | none => refuse keyword a

/-- The kernel size that a number stands for: a whole number from 1 to 255. -/
def kernelSize? (value : Float) : Option Nat :=
  let size := Scalar.truncate value
  if Float.ofNat size == value && 1 ≤ size && size ≤ TextFlaw.maxKernel then some size else none

/-- The kernel size and border of a convolution. A number may only come first. -/
def readKernel (keyword : String) :
    List LocatedArgument → Except TextFault (Nat × Border)
  | ⟨.number value, start⟩ :: rest => match kernelSize? value with
    | some size => (readBorder keyword .zeros rest).map fun border => (size, border)
    | none => .error (start, .kernelSize keyword value)
  | arguments => (readBorder keyword .zeros arguments).map fun border => (3, border)

/-- The upsampling that the arguments ask for. -/
def readUpsampling (start : Nat) : List LocatedArgument → Except TextFault Upsampling
  | [] => .ok .bilinear
  | [a] => match a.argument with
    | .number _ => refuse "up" a
    | .word name => match Upsampling.ofKeyword? name with
      | some algorithm => .ok algorithm
      | none => refuse "up" a
  | _ => .error (start, .tooManyArguments "up")

/-- The initial slope that the arguments ask for. -/
def readSlope (start : Nat) : List LocatedArgument → Except TextFault Float32
  | [] => .ok 0.25
  | [a] => match a.argument with
    | .number value => .ok (Widening.narrow value)
    | .word _ => refuse "prelu" a
  | _ => .error (start, .tooManyArguments "prelu")

/-- The operation of a keyword, as a function of the place of the keyword and the arguments. -/
def ofKeyword? : String → Option (Nat → List LocatedArgument → Except TextFault Op)
  | "evenize" => some fun _ arguments => (readBorder "evenize" .zeros arguments).map evenize
  | "conv" => some fun _ arguments => (readKernel "conv" arguments).map fun (k, b) => conv k b
  | "sconv" => some fun _ arguments => (readKernel "sconv" arguments).map fun (k, b) => sconv k b
  | "up" => some fun start arguments => (readUpsampling start arguments).map up
  | "prelu" => some fun start arguments => (readSlope start arguments).map prelu
  | _ => none

/-- Whether the operation may only come first. -/
def isEvenize : Op → Bool
  | evenize _ => true
  | _ => false

end Op

namespace Flags

/-- The flags with the named one raised. -/
def raise? (flags : Flags) : String → Option Flags
  | "skip" => some { flags with skip := true }
  | "nobias" => some { flags with noBias := true }
  | "nopad" => some { flags with noPad := true }
  | _ => none

end Flags

/-! ## Reading tokens

Each function takes the byte at which the text ends and the tokens that are left, and gives back the
tokens behind what it read. -/

namespace BlockSpec

/-- The next token and the byte at which it starts. -/
def peek (stop : Nat) : List Located → Token × Nat
  | [] => (.eof, stop)
  | l :: _ => (l.token, l.start)

/-- A flaw that names the next token, at its place. -/
def failAt {α : Type} (stop : Nat) (items : List Located) (flaw : Token → TextFlaw) :
    Except TextFault α :=
  let (token, start) := peek stop items
  .error (start, flaw token)

/-- One argument. Only a number may follow a sign. -/
def readArgument (stop : Nat) :
    List Located → Except TextFault (LocatedArgument × List Located)
  | ⟨.minus, start, _⟩ :: ⟨.number value, _, _⟩ :: rest => .ok (⟨.number (-value), start⟩, rest)
  | ⟨.minus, _, _⟩ :: rest => failAt stop rest .expectedArgument
  | ⟨.number value, start, _⟩ :: rest => .ok (⟨.number value, start⟩, rest)
  | ⟨.ident name, start, _⟩ :: rest => .ok (⟨.word name, start⟩, rest)
  | items => failAt stop items .expectedArgument

/-- An argument consumes tokens. -/
theorem readArgument_length {stop : Nat} {items rest : List Located} {a : LocatedArgument}
    (h : readArgument stop items = .ok (a, rest)) : rest.length < items.length := by
  unfold readArgument at h
  split at h
  · simp only [Except.ok.injEq, Prod.mk.injEq] at h
    rw [← h.2]
    simp only [List.length_cons]
    omega
  · exact absurd h (by simp [failAt])
  · simp only [Except.ok.injEq, Prod.mk.injEq] at h
    rw [← h.2]
    simp only [List.length_cons]
    omega
  · simp only [Except.ok.injEq, Prod.mk.injEq] at h
    rw [← h.2]
    simp only [List.length_cons]
    omega
  · exact absurd h (by simp [failAt])

/-- The arguments up to the closing parenthesis, of which there is at least one. -/
def readArguments (stop : Nat) (items : List Located) :
    Except TextFault (List LocatedArgument × List Located) :=
  match _found : readArgument stop items with
  | .error e => .error e
  | .ok (a, ⟨.comma, _, _⟩ :: rest) =>
    match readArguments stop rest with
    | .error e => .error e
    | .ok (arguments, rest) => .ok (a :: arguments, rest)
  | .ok (a, ⟨.rparen, _, _⟩ :: rest) => .ok ([a], rest)
  | .ok (_, rest) => failAt stop rest (.expected .rparen)
termination_by items.length
decreasing_by
  have := readArgument_length _found
  simp only [List.length_cons] at this
  omega

/-- Arguments consume tokens. -/
theorem readArguments_length {stop : Nat} {items rest : List Located}
    {arguments : List LocatedArgument} (h : readArguments stop items = .ok (arguments, rest)) :
    rest.length < items.length := by
  fun_induction readArguments stop items generalizing arguments rest with
  | case1 => exact absurd h (by simp)
  | case2 => exact absurd h (by simp)
  | case3 items a _ _ rest' found arguments' rest'' found' ih =>
    simp only [Except.ok.injEq, Prod.mk.injEq] at h
    obtain ⟨_, rfl⟩ := h
    have := readArgument_length found
    have := ih found'
    simp only [List.length_cons] at *
    omega
  | case4 items a _ _ rest' found =>
    simp only [Except.ok.injEq, Prod.mk.injEq] at h
    obtain ⟨_, rfl⟩ := h
    have := readArgument_length found
    simp only [List.length_cons] at *
    omega
  | case5 => exact absurd h (by simp [failAt])

/-- The arguments of an operation, if it has parentheses. -/
def readParentheses (stop : Nat) :
    List Located → Except TextFault (List LocatedArgument × List Located)
  | ⟨.lparen, _, _⟩ :: ⟨.rparen, _, _⟩ :: rest => .ok ([], rest)
  | ⟨.lparen, _, _⟩ :: rest => readArguments stop rest
  | items => .ok ([], items)

/-- Parentheses add no tokens. -/
theorem readParentheses_length {stop : Nat} {items rest : List Located}
    {arguments : List LocatedArgument} (h : readParentheses stop items = .ok (arguments, rest)) :
    rest.length ≤ items.length := by
  unfold readParentheses at h
  split at h
  · simp only [Except.ok.injEq, Prod.mk.injEq] at h
    rw [← h.2]
    simp only [List.length_cons]
    omega
  · have := readArguments_length h
    simp only [List.length_cons]
    omega
  · simp only [Except.ok.injEq, Prod.mk.injEq] at h
    exact h.2 ▸ Nat.le_refl _

/-- One operation, with the byte at which its keyword starts. -/
def readOp (stop : Nat) : List Located → Except TextFault ((Nat × Op) × List Located)
  | ⟨.ident keyword, start, _⟩ :: rest =>
    match Op.ofKeyword? keyword with
    | none => .error (start, .unknownKeyword keyword)
    | some build =>
      match readParentheses stop rest with
      | .error e => .error e
      | .ok (arguments, rest) => match build start arguments with
        | .error e => .error e
        | .ok op => .ok ((start, op), rest)
  | items => failAt stop items .expectedIdentifier

/-- An operation consumes tokens. -/
theorem readOp_length {stop : Nat} {items rest : List Located} {op : Nat × Op}
    (h : readOp stop items = .ok (op, rest)) : rest.length < items.length := by
  unfold readOp at h
  split at h
  · split at h
    · exact absurd h (by simp)
    · split at h
      · exact absurd h (by simp)
      · next found =>
        split at h
        · exact absurd h (by simp)
        · simp only [Except.ok.injEq, Prod.mk.injEq] at h
          obtain ⟨_, rfl⟩ := h
          have := readParentheses_length found
          simp only [List.length_cons]
          omega
  · exact absurd h (by simp [failAt])

/-- The operations of a chain. `isFirst` says whether none has been read yet. -/
def readChain (stop : Nat) (isFirst : Bool) (items : List Located) :
    Except TextFault (List Op × List Located) :=
  match _found : readOp stop items with
  | .error e => .error e
  | .ok ((start, op), rest) =>
    if op.isEvenize && !isFirst then .error (start, .evenizeNotFirst)
    else match rest with
      | ⟨.minus, _, _⟩ :: rest =>
        match readChain stop false rest with
        | .error e => .error e
        | .ok (ops, rest) => .ok (op :: ops, rest)
      | rest => .ok ([op], rest)
termination_by items.length
decreasing_by
  have := readOp_length _found
  simp only [List.length_cons] at this
  omega

/-- The flags behind a chain, added to those raised so far. -/
def readFlags (stop : Nat) (flags : Flags) :
    List Located → Except TextFault (Flags × List Located)
  | ⟨.plus, _, _⟩ :: ⟨.ident name, start, _⟩ :: rest =>
    match flags.raise? name with
    | none => .error (start, .unknownFlag name)
    | some flags => readFlags stop flags rest
  | ⟨.plus, _, _⟩ :: rest => failAt stop rest .expectedIdentifier
  | items => .ok (flags, items)

/-- What the tokens of a text denote: a chain, its flags, and nothing behind them. -/
def ofTokens (tokens : Tokens) : Except TextFault BlockSpec :=
  match readChain tokens.stop true tokens.items with
  | .error e => .error e
  | .ok (ops, rest) => match readFlags tokens.stop {} rest with
    | .error e => .error e
    | .ok (flags, []) => .ok ⟨ops, flags⟩
    | .ok (_, rest) => failAt tokens.stop rest (.expected .eof)

/-- What a text denotes. -/
def read (source : String) : Except Fault BlockSpec :=
  let flawed (e : TextFault) : Fault := .malformedSpec source (.text e.1 e.2)
  match Tokens.ofString source with
  | .error (offset, c) => .error (flawed (offset, .unexpectedCharacter c))
  | .ok tokens => (ofTokens tokens).mapError flawed

end BlockSpec

end Midframe
