import Midframe.Spec.Basic
import Midframe.Spec.Token

/-!
# What can be wrong with a specification

The first four groups are found while a text is read and name the byte at which reading stopped. The
last one is found when the chain that a text denotes is fitted to a channel plan.
-/

namespace Midframe

/-- What is wrong at one place of a text. -/
inductive TextFlaw
  /-- No token starts with the character. -/
  | unexpectedCharacter (c : Char)
  /-- A word was due. -/
  | expectedIdentifier (found : Token)
  /-- The token `wanted` was due. -/
  | expected (wanted found : Token)
  /-- An argument was due. -/
  | expectedArgument (found : Token)
  /-- No operation has this name. -/
  | unknownKeyword (name : String)
  /-- No flag has this name. -/
  | unknownFlag (name : String)
  /-- The operation does not take the argument, which is given as it is shown. -/
  | unexpectedArgument (shown keyword : String)
  /-- A kernel size is no whole number from 1 to 255. -/
  | kernelSize (keyword : String) (value : Float)
  /-- The operation takes no second argument. -/
  | tooManyArguments (keyword : String)
  /-- An operation that must come first does not. -/
  | evenizeNotFirst
deriving DecidableEq, Repr

namespace TextFlaw

/-- The largest kernel size that a convolution may ask for. -/
def maxKernel : Nat := 255

/-- The flaw in words. -/
def message : TextFlaw → String
  | unexpectedCharacter c => "unexpected character '" ++ String.singleton c ++ "'"
  | expectedIdentifier found => "expected identifier, found " ++ found.text
  | expected wanted found => "expected " ++ wanted.text ++ ", found " ++ found.text
  | expectedArgument found => "expected argument, found " ++ found.text
  | unknownKeyword name => s!"unknown keyword '{name}'"
  | unknownFlag name => s!"unknown flag '{name}'"
  | unexpectedArgument shown keyword => s!"unexpected argument '{shown}' for '{keyword}'"
  | kernelSize keyword value =>
    s!"'{keyword}' kernel size must be in 1..={maxKernel}, got " ++ Layout.prose.text value
  | tooManyArguments keyword => s!"'{keyword}' takes at most one argument"
  | evenizeNotFirst => "'evenize' is only valid as the first op of a chain"

end TextFlaw

/-- What is wrong with a specification. -/
inductive SpecFlaw
  /-- The text cannot be read. -/
  | text (offset : Nat) (flaw : TextFlaw)
  /-- The channel plan has no entry at all. -/
  | emptyPlan
  /-- `evenize` stands behind another operation. -/
  | evenizeNotFirst
  /-- No entry of the plan is left for a convolution. -/
  | planRunsOut (plan : List Nat) (index : Nat) (op : Op)
  /-- A convolution weight is too large to be addressed. -/
  | weightTooLarge (index outChannels inChannels kernel : Nat)
  /-- Not exactly one entry of the plan is left behind the chain. -/
  | planLeaves (plan : List Nat) (remaining : Nat)
  /-- The weight of the shortcut is too large to be addressed. -/
  | projectionTooLarge (outChannels inChannels : Nat)
deriving DecidableEq, Repr

/-- Numbers as a list in brackets. -/
def listText (xs : List Nat) : String := "[" ++ ", ".intercalate (xs.map toString) ++ "]"

namespace SpecFlaw

/-- The flaw in words. -/
def message : SpecFlaw → String
  | text offset flaw => s!"at byte {offset}: " ++ flaw.message
  | emptyPlan => "channel plan is empty"
  | evenizeNotFirst => TextFlaw.evenizeNotFirst.message
  | planRunsOut plan index op =>
    "channel plan " ++ listText plan ++ s!" runs out at op {index} (" ++ op.kind ++ ")"
  | weightTooLarge index outChannels inChannels kernel =>
    s!"op {index}: a {outChannels}x{inChannels}x{kernel}x{kernel} weight is too large"
  | planLeaves plan remaining =>
    "channel plan " ++ listText plan ++
      s!" leaves {remaining} entries after the chain, expected 1"
  | projectionTooLarge outChannels inChannels =>
    s!"a {outChannels}x{inChannels} shortcut projection is too large"

end SpecFlaw

end Midframe
