import Midframe.Padding
import Midframe.Shape
import Midframe.Spec.Flaw

/-!
# Faults

Everything that can go wrong, by cause. A fault ends the construction or the pass that raised it.
The causes fall into kinds, one constructor of `Fault` each, and `Fault.message` holds the wording
of all of them. The constructors named `reported` carry the text of a fault that a caller raises in
a callback of its own.
-/

namespace Midframe

/-- Arrays or shapes that do not fit together. -/
inductive ShapeFlaw
  /-- A convolution meets another channel count than the one it was made for. -/
  | inputChannels (expected : Nat) (found : Shape)
  /-- A bias does not have one entry for every output channel. -/
  | biasSize (entries outChannels : Nat)
  /-- A kernel is larger than the padded input. The padding is named where an array was at hand. -/
  | kernelTooLarge (kernelHeight kernelWidth : Nat) (input : Shape) (padding : Option Nat)
  /-- The two sides of a sum differ in shape. -/
  | sum (left right : Shape)
  /-- The shortcut of a block does not fit its main chain. -/
  | shortcutSum (source : String) (left right : Shape)
  /-- The shape of the shortcut of a block does not fit that of its main chain. -/
  | shortcutShape (source : String) (left right : Shape)
  /-- An array is smaller than what is to be kept of it. -/
  | crop (found : Shape) (height width : Nat)
  /-- Arrays that are to be joined along their channels differ elsewhere, or there are none. -/
  | concatenation
  /-- The two frames of a pair differ. -/
  | frames (one two : Shape)
  /-- Vertical and horizontal kernels differ. -/
  | kernelPair (vertical horizontal : Shape)
  /-- An array does not hold one window for every position of the kernels. -/
  | window (input : Shape) (taps height width : Nat)
  /-- There is no channel beside the normalizer. -/
  | normalizer (found : Shape)
  /-- The kernels do not cover the frame. -/
  | heads (kernels frame : Shape)
  /-- A fault raised by a callback. -/
  | reported (text : String)
deriving DecidableEq, Repr

/-- Inputs and settings that are refused. -/
inductive InputFlaw
  /-- An edge cannot be repeated where there is none. -/
  | replicateEmpty (found : Shape)
  /-- A mirror image does not reach as far as the padding. -/
  | reflectTooLarge (padding : Padding) (found : Shape)
  /-- A scale is not a positive number. -/
  | scale (value : Float)
  /-- Nothing would be left of an array. -/
  | emptyResize (found : Shape) (scale : Float)
  /-- There is nothing to expand. -/
  | pyramidEmpty (found : Shape)
  /-- The channel lists of a pyramid differ in length. -/
  | channelLists (scope : String) (inputs outputs : Nat)
  /-- Not one input for every level. -/
  | levelInputs (scope : String) (expected found : Nat)
  /-- A level needs the value of a neighbour that has none. -/
  | emptyNeighbour (scope : String) (level neighbour : Nat)
  /-- The two frames differ in shape. -/
  | frameShapes (one two : Shape)
  /-- A frame does not have three channels. -/
  | frameChannels (found : Shape)
  /-- A frame has an odd or empty extent. -/
  | frameExtents (found : Shape)
  /-- The decoder left nothing at the level that the kernel heads read. -/
  | noCoarseLevel
  /-- The two pictures differ in planes, height or width. -/
  | pictureShapes (planes₁ height₁ width₁ planes₂ height₂ width₂ : Nat)
  /-- A picture does not have three planes. -/
  | picturePlanes (planes : Nat)
  /-- A picture is empty or larger than the network accepts. -/
  | pictureSize (width height maxWidth maxHeight : Nat)
  /-- An image can only be made of three planes. -/
  | imagePlanes (planes : Nat)
  /-- A frame has more columns than an image can have. -/
  | tooWide
  /-- A frame has more rows than an image can have. -/
  | tooTall
  /-- A network needs two levels. -/
  | tooFewLevels (levels : Nat)
  /-- A level without channels. -/
  | zeroChannels (level : Nat)
  /-- The finest channel count cannot be halved. -/
  | oddChannels (channels : Nat)
  /-- A synthesis kernel has no centre. -/
  | evenKernel (size : Nat)
  /-- No frame size at all would be accepted. -/
  | zeroLimits
  /-- No worker at all. -/
  | zeroThreads
  /-- The file of a network configuration cannot be opened. -/
  | openConfig (path reason : String)
  /-- A range of frames that ends before it starts. -/
  | reversedRange (start stop : Nat)
  /-- The middle of two frames is not a frame. -/
  | oddSplit (left right : Nat)
  /-- A frame rate is raised by powers of two only. -/
  | factor (found : Nat)
  /-- A step reads a frame that no earlier step has made. -/
  | stepNotReady (left right mid : Nat)
  /-- A frame of an interval was never made. -/
  | frameMissing (index interval : Nat)
  /-- The right end of an interval is gone. -/
  | rightFrameLost
  /-- A fault raised by a callback. -/
  | reported (text : String)
deriving DecidableEq, Repr

/-- Named arrays that are absent or do not fit. -/
inductive ParameterFlaw
  /-- No array has the name. -/
  | missing (name : String)
  /-- The array of the name does not have the shape, or not as many values. -/
  | misshapen (name : String) (expected found : List Nat)
  /-- A store holds a name that the network does not know. -/
  | unknown (stored known : Nat) (name : String)
  /-- The values do not fill the shape. -/
  | size (shape : List Nat) (expected found : Nat)
  /-- The values of a stored array do not fill its shape. -/
  | storedSize (name : String) (shape : List Nat) (expected found : Nat)
  /-- A parameter file cannot be opened. -/
  | openFile (path reason : String)
  /-- A parameter file cannot be created. -/
  | createFile (path reason : String)
  /-- A fault raised by a callback. -/
  | reported (text : String)
deriving DecidableEq, Repr

/-- Data files that cannot be read. -/
inductive DataFlaw
  /-- The text is no network configuration. -/
  | config
  /-- The text is no store of parameters. -/
  | parameters
deriving DecidableEq, Repr

/-- Why a construction or a pass failed. -/
inductive Fault
  /-- A block specification is wrong, or does not fit its channel plan. -/
  | malformedSpec (source : String) (flaw : SpecFlaw)
  /-- A contribution drifted from the recorded shape by more than one row or column. -/
  | shapeReconciliation (level : Nat) (expected found : Shape)
  /-- No shape was recorded for a level. -/
  | missingShapeRecord (level : Nat)
  /-- Channels cannot be shuffled into space four by four. -/
  | shuffleChannels (channels : Nat)
  /-- Arrays or shapes do not fit together. -/
  | shapeMismatch (flaw : ShapeFlaw)
  /-- An input or a setting is refused. -/
  | invalid (flaw : InputFlaw)
  /-- A named array is absent or does not fit. -/
  | parameter (flaw : ParameterFlaw)
  /-- A data file cannot be read. -/
  | unreadable (flaw : DataFlaw)
  /-- The surroundings failed: a file, a directory or an image. -/
  | outside (context : String)
  /-- A count came up that no machine word holds. -/
  | overflow
deriving DecidableEq, Repr

/-- A count that is computed on the way, which a machine word must hold. -/
def checkedCount (n : Nat) : Except Fault Nat :=
  if n ≤ maxCount then .ok n else .error .overflow

theorem checkedCount_of_le {n : Nat} (h : n ≤ maxCount) : checkedCount n = .ok n := if_pos h

theorem checkedCount_of_lt {n : Nat} (h : maxCount < n) : checkedCount n = .error .overflow :=
  if_neg (Nat.not_le.mpr h)

namespace ShapeFlaw

/-- The words for a sum of arrays that differ in shape. -/
def sumText (left right : Shape) : String := "cannot add " ++ left.text ++ " and " ++ right.text

/-- The flaw in words. -/
def message : ShapeFlaw → String
  | inputChannels expected found =>
    s!"convolution expects {expected} input channels, got " ++ found.text
  | biasSize entries outChannels => s!"bias has {entries} entries for {outChannels} output channels"
  | kernelTooLarge kernelHeight kernelWidth input padding =>
    s!"kernel {kernelHeight}x{kernelWidth} does not fit input " ++ input.text ++
      match padding with
      | some p => s!" with padding {p}"
      | none => ""
  | sum left right => sumText left right
  | shortcutSum source left right =>
    s!"shortcut of block '{source}': shape mismatch: " ++ sumText left right
  | shortcutShape source left right =>
    s!"shortcut of block '{source}': " ++ sumText left right
  | crop found height width => "cannot crop " ++ found.text ++ s!" to {height}x{width}"
  | concatenation => "channel concatenation failed"
  | frames one two => "frames differ in shape: " ++ one.text ++ " vs " ++ two.text
  | kernelPair vertical horizontal =>
    "vertical kernels " ++ vertical.text ++ " and horizontal kernels " ++ horizontal.text ++
      " differ"
  | window input taps height width =>
    "input " ++ input.text ++ s!" does not fit {taps}-tap kernels over {height}x{width}"
  | normalizer found => "need a normalizer channel, got " ++ found.text
  | heads kernels frame =>
    "kernel heads produce " ++ kernels.text ++ " for " ++ frame.text ++ " frames"
  | reported text => text

end ShapeFlaw

namespace InputFlaw

/-- The flaw in words. -/
def message : InputFlaw → String
  | replicateEmpty found => "replicate padding needs a non-empty input, got " ++ found.text
  | reflectTooLarge padding found =>
    "reflect padding " ++ padding.text ++ " too large for input " ++ found.text
  | scale value => "resize scale must be finite and > 0, got " ++ Layout.prose.text value
  | emptyResize found value =>
    "resizing " ++ found.text ++ " by " ++ Layout.prose.text value ++ " produces an empty extent"
  | pyramidEmpty found => "pyramid upsampling needs a non-empty input, got " ++ found.text
  | channelLists scope inputs outputs =>
    s!"{scope}: {inputs} input channel counts but {outputs} output channel counts"
  | levelInputs scope expected found => s!"{scope} expects {expected} level inputs, got {found}"
  | emptyNeighbour scope level neighbour =>
    s!"{scope}: level {level} needs a value at level {neighbour}, which is empty"
  | frameShapes one two => "frames differ in shape: " ++ one.text ++ " vs " ++ two.text
  | frameChannels found => "frames need 3 channels, got " ++ found.text
  | frameExtents found => "frames need non-zero even extents, got " ++ found.text
  | noCoarseLevel => "decoder produced no level-1 output"
  | pictureShapes planes₁ height₁ width₁ planes₂ height₂ width₂ =>
    s!"frames differ in shape: ({planes₁}, {height₁}, {width₁}) vs ({planes₂}, {height₂}, {width₂})"
  | picturePlanes planes => s!"frames need 3 channels, got {planes}"
  | pictureSize width height maxWidth maxHeight =>
    s!"frame size {width}x{height} outside 1x1..={maxWidth}x{maxHeight}"
  | imagePlanes planes => s!"image output needs 3 planes, got {planes}"
  | tooWide => "frame too wide"
  | tooTall => "frame too tall"
  | tooFewLevels levels => s!"'channels' needs at least 2 levels, got {levels}"
  | zeroChannels level => s!"'channels' entry {level} is zero"
  | oddChannels channels =>
    s!"'channels[0]' must be even to split across both input frames, got {channels}"
  | evenKernel size => s!"'kernel_size' must be odd, got {size}"
  | zeroLimits => "'max_width' and 'max_height' must be >= 1"
  | zeroThreads => "'threads' must be >= 1 when set"
  | openConfig path reason => s!"open network config '{path}': {reason}"
  | reversedRange start stop => s!"interpolation range {start}..={stop} is reversed"
  | oddSplit left right => s!"cannot bisect {left}..={right}: {left} + {right} is odd"
  | factor found => s!"factor must be a power of two, got {found}"
  | stepNotReady left right mid =>
    s!"step MidpointStep \x7b left: {left}, right: {right}, mid: {mid} \x7d reads a frame that " ++
      "is not synthesized yet"
  | frameMissing index interval => s!"frame {index} of interval {interval} is missing"
  | rightFrameLost => "interval lost its right frame"
  | reported text => text

end InputFlaw

namespace ParameterFlaw

/-- The flaw in words. -/
def message : ParameterFlaw → String
  | missing name => s!"missing parameter '{name}'"
  | misshapen name expected found =>
    s!"'{name}': expected shape " ++ listText expected ++ ", got " ++ listText found
  | unknown stored known name =>
    s!"store holds {stored} arrays but the network has {known}; unknown name '{name}'"
  | size shape expected found =>
    "shape " ++ listText shape ++ s!" needs {expected} values, got {found}"
  | storedSize name shape expected found =>
    s!"'{name}': shape " ++ listText shape ++ s!" needs {expected} values, got {found}"
  | openFile path reason => s!"open parameter file '{path}': {reason}"
  | createFile path reason => s!"create parameter file '{path}': {reason}"
  | reported text => text

end ParameterFlaw

namespace DataFlaw

/-- The flaw in words. -/
def message : DataFlaw → String
  | config => "parse network config JSON"
  | parameters => "parse parameter JSON"

end DataFlaw

namespace Fault

/-- The fault in words, the way a user reads it. -/
def message : Fault → String
  | malformedSpec source flaw => s!"malformed spec '{source}': " ++ flaw.message
  | shapeReconciliation level expected found =>
    s!"shape reconciliation error at level {level}: expected " ++ expected.text ++ ", found " ++
      found.text
  | missingShapeRecord level => s!"missing shape record for level {level}"
  | shuffleChannels channels =>
    s!"pixel-shuffle upsampling needs a channel count divisible by 4, got {channels}"
  | shapeMismatch flaw => "shape mismatch: " ++ flaw.message
  | invalid flaw => "validation error: " ++ flaw.message
  | parameter flaw => "parameter error: " ++ flaw.message
  | unreadable flaw => "serialization error: " ++ flaw.message
  | outside context => context
  | overflow => "arithmetic overflow"

/-- The exit status of a program that ends with the fault. -/
def status : Fault → Nat
  | overflow => 101
  | _ => 1

end Fault

end Midframe
