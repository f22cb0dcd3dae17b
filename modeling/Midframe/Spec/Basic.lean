/-!
# Block specifications

A block of the network is written as a chain of operations, as in
`prelu(0.25)-sconv(3)-conv(3)+skip`. This module holds what such a text denotes: the operations with
their arguments resolved, in order of application, and the flags that hold for the whole block.
-/

namespace Midframe

/-- What lies beyond the border of a padded array. -/
inductive Border
  /-- Zeros. -/
  | zeros
  /-- The nearest sample of the edge. -/
  | replicate
  /-- The mirror image about the sample of the edge, which itself is not repeated. -/
  | reflect
deriving DecidableEq, Repr

namespace Border

/-- The word for a border in a specification. -/
def keyword : Border → String
  | zeros => "zeropad"
  | replicate => "replpad"
  | reflect => "reflpad"

/-- The border a word stands for. -/
def ofKeyword? : String → Option Border
  | "zeropad" => some zeros
  | "replpad" => some replicate
  | "reflpad" => some reflect
  | _ => none

end Border

/-- How both spatial extents are doubled. -/
inductive Upsampling
  /-- Every sample fills a two by two cell. -/
  | nearest
  /-- Linear interpolation between sample centres along both axes. -/
  | bilinear
  /-- The expanding half of a Gaussian pyramid. -/
  | pyramid
  /-- Four channels are rearranged into one of twice the extents. -/
  | shuffle
deriving DecidableEq, Repr

namespace Upsampling

/-- The word for an upsampling in a specification. -/
def keyword : Upsampling → String
  | nearest => "nearest"
  | bilinear => "bilinear"
  | pyramid => "pyramid"
  | shuffle => "shuffle"

/-- The upsampling a word stands for. -/
def ofKeyword? : String → Option Upsampling
  | "nearest" => some nearest
  | "bilinear" => some bilinear
  | "pyramid" => some pyramid
  | "shuffle" => some shuffle
  | _ => none

end Upsampling

/-- One operation of a chain. -/
inductive Op
  /-- Odd extents get one more trailing row or column. -/
  | evenize (border : Border)
  /-- A convolution at every position. -/
  | conv (kernel : Nat) (border : Border)
  /-- A convolution at every second position along both axes. -/
  | sconv (kernel : Nat) (border : Border)
  /-- A doubling of both spatial extents. -/
  | up (algorithm : Upsampling)
  /-- A leaky rectifier with one learned slope, starting from `slope`. -/
  | prelu (slope : Float32)
deriving DecidableEq, Repr

namespace Op

/-- The name of the kind of an operation, arguments left out. -/
def kind : Op → String
  | evenize _ => "PadToEven"
  | conv .. => "Convolve"
  | sconv .. => "StridedConvolve"
  | up _ => "Upsample"
  | prelu _ => "ParametricActivation"

/-- The factor by which an operation divides the spatial extents, roughly. -/
def stride : Op → Float
  | sconv .. => 2
  | up _ => 0.5
  | _ => 1

/-- Whether the operation takes the next entry of a channel plan as its output count. -/
def takesChannels : Op → Bool
  | conv .. | sconv .. => true
  | _ => false

end Op

/-- The flags of a block. -/
structure Flags where
  /-- The block adds a shortcut from its input to its output. -/
  skip : Bool := false
  /-- Convolutions have no bias. -/
  noBias : Bool := false
  /-- Convolutions do not pad their input. -/
  noPad : Bool := false
deriving DecidableEq, Repr

/-- What the text of a block denotes. -/
structure BlockSpec where
  /-- The operations, in order of application. -/
  ops : List Op
  /-- The flags of the block. -/
  flags : Flags
deriving DecidableEq, Repr

namespace BlockSpec

/-- The product of the strides of the operations, from the first to the last. -/
def stride (s : BlockSpec) : Float := s.ops.foldl (fun acc op => acc * op.stride) 1

/-- The number of operations that take an entry of a channel plan. -/
def channelSteps (s : BlockSpec) : Nat := s.ops.countP Op.takesChannels

end BlockSpec

end Midframe
