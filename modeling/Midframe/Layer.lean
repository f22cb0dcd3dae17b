import Midframe.Parameter.Seed
import Midframe.Parameter.Slot
import Midframe.Tensor.Convolution
import Midframe.Tensor.Resampling

/-!
# Layers

A layer is an operation ready to run, with the parameters it has learned. What it does to the shape
of a batch can also be computed from the shape alone. The shape side refuses channel counts and
kernels that do not fit; what depends on how the array is read, such as the reach of a mirror image
or an empty extent, is left to the pass itself.
-/

namespace Midframe

namespace Shape

/-- Odd spatial extents rounded up to even ones. -/
def evenized (s : Shape) : Shape := s.resized (s.height + s.height % 2) (s.width + s.width % 2)

end Shape

/-! ## Convolutions -/

/-- A convolution with its parameters. -/
structure Convolution where
  /-- The kernels, of shape (outputs, inputs, rows, columns). -/
  weight : Tensor Float32
  /-- One start value for every output channel. -/
  bias : Option (Vector Float32 weight.shape.batch)
  /-- Where the windows lie. -/
  windows : Windows

namespace Convolution

/-- The convolution whose parameters are all zero. -/
def blank (inputs outputs kernel : Nat) (windows : Windows) (withBias : Bool) : Convolution where
  weight := Tensor.replicate ⟨outputs, inputs, kernel, kernel⟩ 0
  bias := if withBias then some (Vector.replicate outputs 0) else none
  windows := windows

/-- The number of input channels. -/
def inputs (c : Convolution) : Nat := c.weight.shape.channels

/-- The number of output channels. -/
def outputs (c : Convolution) : Nat := c.weight.shape.batch

/-- The extent of a kernel. -/
def kernel (c : Convolution) : Nat := c.weight.shape.height

/-- The convolution of a batch. -/
def forward (c : Convolution) (x : Tensor Float32) : Except Fault (Tensor Float32) :=
  x.convolve c.weight (c.bias.map (·.toArray)) c.windows

/-- The shape of the convolution of a batch. -/
def outputShape (c : Convolution) (s : Shape) : Except Fault Shape :=
  if s.channels != c.inputs then .error (.shapeMismatch (.inputChannels c.inputs s))
  else
    match c.windows.count? s.height c.kernel, c.windows.count? s.width c.kernel with
    | some height, some width => .ok ⟨s.batch, c.outputs, height, width⟩
    | _, _ => .error (.shapeMismatch (.kernelTooLarge c.kernel c.kernel s none))

/-- The weight, then the bias. -/
@[specialize] def visit {m : Type → Type} [Monad m] (scope : String) (f : Visit m)
    (c : Convolution) : m Convolution := do
  let shape := c.weight.shape
  let weight ← f ⟨scope ++ ".weight", shape.extents⟩ c.weight.data
  match c.bias with
  | none => return ⟨⟨shape, weight⟩, none, c.windows⟩
  | some bias =>
    let bias ← f ⟨scope ++ ".bias", [shape.batch]⟩ bias
    return ⟨⟨shape, weight⟩, some bias, c.windows⟩

/-- All parameters as they were at first: weights drawn for their name, zero biases. -/
def reset (scope : String) (c : Convolution) : Convolution :=
  let shape := c.weight.shape
  let fanIn := shape.channels * shape.height * shape.width
  ⟨⟨shape, uniformValues (scope ++ ".weight") fanIn shape.size⟩,
    c.bias.map fun _ => Vector.replicate shape.batch 0, c.windows⟩

end Convolution

/-! ## Layers -/

/-- An operation with its parameters. -/
inductive Layer
  /-- One more trailing row or column where an extent is odd. -/
  | evenize (border : Border)
  /-- A convolution. -/
  | conv (convolution : Convolution)
  /-- A doubling of both spatial extents. -/
  | up (algorithm : Upsampling)
  /-- A leaky rectifier whose learned slope starts from `initial`. -/
  | prelu (initial slope : Float32)
  /-- A bilinear scaling of both spatial extents. -/
  | resample (scale : Float)

namespace Layer

/-- The layer of a convolution in a block with the given flags. Its windows are centred, unless the
block does not pad. -/
def ofKernel (kernel stride : Nat) (border : Border) (flags : Flags) (inputs outputs : Nat) :
    Layer :=
  let padding := if flags.noPad then 0 else (kernel - 1) / 2
  conv (.blank inputs outputs kernel ⟨stride, padding, border⟩ (!flags.noBias))

/-- The layer of an operation that is reached by `inputs` channels, its weights all zero. Only
convolutions have an output count of their own. -/
def ofOp (op : Op) (flags : Flags) (inputs outputs : Nat) : Except Fault Layer :=
  match op with
  | .evenize border => .ok (evenize border)
  | .conv kernel border => .ok (ofKernel kernel 1 border flags inputs outputs)
  | .sconv kernel border => .ok (ofKernel kernel 2 border flags inputs outputs)
  | .up .shuffle => if inputs % 4 != 0 then .error (.shuffleChannels inputs) else .ok (up .shuffle)
  | .up algorithm => .ok (up algorithm)
  | .prelu slope => .ok (prelu slope slope)

/-- The layer applied to a batch. -/
def forward (layer : Layer) (x : Tensor Float32) : Except Fault (Tensor Float32) :=
  match layer with
  | evenize border => x.padToEven border
  | conv c => c.forward x
  | up .nearest => x.resize 2 .nearest
  | up .bilinear => x.resize 2 .bilinear
  | up .pyramid => x.expand
  | up .shuffle => x.shuffle 2
  | prelu _ slope => .ok (x.prelu slope)
  | resample scale => x.resize scale .bilinear

/-- The shape of the layer applied to a batch. -/
def outputShape (layer : Layer) (s : Shape) : Except Fault Shape :=
  match layer with
  | evenize _ => .ok s.evenized
  | conv c => c.outputShape s
  | up .shuffle =>
    if s.channels % 4 != 0 then .error (.shuffleChannels s.channels) else .ok (s.shuffled 2)
  | up _ => .ok s.doubled
  | prelu .. => .ok s
  | resample scale => .ok (s.scaled scale)

/-- The parameters of the layer. -/
@[specialize] def visit {m : Type → Type} [Monad m] (scope : String) (f : Visit m) (layer : Layer) :
    m Layer :=
  match layer with
  | conv c => conv <$> c.visit scope f
  | prelu initial slope => do
    let slope ← f ⟨scope ++ ".weight", [1]⟩ #v[slope]
    return prelu initial slope[0]
  | other => return other

/-- All parameters as they were at first. -/
def reset (scope : String) (layer : Layer) : Layer :=
  match layer with
  | conv c => conv (c.reset scope)
  | prelu initial _ => prelu initial initial
  | other => other

end Layer

end Midframe
