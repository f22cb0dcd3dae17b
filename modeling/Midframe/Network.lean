import Midframe.Network.Config
import Midframe.Network.Synthesis
import Midframe.Parameter.Store
import Midframe.Pyramid.Pass

/-!
# Interpolation networks

A network makes the frame halfway between two others. A shared convolution takes features from both
frames; the encoder carries the joined features down through the levels and the decoder carries them
up again as far as level 1. Four heads turn that level into kernels at full resolution, a vertical
and a horizontal one for each frame, and the filtered frames are added up.

`Network.plan` runs the same course on shapes alone and tells what a pass would produce, or why it
would fail.
-/

namespace Midframe

/-- One of something for each of the four heads. -/
structure Heads (α : Type) where
  /-- The vertical kernels for the first frame. -/
  verticalOne : α
  /-- The horizontal kernels for the first frame. -/
  horizontalOne : α
  /-- The vertical kernels for the second frame. -/
  verticalTwo : α
  /-- The horizontal kernels for the second frame. -/
  horizontalTwo : α

namespace Heads

/-- A function applied to each head and its name, in the order of the fields. -/
@[specialize] def traverse {m : Type → Type} [Monad m] {α β : Type} (f : String → α → m β)
    (h : Heads α) : m (Heads β) := do
  let verticalOne ← f "vertical_one" h.verticalOne
  let horizontalOne ← f "horizontal_one" h.horizontalOne
  let verticalTwo ← f "vertical_two" h.verticalTwo
  let horizontalTwo ← f "horizontal_two" h.horizontalTwo
  return { verticalOne, horizontalOne, verticalTwo, horizontalTwo }

/-- Four times the same. -/
def replicate {α : Type} (a : α) : Heads α := ⟨a, a, a, a⟩

end Heads

/-- A network with its parameters. -/
structure Network where
  /-- What it was built from. -/
  config : Config
  /-- The convolution that takes features from a frame. -/
  input : Convolution
  /-- The way down. -/
  encoder : Encoder
  /-- The way up. -/
  decoder : Decoder
  /-- The blocks that make the synthesis kernels. -/
  heads : Heads Block

namespace Network

/-- What the names of the parameters of a head start with. -/
def headScope (name : String) : String := "head." ++ name

/-! ## Construction -/

/-- The convolution that takes features from a frame. -/
def buildInput (outputs : Nat) : Convolution :=
  (Convolution.blank 3 outputs 3 ⟨1, 1, .zeros⟩ true).reset "input"

/-- The network of a configuration, with the parameters it starts from. The encoder gets features at
level 0 only, the decoder ends at level 1. -/
def build (config : Config) : Except Fault Network := do
  config.validate
  let levels := config.channels.length
  let encoder ← Pyramid.build .fineToCoarse "encoder" (List.replicate levels 0) config.channels
    config.encoderHorizontal config.encoderVertical
  let decoderChannels := config.channels.set 0 0
  let decoder ← Pyramid.build .coarseToFine "decoder" decoderChannels decoderChannels
    config.decoderHorizontal config.decoderVertical
  let head ← BlockSpec.read config.head
  let coarse := config.channels.getD 1 0
  let heads ← (Heads.replicate head).traverse fun name spec =>
    Block.build (headScope name) config.head spec [coarse, coarse, config.kernelSize]
  let input := buildInput (config.inputChannels?.getD 0)
  return { config, input, encoder, decoder, heads }

/-! ## Parameters -/

/-- All parameters: those of the input, the encoder, the decoder and the heads. -/
@[specialize] def visit {m : Type → Type} [Monad m] (f : Visit m) (net : Network) : m Network := do
  let input ← net.input.visit "input" f
  let encoder ← net.encoder.visit f
  let decoder ← net.decoder.visit f
  let heads ← net.heads.traverse fun name block => block.visit (headScope name) f
  return { net with input, encoder, decoder, heads }

/-- All parameters as they were at first. -/
def reset (net : Network) : Network :=
  { net with
    input := net.input.reset "input"
    encoder := net.encoder.reset
    decoder := net.decoder.reset
    heads := Id.run (net.heads.traverse fun name block => block.reset (headScope name)) }

/-- The names and extents of all parameters, in the order of the traversal. -/
def inventory (net : Network) : List (String × List Nat) :=
  ((net.visit (Visit.look fun slot _ seen => (slot.name, slot.shape) :: seen)).run []).2.reverse

/-- Puts an array into a store. One whose values do not fill its extents is refused. -/
def gather : Visit (StateT Store (Except Fault)) := fun slot _ values => do
  let array ← ParameterArray.ofValues slot.shape values.toArray
  modify (·.insert slot.name array)
  return values

/-- All parameters by name. -/
def exportParameters (net : Network) : Except Fault Store :=
  ((net.visit gather).run Keyed.empty).map Prod.snd

/-- The store of all parameters, which is empty if they cannot be exported. -/
def exportStore (net : Network) : Store := net.exportParameters.toOption.getD Keyed.empty

/-- The values that a store holds for an array. -/
def storedValues (store : Store) (slot : Slot) {n : Nat} (_ : Vector Float32 n) :
    Except Fault (Vector Float32 n) :=
  match store.get? slot.name with
  | none => .error (.parameter (.missing slot.name))
  | some a =>
    if a.shape != slot.shape then .error (.parameter (.misshapen slot.name slot.shape a.shape))
    else if h : a.data.size = n then .ok ⟨a.data, h⟩
    else .error (.parameter (.misshapen slot.name slot.shape a.shape))

/-- The network with its parameters read from a store, and the fault that ended the reading. The
store must hold all of them, each with its extents, and nothing else. What was read before a fault
stays read. -/
def load (net : Network) (store : Store) : Network × Except Fault Unit :=
  let (net, fault) := (net.visit (Visit.untilFault (storedValues store))).run none
  match fault with
  | some e => (net, .error e)
  | none =>
    let known := net.inventory.map Prod.fst
    if store.size == known.length then (net, .ok ())
    else
      let unknown := (store.keys.find? fun name => !known.contains name).getD ""
      (net, .error (.parameter (.unknown store.size known.length unknown)))

/-! ## The pass -/

/-- A pair of frames is taken if both have the same shape, three channels and even extents. -/
def checkFrames (one two : Shape) : Except Fault Unit :=
  if one != two then .error (.invalid (.frameShapes one two))
  else if one.channels != 3 then .error (.invalid (.frameChannels one))
  else if one.isEmpty || one.height % 2 != 0 || one.width % 2 != 0 then
    .error (.invalid (.frameExtents one))
  else .ok ()

/-- The inputs of the encoder: features at level 0, nothing elsewhere. -/
def encoderInputs {τ : Type} (net : Network) (features : τ) : List (Option τ) :=
  some features :: List.replicate (net.config.channels.length - 1) none

/-- What the heads start from: the value of level 1. -/
def coarseValue {τ : Type} (decoded : List (Option τ)) : Except Fault τ :=
  match decoded[1]?.join with
  | some v => .ok v
  | none => .error (.invalid .noCoarseLevel)

/-- The features of a pair of frames, those of the first one in front. -/
def features (net : Network) (one two : Tensor Float32) : Except Fault (Tensor Float32) := do
  let (one, two) ← Tensor.normalizePair one two
  let one ← net.input.forward one
  let two ← net.input.forward two
  Tensor.concatChannels [one, two]

/-- The frames, prepared for synthesis, filtered by the kernels that the heads predict and added
up. -/
@[specialize] def synthesize {α : Type} [Scalar α] (one two : Tensor α)
    (kernels : Heads (Tensor α)) : Except Fault (Tensor α) := do
  let one ← one.separableFilter kernels.verticalOne kernels.horizontalOne
  let two ← two.separableFilter kernels.verticalTwo kernels.horizontalTwo
  (← one.add two).divideByNormalizer

/-- The frames halfway between the entries of two batches. -/
def forward (net : Network) (one two : Tensor Float32) : Except Fault (Tensor Float32) := do
  checkFrames one.shape two.shape
  let framedOne ← one.synthesisFrame net.config.kernelSize
  let framedTwo ← two.synthesisFrame net.config.kernelSize
  let features ← net.features one two
  let (encoded, table) := net.encoder.encode (net.encoderInputs features) Keyed.empty
  let decoded ← net.decoder.decode (← encoded) table
  let coarse ← coarseValue decoded
  let kernels ← net.heads.traverse fun _ block => block.forward coarse
  synthesize framedOne framedTwo kernels

/-! ## The plan -/

/-- The shapes of every stage of a pass. -/
structure Plan where
  /-- Each of the two frames. -/
  frame : Shape
  /-- The features of both. -/
  features : Shape
  /-- What the encoder leaves at every level. -/
  encoder : List (Option Shape)
  /-- What it records. -/
  shapeTable : ShapeTable
  /-- What the decoder leaves at every level. -/
  decoder : List (Option Shape)
  /-- The kernels of each head. -/
  kernels : Shape
  /-- The result. -/
  output : Shape
  /-- The number of learned values. -/
  parameterCount : Nat

/-- The shapes of a pass over frames of the given extents. -/
def plan (net : Network) (height width : Nat) : Except Fault Plan := do
  let frame : Shape := ⟨1, 3, height, width⟩
  checkFrames frame frame
  let features : Shape := ⟨1, 2 * net.input.outputs, height, width⟩
  let (encoded, shapeTable) := net.encoder.encode (net.encoderInputs features) Keyed.empty
  let encoder ← encoded
  let decoder ← net.decoder.decode encoder shapeTable
  let coarse ← coarseValue decoder
  let kernels ← net.heads.verticalOne.outputShape coarse
  if kernels.height != height || kernels.width != width then
    throw (.shapeMismatch (.heads kernels frame))
  else
    let parameterCount := total (net.inventory.map fun p => volume p.2)
    return { frame, features, encoder, shapeTable, decoder, kernels, output := frame
             parameterCount }

/-- The plan in a file. -/
def Plan.toJson (p : Plan) : Json :=
  .ofMembers [("frame", p.frame.toJson), ("features", p.features.toJson),
    ("encoder", .array (p.encoder.map (Json.ofOption Shape.toJson))),
    ("shape_table", p.shapeTable.toJson),
    ("decoder", .array (p.decoder.map (Json.ofOption Shape.toJson))),
    ("kernels", p.kernels.toJson), ("output", p.output.toJson),
    ("param_count", .ofNat p.parameterCount)]

end Network

end Midframe
