import Midframe.Block.Shortcut
import Midframe.Spec.Read

/-!
# Blocks

A block is compiled from a specification and a channel plan. The first entry of the plan is the
channel count that reaches the block; every convolution takes the next one as its output count, and
exactly one entry, the one in force at the end, must be left over: a plan is as long as the number
of convolutions plus one.

A batch passes through `evenize`, if the block has one, and then through the main chain. The
shortcut, if there is one, starts from the evenized batch too and is added to the result.
-/

namespace Midframe

/-- A compiled block. -/
structure Block where
  /-- The text it was compiled from, as messages name it. -/
  source : String
  /-- What the text denotes. -/
  spec : BlockSpec
  /-- The number of channels it takes. -/
  inputs : Nat
  /-- The number of channels it gives. -/
  outputs : Nat
  /-- The product of the strides of its operations. -/
  stride : Float
  /-- The border of the leading `evenize`. -/
  evenize : Option Border
  /-- The layers behind it. -/
  main : List Layer
  /-- The shortcut around all of them. -/
  shortcut : Option Shortcut

namespace Block

/-! ## Compilation -/

/-- Whether a weight with the given extents, and a bias along any one of them, can be addressed at
four bytes a value. An extent of zero leaves the others to be counted. -/
def weightFits (extents : List Nat) : Bool :=
  volume (extents.map (max 1)) ≤ addressable / 4

/-- The channels behind an operation that was given `outputs` as its output count. -/
def channelsAfter (op : Op) (inputs outputs : Nat) : Nat :=
  match op with
  | .up .shuffle => inputs / 4
  | _ => outputs

/-- The extent of the kernels of a convolution. -/
def kernel? : Op → Option Nat
  | .conv kernel _ | .sconv kernel _ => some kernel
  | _ => none

/-- The output count of the operation at position `index`, which is reached by `inputs` channels,
and what it leaves of the plan. -/
def takeOutputs (plan : List Nat) (index inputs : Nat) (rest : List Nat) (op : Op) :
    Except SpecFlaw (Nat × List Nat) :=
  if op.isEvenize then .error .evenizeNotFirst
  else match kernel? op, rest with
    | none, rest => .ok (inputs, rest)
    | some _, [] => .error (.planRunsOut plan index op)
    | some kernel, outputs :: rest =>
      if weightFits [outputs, inputs, kernel, kernel] then .ok (outputs, rest)
      else .error (.weightTooLarge index outputs inputs kernel)

/-- The layers of the operations from position `index` on, reached by `inputs` channels, where
`rest` is what is left of the plan. Gives back the channels behind the last one and what is left of
the plan then. -/
def compileChain (source : String) (flags : Flags) (plan : List Nat) (index inputs : Nat)
    (rest : List Nat) : List Op → Except Fault (List Layer × Nat × List Nat)
  | [] => .ok ([], inputs, rest)
  | op :: ops => do
    let (outputs, rest) ← (takeOutputs plan index inputs rest op).mapError (.malformedSpec source)
    let layer ← Layer.ofOp op flags inputs outputs
    let (layers, last, rest) ←
      compileChain source flags plan (index + 1) (channelsAfter op inputs outputs) rest ops
    return (layer :: layers, last, rest)

/-- The border of an `evenize` that comes first, and the position and operations behind it. -/
def splitEvenize : List Op → Option Border × Nat × List Op
  | .evenize border :: ops => (some border, 1, ops)
  | ops => (none, 0, ops)

/-- The shortcut of a block, if its flags ask for one. -/
def compileShortcut (spec : BlockSpec) (inputs outputs : Nat) :
    Except SpecFlaw (Option Shortcut) :=
  if !spec.flags.skip then .ok none
  else if !weightFits [outputs, inputs, 1, 1] then .error (.projectionTooLarge outputs inputs)
  else
    let policy := ShortcutPolicy.select (inputs == outputs) (spec.stride == 1)
    .ok (some (.ofPolicy policy inputs outputs spec.stride (!spec.flags.noBias)))

/-- The block of a specification and a channel plan, its weights all zero. The source is only named
in faults. -/
def compile (source : String) (spec : BlockSpec) (plan : List Nat) : Except Fault Block := do
  let malformed {α : Type} (e : Except SpecFlaw α) : Except Fault α :=
    e.mapError (.malformedSpec source)
  match plan with
  | [] => malformed (.error .emptyPlan)
  | inputs :: rest =>
    let (evenize, index, ops) := splitEvenize spec.ops
    let (main, outputs, rest) ← compileChain source spec.flags plan index inputs rest ops
    if !rest.isEmpty then malformed (.error (.planLeaves plan (rest.length + 1)))
    else
      let shortcut ← malformed (compileShortcut spec inputs outputs)
      return { source, spec, inputs, outputs, stride := spec.stride, evenize, main, shortcut }

/-! ## Parameters -/

/-- The parameters of the layers from position `index` on. -/
@[specialize] def visitChain {m : Type → Type} [Monad m] (scope : String) (f : Visit m)
    (index : Nat) : List Layer → m (List Layer)
  | [] => return []
  | layer :: layers => do
    let layer ← layer.visit (inScope scope s!"main.{index}") f
    let layers ← visitChain scope f (index + 1) layers
    return layer :: layers

/-- The parameters of the layers in order of application, then those of the shortcut. -/
@[specialize] def visit {m : Type → Type} [Monad m] (scope : String) (f : Visit m) (b : Block) :
    m Block := do
  let main ← visitChain scope f 0 b.main
  match b.shortcut with
  | none => return { b with main }
  | some shortcut =>
    let shortcut ← shortcut.visit (inScope scope "shortcut") f
    return { b with main, shortcut := some shortcut }

/-- The layers from position `index` on, with their parameters as they were at first. -/
def resetChain (scope : String) (index : Nat) : List Layer → List Layer
  | [] => []
  | layer :: layers =>
    layer.reset (inScope scope s!"main.{index}") :: resetChain scope (index + 1) layers

/-- All parameters as they were at first. -/
def reset (scope : String) (b : Block) : Block :=
  { b with
    main := resetChain scope 0 b.main
    shortcut := b.shortcut.map (Shortcut.reset (inScope scope "shortcut")) }

/-- The block of a specification and a channel plan with the parameters it starts from. -/
def build (scope source : String) (spec : BlockSpec) (plan : List Nat) : Except Fault Block :=
  (compile source spec plan).map (reset scope)

/-- The block of a text and a channel plan, its parameters named from the block itself. -/
def ofText (source : String) (plan : List Nat) : Except Fault Block := do
  build "" source (← BlockSpec.read source) plan

/-! ## Passes -/

/-- The batch that the main chain and the shortcut start from. -/
def evenized (b : Block) (x : Tensor Float32) : Except Fault (Tensor Float32) :=
  match b.evenize with
  | some border => x.padToEven border
  | none => .ok x

/-- The main chain alone, behind `evenize`. -/
def forwardMain (b : Block) (x : Tensor Float32) : Except Fault (Tensor Float32) := do
  b.main.foldlM (fun x layer => layer.forward x) (← b.evenized x)

/-- The block applied to a batch. -/
def forward (b : Block) (x : Tensor Float32) : Except Fault (Tensor Float32) := do
  let x ← b.evenized x
  let out ← b.main.foldlM (fun x layer => layer.forward x) x
  match b.shortcut with
  | none => return out
  | some shortcut =>
    let skip ← shortcut.forward x
    (out.add skip).mapError fun _ =>
      .shapeMismatch (.shortcutSum b.source out.shape skip.shape)

/-- The shape of the block applied to a batch. -/
def outputShape (b : Block) (s : Shape) : Except Fault Shape := do
  let s := if b.evenize.isSome then s.evenized else s
  let out ← b.main.foldlM (fun s layer => layer.outputShape s) s
  match b.shortcut with
  | none => return out
  | some shortcut =>
    let skip ← shortcut.outputShape s
    if skip == out then return out
    else throw (.shapeMismatch (.shortcutShape b.source out skip))

end Block

end Midframe
