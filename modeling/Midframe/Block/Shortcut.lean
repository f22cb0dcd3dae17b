import Midframe.Layer

/-!
# Shortcuts

A block with a shortcut adds its input to the output of its main chain. Where the chain changes the
resolution, the input is scaled by the reciprocal of the stride; where it changes the channel count,
the input is projected by a convolution of one row and column. Both decisions are made once, when
the block is compiled.
-/

namespace Midframe

/-- What a shortcut does to the input of its block. -/
inductive ShortcutPolicy
  /-- Nothing. -/
  | identity
  /-- A projection to the output channels. -/
  | channelProjection
  /-- A scaling to the output resolution. -/
  | spatialResample
  /-- A scaling, then a projection. -/
  | resampleThenProject
deriving DecidableEq, Repr

namespace ShortcutPolicy

/-- The policy for a block, by whether the chain keeps the channel count and whether its stride is
one. -/
def select (keepsChannels unitStride : Bool) : ShortcutPolicy :=
  match keepsChannels, unitStride with
  | true, true => identity
  | false, true => channelProjection
  | true, false => spatialResample
  | false, false => resampleThenProject

/-- Whether the input is scaled. -/
def resamples : ShortcutPolicy → Bool
  | spatialResample | resampleThenProject => true
  | _ => false

/-- Whether the input is projected. -/
def projects : ShortcutPolicy → Bool
  | channelProjection | resampleThenProject => true
  | _ => false

/-- The name of a policy. -/
def name : ShortcutPolicy → String
  | identity => "Identity"
  | channelProjection => "ChannelProjection"
  | spatialResample => "SpatialResample"
  | resampleThenProject => "ResampleThenProject"

end ShortcutPolicy

/-- The shortcut of a block. -/
structure Shortcut where
  /-- The policy it follows. -/
  policy : ShortcutPolicy
  /-- The scale that is applied first. -/
  scale : Option Float
  /-- The projection that follows. -/
  projection : Option Convolution

namespace Shortcut

/-- The shortcut that follows a policy, its weights all zero. -/
def ofPolicy (policy : ShortcutPolicy) (inputs outputs : Nat) (stride : Float) (withBias : Bool) :
    Shortcut where
  policy := policy
  scale := if policy.resamples then some (1 / stride) else none
  projection :=
    if policy.projects then some (.blank inputs outputs 1 ⟨1, 0, .zeros⟩ withBias) else none

/-- The shortcut of a batch. -/
def forward (s : Shortcut) (x : Tensor Float32) : Except Fault (Tensor Float32) := do
  let x ← match s.scale with
    | some scale => (Layer.resample scale).forward x
    | none => .ok x
  match s.projection with
  | some c => c.forward x
  | none => .ok x

/-- The shape of the shortcut of a batch. -/
def outputShape (s : Shortcut) (x : Shape) : Except Fault Shape := do
  let x ← match s.scale with
    | some scale => (Layer.resample scale).outputShape x
    | none => .ok x
  match s.projection with
  | some c => .ok { x with channels := c.outputs }
  | none => .ok x

/-- The parameters of the projection. -/
@[specialize] def visit {m : Type → Type} [Monad m] (scope : String) (f : Visit m) (s : Shortcut) :
    m Shortcut :=
  match s.projection with
  | some c => do
    let c ← c.visit scope f
    return { s with projection := some c }
  | none => return s

/-- All parameters as they were at first. -/
def reset (scope : String) (s : Shortcut) : Shortcut :=
  { s with projection := s.projection.map (Convolution.reset scope) }

end Shortcut

end Midframe
