import Midframe.Block

/-!
# Building pyramids

A pyramid has one level for every entry of its channel lists, level 0 being the finest. A level may
carry a horizontal block, which works on its own value, and a vertical block, which makes a
contribution out of the value of the neighbouring level that was finished before it. A level without
output channels carries neither; a level without input channels has no horizontal block, and a level
whose neighbour has no output channels has no vertical one.
-/

namespace Midframe

/-- The order in which a pass visits the levels. -/
inductive Direction
  /-- From level 0 upwards. -/
  | fineToCoarse
  /-- From the last level downwards. -/
  | coarseToFine
deriving DecidableEq, Repr

/-- The level that is finished before another one, out of so many levels. -/
def Direction.neighbour? (d : Direction) (level levels : Nat) : Option Nat :=
  match d with
  | fineToCoarse => if level == 0 then none else some (level - 1)
  | coarseToFine => if level + 1 < levels then some (level + 1) else none

/-- One level of a pyramid. -/
structure Level where
  /-- The number of channels of its own value. -/
  inputs : Nat
  /-- The number of channels it is left with. -/
  outputs : Nat
  /-- The block for its own value. -/
  horizontal : Option Block
  /-- The block for the value of its neighbour. -/
  vertical : Option Block

/-- The levels of one direction of a pyramid. -/
structure Pyramid (d : Direction) where
  /-- What the names of its parameters start with. -/
  scope : String
  /-- The levels, finest first. -/
  levels : List Level

/-- The half of a pyramid that goes from fine to coarse. -/
abbrev Encoder := Pyramid .fineToCoarse

/-- The half of a pyramid that goes from coarse to fine. -/
abbrev Decoder := Pyramid .coarseToFine

/-- A specification and the text it was read from. -/
structure SourcedSpec where
  /-- The text. -/
  source : String
  /-- What it denotes. -/
  spec : BlockSpec

/-- The specification of a text. -/
def SourcedSpec.read (source : String) : Except Fault SourcedSpec :=
  (BlockSpec.read source).map (⟨source, ·⟩)

namespace Level

/-- What the names of the horizontal parameters of a level start with. -/
def horizontalScope (scope : String) (level : Nat) : String := inScope scope s!"horizontal.{level}"

/-- What the names of the vertical parameters of a level start with. -/
def verticalScope (scope : String) (level : Nat) : String := inScope scope s!"vertical.{level}"

/-- A block from `inputs` to `outputs` channels, or none where a side has no channels. -/
def edge (scope : String) (spec : SourcedSpec) (inputs outputs : Nat) :
    Except Fault (Option Block) :=
  if inputs == 0 || outputs == 0 then .ok none
  else (Block.build scope spec.source spec.spec [inputs, outputs, outputs]).map some

/-- The level at a position. `neighbour` is the number of channels that its neighbour is left with,
0 if there is none. -/
def build (scope : String) (horizontal vertical : SourcedSpec) (level inputs outputs : Nat)
    (neighbour : Nat) : Except Fault Level := do
  let horizontal ← edge (horizontalScope scope level) horizontal inputs outputs
  let vertical ← edge (verticalScope scope level) vertical neighbour outputs
  return { inputs, outputs, horizontal, vertical }

/-- A block, if there is one. -/
@[specialize] def visitEdge {m : Type → Type} [Monad m] (scope : String) (f : Visit m) :
    Option Block → m (Option Block)
  | none => return none
  | some block => some <$> block.visit scope f

/-- The parameters of the horizontal block, then those of the vertical one. -/
@[specialize] def visit {m : Type → Type} [Monad m] (scope : String) (f : Visit m) (level : Nat)
    (l : Level) : m Level := do
  let horizontal ← visitEdge (horizontalScope scope level) f l.horizontal
  let vertical ← visitEdge (verticalScope scope level) f l.vertical
  return { l with horizontal, vertical }

/-- All parameters as they were at first. -/
def reset (scope : String) (level : Nat) (l : Level) : Level :=
  { l with
    horizontal := l.horizontal.map (Block.reset (horizontalScope scope level))
    vertical := l.vertical.map (Block.reset (verticalScope scope level)) }

end Level

namespace Pyramid

variable {d : Direction}

/-- The levels from position `level` on. `outputs` are the output channels of all levels. -/
def buildLevels (d : Direction) (scope : String) (horizontal vertical : SourcedSpec)
    (outputs : List Nat) (level : Nat) : List (Nat × Nat) → Except Fault (List Level)
  | [] => .ok []
  | (input, output) :: rest => do
    let neighbour := (d.neighbour? level outputs.length).bind (outputs[·]?)
    let first ← Level.build scope horizontal vertical level input output (neighbour.getD 0)
    return first :: (← buildLevels d scope horizontal vertical outputs (level + 1) rest)

/-- The pyramid of two channel lists, which must be as long as each other, and two
specifications. -/
def build (d : Direction) (scope : String) (inputs outputs : List Nat)
    (horizontal vertical : String) : Except Fault (Pyramid d) :=
  if inputs.length != outputs.length then
    .error (.invalid (.channelLists scope inputs.length outputs.length))
  else do
    let horizontal ← SourcedSpec.read horizontal
    let vertical ← SourcedSpec.read vertical
    return ⟨scope, ← buildLevels d scope horizontal vertical outputs 0 (inputs.zip outputs)⟩

/-- The parameters of the levels from position `level` on. -/
@[specialize] def visitLevels {m : Type → Type} [Monad m] (scope : String) (f : Visit m)
    (level : Nat) : List Level → m (List Level)
  | [] => return []
  | l :: rest => do
    let l ← l.visit scope f level
    return l :: (← visitLevels scope f (level + 1) rest)

/-- The parameters of all levels, finest first. -/
@[specialize] def visit {m : Type → Type} [Monad m] (f : Visit m) (p : Pyramid d) :
    m (Pyramid d) := do
  return { p with levels := ← visitLevels p.scope f 0 p.levels }

/-- The levels from position `level` on, with their parameters as they were at first. -/
def resetLevels (scope : String) (level : Nat) : List Level → List Level
  | [] => []
  | l :: rest => l.reset scope level :: resetLevels scope (level + 1) rest

/-- All parameters as they were at first. -/
def reset (p : Pyramid d) : Pyramid d := { p with levels := resetLevels p.scope 0 p.levels }

end Pyramid

/-- An encoder, and a decoder for what it leaves at its levels. -/
def buildPyramid (inputs outputs : List Nat) (horizontal down up : String) :
    Except Fault (Encoder × Decoder) := do
  let encoder ← Pyramid.build .fineToCoarse "encoder" inputs outputs horizontal down
  let decoder ← Pyramid.build .coarseToFine "decoder" outputs outputs horizontal up
  return (encoder, decoder)

end Midframe
