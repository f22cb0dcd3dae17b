import Midframe.Block

/-!
# What travels through a pyramid

A pass carries batches from level to level. The same pass over shapes tells in advance what the
batches will look like. `Flow` names the four things a pass needs of its values; both passes are
instances of one definition.
-/

namespace Midframe

/-- Values that can pass through the blocks of a pyramid. -/
class Flow (τ : Type) where
  /-- The shape of a value. -/
  shape : τ → Shape
  /-- A block applied to a value. -/
  apply : Block → τ → Except Fault τ
  /-- The sum of two values of the same shape. -/
  add : τ → τ → Except Fault τ
  /-- The leading rows and columns. -/
  crop : τ → Nat → Nat → Except Fault τ

/-- Batches of samples. -/
instance : Flow (Tensor Float32) where
  shape := Tensor.shape
  apply := Block.forward
  add := Tensor.add
  crop := Tensor.crop

namespace Shape

/-- The shape of a sum. -/
def add (s t : Shape) : Except Fault Shape :=
  if s == t then .ok s else .error (.shapeMismatch (.sum s t))

/-- The shape of the leading rows and columns. -/
def crop (s : Shape) (height width : Nat) : Except Fault Shape :=
  if s.height < height || s.width < width then .error (.shapeMismatch (.crop s height width))
  else .ok (s.resized height width)

end Shape

/-- Shapes alone. -/
instance : Flow Shape where
  shape := id
  apply := Block.outputShape
  add := Shape.add
  crop := Shape.crop

end Midframe
