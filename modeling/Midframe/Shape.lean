import Midframe.Count

/-!
# Shapes

The extents of a four-dimensional array of samples, from the slowest index to the fastest: batch
entries, channels, rows and columns. Samples lie in row-major order.
-/

namespace Midframe

/-- The extents of an array of samples. Shapes are ordered by their extents, batch first. -/
structure Shape where
  /-- The number of independent entries. -/
  batch : Nat
  /-- The number of channels of an entry. -/
  channels : Nat
  /-- The number of rows of a channel. -/
  height : Nat
  /-- The number of columns of a channel. -/
  width : Nat
deriving DecidableEq, Ord, Repr, Inhabited

namespace Shape

/-- The number of samples. -/
def size (s : Shape) : Nat := s.batch * s.channels * s.height * s.width

/-- No samples at all: some extent is zero. -/
def isEmpty (s : Shape) : Bool := s.size == 0

/-- The position of the sample at the given batch entry, channel, row and column. -/
@[inline] def offset (s : Shape) (n c y x : Nat) : Nat :=
  ((n * s.channels + c) * s.height + y) * s.width + x

/-- The extents in parentheses. -/
def text (s : Shape) : String :=
  s!"({s.batch}, {s.channels}, {s.height}, {s.width})"

/-- The extents as a list. -/
def extents (s : Shape) : List Nat := [s.batch, s.channels, s.height, s.width]

/-- The shape with the given extents; `none` unless there are four of them. -/
def ofExtents? : List Nat → Option Shape
  | [batch, channels, height, width] => some ⟨batch, channels, height, width⟩
  | _ => none

/-- The same batch and channels over other spatial extents. -/
def resized (s : Shape) (height width : Nat) : Shape := { s with height, width }

end Shape

end Midframe
