import Midframe.Tensor.Basic

/-!
# Resampling

Three ways to change the spatial extents of a batch.

Scaling places the centre of output sample `d` at coordinate `(d + 1/2) / scale - 1/2` of the input,
and gives each axis `scale` times its extent, rounded down. The nearest filter takes the sample
whose cell the centre falls into, the bilinear filter blends the two samples around it, and the
edge sample stands for everything beyond it. Coordinates are computed in the wider numbers of
`Widening`, blends in samples.

Expanding doubles both extents with the binomial kernel 1, 4, 6, 4, 1: even positions blend three
samples, odd positions the two next to them.

Shuffling turns `r * r` channels into one whose cells of `r` rows and `r` columns hold the samples
of those channels.
-/

namespace Midframe

/-- How a scaled array reads its input. -/
inductive Filter
  /-- The sample whose cell holds the coordinate. -/
  | nearest
  /-- A blend of the samples on both sides of the coordinate. -/
  | bilinear
deriving DecidableEq, Repr

/-- The two samples along an axis that an output sample blends. -/
structure Tap (α : Type) where
  /-- The index of the sample in front of the coordinate. -/
  low : Nat
  /-- The index of the sample behind it. -/
  high : Nat
  /-- The share of the sample behind it. -/
  fraction : α

namespace Tap

variable {α ω : Type} [Scalar α] [Scalar ω] [Widening α ω]

/-- The tap of output sample `d` on an axis of `n` samples. -/
@[specialize] def ofIndex (filter : Filter) (scale : ω) (n d : Nat) : Tap α :=
  let centre : ω := (Scalar.ofNat d + Scalar.half) / scale
  match filter with
  | .nearest =>
    let i := min (Scalar.truncate centre) (n - 1)
    ⟨i, i, Scalar.zero⟩
  | .bilinear =>
    let source := Scalar.nonnegative (centre - Scalar.half)
    let low := min (Scalar.truncate source) (n - 1)
    ⟨low, min (low + 1) (n - 1), Widening.narrow (source - Scalar.ofNat low)⟩

/-- The blend of two samples at a tap. -/
@[inline] def blend (tap : Tap α) (low high : α) : α :=
  low * (Scalar.one - tap.fraction) + high * tap.fraction

end Tap

/-- The extent of a scaled axis. -/
def scaledExtent {ω : Type} [Scalar ω] (n : Nat) (scale : ω) : Nat :=
  Scalar.truncate (Scalar.ofNat n * scale)

namespace Shape

/-- The shape after scaling both spatial extents. -/
def scaled {ω : Type} [Scalar ω] (s : Shape) (scale : ω) : Shape :=
  s.resized (scaledExtent s.height scale) (scaledExtent s.width scale)

/-- The shape after doubling both spatial extents. -/
def doubled (s : Shape) : Shape := s.resized (s.height * 2) (s.width * 2)

/-- The shape after shuffling `r * r` channels into one. -/
def shuffled (s : Shape) (r : Nat) : Shape :=
  ⟨s.batch, s.channels / (r * r), s.height * r, s.width * r⟩

end Shape

namespace Tensor

variable {α ω : Type} [Scalar α] [Scalar ω] [Widening α ω]

/-- The sample that the taps of a row and a column give. Where the row tap has no share of the
lower row, that row is not looked at. -/
@[inline] def getBlended (t : Tensor α) (n c : Nat) (row column : Tap α) : α :=
  let top := column.blend (t.get n c row.low column.low) (t.get n c row.low column.high)
  if Scalar.isZero row.fraction then top
  else
    row.blend top
      (column.blend (t.get n c row.high column.low) (t.get n c row.high column.high))

/-- The batch with both spatial extents scaled. -/
@[specialize] def resample (t : Tensor α) (scale : ω) (filter : Filter) : Tensor α :=
  let s := t.shape.scaled scale
  let rows : Array (Tap α) := Array.ofFn fun i : Fin s.height =>
    Tap.ofIndex filter scale t.shape.height i
  let columns : Array (Tap α) := Array.ofFn fun i : Fin s.width =>
    Tap.ofIndex filter scale t.shape.width i
  ofFn s fun n c y x => match rows[y]?, columns[x]? with
    | some row, some column => t.getBlended n c row column
    | _, _ => Scalar.zero

/-- Scaling, refused where the scale is no positive number or nothing would be left. -/
def resize (t : Tensor Float32) (scale : Float) (filter : Filter) :
    Except Fault (Tensor Float32) :=
  if !(Scalar.isFinite scale && Scalar.lt Scalar.zero scale) then
    .error (.invalid (.scale scale))
  else
    let s := t.shape.scaled scale
    if s.height == 0 || s.width == 0 then .error (.invalid (.emptyResize t.shape scale))
    else .ok (t.resample scale filter)

/-! ## Expanding -/

/-- Sample `i` of an axis of `n` samples after it is doubled, read through `f`. -/
@[inline] def expandedSample (n i : Nat) (f : Nat → α) : α :=
  let k := i / 2
  let next := f (min (k + 1) (n - 1))
  if i % 2 == 0 then
    (f (k - 1) + Scalar.ofNat 6 * f k + next) * Scalar.ratio 1 8
  else (f k + next) * Scalar.half

/-- The batch with its rows doubled. -/
@[specialize] def expandRows (t : Tensor α) : Tensor α :=
  ofFn (t.shape.resized (t.shape.height * 2) t.shape.width) fun n c y x =>
    expandedSample t.shape.height y fun y => t.get n c y x

/-- The batch with its columns doubled. -/
@[specialize] def expandColumns (t : Tensor α) : Tensor α :=
  ofFn (t.shape.resized t.shape.height (t.shape.width * 2)) fun n c y x =>
    expandedSample t.shape.width x fun x => t.get n c y x

/-- Both spatial extents doubled: rows first, then columns. -/
@[specialize] def expand (t : Tensor α) : Except Fault (Tensor α) :=
  if t.shape.height == 0 || t.shape.width == 0 then .error (.invalid (.pyramidEmpty t.shape))
  else .ok t.expandRows.expandColumns

/-! ## Shuffling -/

/-- Channels rearranged into space, `r * r` of them into cells of `r` rows and `r` columns. Whether
they come in such cells is only asked once their number is counted. -/
@[specialize] def shuffle (t : Tensor α) (r : Nat) : Except Fault (Tensor α) := do
  let cell ← checkedCount (r * r)
  if r == 0 || t.shape.channels % cell != 0 then throw (.shuffleChannels t.shape.channels)
  else return ofFn (t.shape.shuffled r) fun n c y x =>
    t.get n (c * cell + y % r * r + x % r) (y / r) (x / r)

end Tensor

end Midframe
