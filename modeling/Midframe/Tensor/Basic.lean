import Midframe.Fault
import Midframe.Scalar

/-!
# Tensors

A tensor is a shape together with exactly as many samples, in row-major order. `Tensor.ofFn` builds
one from a function of the four indices and `Tensor.get` reads it at four indices; every array
operation of the library is stated through these two. Reading is total: where there is no sample it
gives zero.
-/

namespace Midframe

/-- A four-dimensional array of samples. -/
structure Tensor (α : Type) where
  /-- The extents. -/
  shape : Shape
  /-- The samples, in row-major order. -/
  data : Vector α shape.size

namespace Tensor

variable {α β : Type}

/-- The tensor whose sample at batch entry `n`, channel `c`, row `y` and column `x` is
`f n c y x`. -/
@[specialize] def ofFn (s : Shape) (f : Nat → Nat → Nat → Nat → α) : Tensor α where
  shape := s
  data := Vector.ofFn fun i =>
    f (i.val / (s.channels * s.height * s.width)) (i.val / (s.height * s.width) % s.channels)
      (i.val / s.width % s.height) (i.val % s.width)

/-- The tensor of the given samples; `none` unless they are as many as the shape holds. -/
def ofArray? (shape : Shape) (data : Array α) : Option (Tensor α) :=
  if h : data.size = shape.size then some ⟨shape, ⟨data, h⟩⟩ else none

/-- The tensor whose samples are all the same. -/
def replicate (shape : Shape) (value : α) : Tensor α := ⟨shape, Vector.replicate shape.size value⟩

/-- The sample at the given batch entry, channel, row and column. -/
@[inline] def get [Scalar α] (t : Tensor α) (n c y x : Nat) : α :=
  let i := t.shape.offset n c y x
  if h : i < t.shape.size then t.data[i] else Scalar.zero

/-- The function applied to every sample. -/
@[inline] def map (f : α → β) (t : Tensor α) : Tensor β := ⟨t.shape, t.data.map f⟩

/-- The sum, sample by sample. There is no broadcasting: the shapes must be equal. -/
@[specialize] def add [Scalar α] (a b : Tensor α) : Except Fault (Tensor α) :=
  if h : a.shape = b.shape then
    .ok ⟨a.shape, Vector.zipWith (· + ·) a.data (b.data.cast (congrArg Shape.size h.symm))⟩
  else .error (.shapeMismatch (.sum a.shape b.shape))

/-- The leading rows and columns. -/
@[specialize] def crop [Scalar α] (t : Tensor α) (height width : Nat) : Except Fault (Tensor α) :=
  if t.shape.height < height || t.shape.width < width then
    .error (.shapeMismatch (.crop t.shape height width))
  else if height == t.shape.height && width == t.shape.width then .ok t
  else .ok (ofFn (t.shape.resized height width) t.get)

/-- Samples that are negative are multiplied by the slope, as is everything that is not a number. -/
@[inline] def prelu [Scalar α] (t : Tensor α) (slope : α) : Tensor α :=
  t.map fun v => if Scalar.le Scalar.zero v then v else v * slope

/-! ## Joining and splitting along channels -/

/-- The sample of channel `c` counted through all parts. -/
@[specialize] def getFromParts [Scalar α] : List (Tensor α) → Nat → Nat → Nat → Nat → α
  | [], _, _, _, _ => Scalar.zero
  | t :: rest, n, c, y, x =>
    if c < t.shape.channels then t.get n c y x
    else getFromParts rest n (c - t.shape.channels) y x

/-- The channels of all parts, one part after the other. -/
@[specialize] def concatChannels [Scalar α] (parts : List (Tensor α)) : Except Fault (Tensor α) :=
  match parts with
  | [] => .error (.shapeMismatch .concatenation)
  | first :: _ =>
    let isAlike (t : Tensor α) : Bool :=
      { t.shape with channels := first.shape.channels } == first.shape
    if parts.all isAlike then
      let channels := total (parts.map (·.shape.channels))
      .ok (ofFn { first.shape with channels } (getFromParts parts))
    else .error (.shapeMismatch .concatenation)

/-- One entry of a batch, as a batch of its own. -/
@[specialize] def entry [Scalar α] (t : Tensor α) (n : Nat) : Tensor α :=
  ofFn { t.shape with batch := 1 } fun _ c y x => t.get n c y x

end Tensor

end Midframe
