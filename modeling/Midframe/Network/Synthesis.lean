import Midframe.Tensor.Padding

/-!
# Frame statistics and synthesis

Before a pair of frames enters the network, both are shifted and scaled by their joint mean and
deviation, each entry of the batch by its own. The joint variance is put together from the moments
of the two frames, without pooling their samples.

The network predicts, for every position, a vertical and a horizontal kernel per frame. A frame is
filtered by the products of the two kernels; a channel of ones that is filtered alongside tells how
much the kernels sum up to, and the result is divided by it.
-/

namespace Midframe

namespace Tensor

/-! ## Statistics -/

section Moments

variable {α ω : Type} [Scalar ω] [Widening α ω]

/-- The samples of one entry of a batch, in row-major order. -/
def entrySamples (t : Tensor α) (n : Nat) : List α :=
  let size := t.shape.channels * t.shape.height * t.shape.width
  (t.data.toArray.extract (n * size) ((n + 1) * size)).toList

/-- The mean of samples and the mean square of their distances from it; zeros if there are none. -/
def moments (samples : List α) : ω × ω :=
  if samples.isEmpty then (Scalar.zero, Scalar.zero)
  else
    let count : ω := Scalar.ofNat samples.length
    let mean : ω := samples.foldl (fun acc v => acc + Widening.widen v) Scalar.zero / count
    let squares : ω := samples.foldl (fun acc v =>
      let distance := Widening.widen v - mean
      acc + distance * distance) Scalar.zero
    (mean, squares / count)

/-- The mean and the variance of two sets of equally many samples taken together, from the mean and
the variance of each. -/
def joinMoments (one two : ω × ω) : ω × ω :=
  let mean := Scalar.half * (one.1 + two.1)
  let spread (m : ω × ω) : ω := m.2 + (mean - m.1) * (mean - m.1)
  (mean, Scalar.half * (spread one + spread two))

/-- The joint mean and variance of entry `n` of two batches. -/
def jointMoments (one two : Tensor α) (n : Nat) : ω × ω :=
  joinMoments (moments (one.entrySamples n)) (moments (two.entrySamples n))

end Moments

/-- Every sample shifted by the mean of its batch entry and divided by the scale of it. -/
@[specialize] def standardize {α : Type} [Scalar α] (t : Tensor α) (mean scale : Nat → α) :
    Tensor α :=
  ofFn t.shape fun n c y x => (t.get n c y x - mean n) / scale n

/-- Both frames of a pair by their joint statistics. `divisor` tells from the joint variance of an
entry what its samples are divided by. -/
@[specialize] def normalizePairBy {α ω : Type} [Scalar α] [Scalar ω] [Widening α ω]
    (divisor : ω → α) (one two : Tensor α) : Except Fault (Tensor α × Tensor α) :=
  if one.shape != two.shape then .error (.shapeMismatch (.frames one.shape two.shape))
  else
    let entries : Array (α × α) := Array.ofFn fun n : Fin one.shape.batch =>
      let (mean, variance) := jointMoments one two n
      (Widening.narrow mean, divisor variance)
    let mean (n : Nat) : α := (entries.getD n (Scalar.zero, Scalar.zero)).1
    let scale (n : Nat) : α := (entries.getD n (Scalar.zero, Scalar.zero)).2
    .ok (one.standardize mean scale, two.standardize mean scale)

/-- What the joint deviation is raised by before it divides. -/
def deviationFloor : Float32 := Scalar.ratio 1 10000000

/-- The deviation of a variance, raised so that it can divide. -/
def raisedDeviation (variance : Float) : Float32 :=
  Widening.narrow variance.sqrt + deviationFloor

/-- Both frames of a pair by their joint mean and deviation. -/
def normalizePair (one two : Tensor Float32) : Except Fault (Tensor Float32 × Tensor Float32) :=
  normalizePairBy raisedDeviation one two

/-! ## Synthesis -/

variable {α : Type} [Scalar α]

/-- A batch of frames with a channel of ones behind the others, and edges repeated as far as kernels
of the given length reach. -/
@[specialize] def synthesisFrame (t : Tensor α) (kernelSize : Nat) : Except Fault (Tensor α) := do
  let ones := replicate { t.shape with channels := 1 } Scalar.one
  let withOnes ← concatChannels [t, ones]
  withOnes.pad (Padding.uniform (kernelSize / 2)) .replicate

/-- One sample of a separable filter: the rows of the window are weighted by the horizontal kernel
of the position, and their sums by the vertical one. -/
@[specialize] def filteredSample (t vertical horizontal : Tensor α) (n c y x : Nat) : α :=
  let taps := vertical.shape.channels
  Nat.fold taps (fun i _ acc =>
    let row := Nat.fold taps (fun j _ acc =>
      acc + t.get n c (y + i) (x + j) * horizontal.get n j y x) Scalar.zero
    acc + row * vertical.get n i y x) Scalar.zero

/-- Every position filtered by its own pair of kernels. The kernels hold their taps as channels;
the batch must be larger than they are by one less than the number of taps. -/
@[specialize] def separableFilter (t vertical horizontal : Tensor α) :
    Except Fault (Tensor α) :=
  let k := vertical.shape
  if k != horizontal.shape then .error (.shapeMismatch (.kernelPair k horizontal.shape))
  else if k.channels == 0 || t.shape.batch != k.batch
      || t.shape.height != k.height + (k.channels - 1)
      || t.shape.width != k.width + (k.channels - 1) then
    .error (.shapeMismatch (.window t.shape k.channels k.height k.width))
  else
    .ok (ofFn ⟨k.batch, t.shape.channels, k.height, k.width⟩ (t.filteredSample vertical horizontal))

/-- A normalizer that is nearly zero counts as one. -/
@[inline] def normalizerOf (v : α) : α :=
  if Scalar.isWithin v (Scalar.ratio 1 100) then Scalar.one else v

/-- All channels but the last one, divided by the last one. -/
@[specialize] def divideByNormalizer (t : Tensor α) : Except Fault (Tensor α) :=
  if t.shape.channels < 2 then .error (.shapeMismatch (.normalizer t.shape))
  else
    let last := t.shape.channels - 1
    .ok (ofFn { t.shape with channels := last } fun n c y x =>
      t.get n c y x / normalizerOf (t.get n last y x))

end Tensor

end Midframe
