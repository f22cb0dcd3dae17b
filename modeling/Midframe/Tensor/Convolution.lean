import Midframe.Tensor.Padding

/-!
# Convolution

A weight holds one kernel for every pair of an output and an input channel. The sample of an output
channel starts from its bias and gathers the products of the weights with the samples under them,
input channel by input channel and each kernel row by row; a weight that is zero is passed over. The
windows are taken from the padded input, `stride` rows and columns apart.
-/

namespace Midframe

/-- Where the windows of a convolution lie. -/
structure Windows where
  /-- The rows and columns between neighbouring windows. -/
  stride : Nat
  /-- The padding on every edge. -/
  padding : Nat
  /-- What the padding holds. -/
  border : Border
deriving DecidableEq, Repr

namespace Windows

/-- The number of windows along an axis of `n` samples; `none` if the kernel does not fit or the
windows do not advance. -/
def count? (w : Windows) (n kernel : Nat) : Option Nat :=
  let padded := n + 2 * w.padding
  if padded < kernel || w.stride == 0 then none else some ((padded - kernel) / w.stride + 1)

end Windows

namespace Tensor

variable {α : Type} [Scalar α]

/-- The start value of an output channel. -/
@[inline] def biasOf (bias : Option (Array α)) (o : Nat) : α :=
  match bias with
  | some b => b.getD o Scalar.zero
  | none => Scalar.zero

/-- One sample of a convolution: the products under the window whose first row and column are
`top` and `left`, gathered onto `start`. -/
@[specialize] def gather (padded weight : Tensor α) (start : α) (n o top left : Nat) : α :=
  Nat.fold weight.shape.channels (fun i _ acc =>
    Nat.fold weight.shape.height (fun ky _ acc =>
      Nat.fold weight.shape.width (fun kx _ acc =>
        let w := weight.get o i ky kx
        if Scalar.isZero w then acc else acc + w * padded.get n i (top + ky) (left + kx))
        acc) acc) start

/-- The convolution of a batch with a weight of shape (outputs, inputs, rows, columns) and an
optional bias. -/
@[specialize] def convolve (t weight : Tensor α) (bias : Option (Array α)) (w : Windows) :
    Except Fault (Tensor α) :=
  let outChannels := weight.shape.batch
  if weight.shape.channels != t.shape.channels then
    .error (.shapeMismatch (.inputChannels weight.shape.channels t.shape))
  else if (bias.map (·.size)).any (· != outChannels) then
    .error (.shapeMismatch (.biasSize ((bias.map (·.size)).getD 0) outChannels))
  else
    match w.count? t.shape.height weight.shape.height,
        w.count? t.shape.width weight.shape.width with
    | some height, some width =>
      match t.pad (Padding.uniform w.padding) w.border with
      | .error e => .error e
      | .ok padded =>
        .ok (ofFn ⟨t.shape.batch, outChannels, height, width⟩ fun n o y x =>
          gather padded weight (biasOf bias o) n o (y * w.stride) (x * w.stride))
    | _, _ =>
      .error (.shapeMismatch
        (.kernelTooLarge weight.shape.height weight.shape.width t.shape (some w.padding)))

end Tensor

end Midframe
