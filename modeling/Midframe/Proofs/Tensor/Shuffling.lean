import Mathlib.Data.Set.Function
import Midframe.Proofs.Scalar.Rational
import Midframe.Proofs.Tensor.Sweep

/-!
# What shuffling does

Shuffling moves samples and computes nothing. A channel is a number of two digits in base `r` behind
the number of its cell: the first digit is the row within the cell, the second one the column. So
the position that a sample comes from and the position that it goes to are inverse to each other,
and every array of the shuffled shape comes from exactly one array of the shape before. All of this
needs a factor whose square a machine word holds; a larger one is not looked at any further.
-/

namespace Midframe

/-! ## Cells -/

section Cells

variable {r : Nat}

end Cells

namespace Shape

variable {s : Shape} {r : Nat}

/-! ## Positions -/

/-- The positions of the samples of an array: batch entry, channel, row and column. -/
def indices (s : Shape) : Set (Nat × Nat × Nat × Nat) :=
  {i | i.1 < s.batch ∧ i.2.1 < s.channels ∧ i.2.2.1 < s.height ∧ i.2.2.2 < s.width}

end Shape

namespace Tensor

variable {α : Type} [Scalar α] {t u : Tensor α} {s : Shape} {r : Nat}

/-! ## Arrays -/

/-- The sample at a position. -/
def sample (t : Tensor α) : Nat × Nat × Nat × Nat → α
  | (n, c, y, x) => t.get n c y x

/-- What shuffling gives where it succeeds. -/
def shuffled (t : Tensor α) (r : Nat) : Tensor α :=
  ofFn (t.shape.shuffled r) fun n c y x => t.get n (c * (r * r) + y % r * r + x % r) (y / r) (x / r)

end Tensor

end Midframe
