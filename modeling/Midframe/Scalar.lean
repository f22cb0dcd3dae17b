/-!
# Scalars

Samples, weights and slopes are single precision numbers; coordinates, scales and frame statistics
are double precision ones. The array operations that need nothing but arithmetic are written once,
over any type with the operations of `Scalar`, so that the definition that runs at `Float32` is the
one that can be read in an exact field such as the rationals.

No law is assumed of a `Scalar`: its operations may round, and the order in which a definition
applies them is part of its meaning.

The last section ties the two precisions together: `Float32.widen` is exact and `Float.narrow`
rounds to nearest, ties to even, both through the sign, mantissa and exponent of a number.
-/

namespace Midframe

/-- The arithmetic of the numbers that tensors, coordinates and statistics are made of. -/
class Scalar (α : Type) extends Add α, Sub α, Mul α, Div α where
  /-- The number that absent samples and empty sums stand for. -/
  zero : α
  /-- The neutral factor. -/
  one : α
  /-- The number nearest to a count. -/
  ofNat : Nat → α
  /-- At most; false whenever a side is not a number. -/
  le : α → α → Bool
  /-- Less than; false whenever a side is not a number. -/
  lt : α → α → Bool
  /-- Equality with zero of either sign. -/
  isZero : α → Bool
  /-- Neither infinite nor undefined. -/
  isFinite : α → Bool
  /-- The whole part of a number that is at least 1, held below `2 ^ 64`; 0 for all others. -/
  truncate : α → Nat

namespace Scalar

variable {α : Type} [Scalar α]

/-- The ratio of two counts, rounded once when both counts are exact. -/
@[inline] def ratio (num den : Nat) : α := ofNat num / ofNat den

/-- A half. -/
@[inline] def half : α := ratio 1 2

/-- The negative part cut off: `x` where it is at least zero, else zero. -/
@[inline] def nonnegative (x : α) : α := if le zero x then x else zero

/-- `x` lies strictly between `-bound` and `bound`. -/
@[inline] def isWithin (x bound : α) : Bool := lt (zero - bound) x && lt x bound

end Scalar

/-- A type of samples `α` and the wider numbers `ω` in which positions, scales and sums are
computed. -/
class Widening (α : Type) (ω : outParam Type) where
  /-- The same number, in the wider type. -/
  widen : α → ω
  /-- The sample nearest to a wide number. -/
  narrow : ω → α

/-! ## The two precisions -/

instance : Scalar Float32 where
  zero := 0
  one := 1
  ofNat := Float32.ofNat
  le a b := a.le b
  lt a b := a.lt b
  isZero a := a == 0
  isFinite := Float32.isFinite
  truncate a := a.toUInt64.toNat

instance : Scalar Float where
  zero := 0
  one := 1
  ofNat := Float.ofNat
  le a b := a.le b
  lt a b := a.lt b
  isZero a := a == 0
  isFinite := Float.isFinite
  truncate a := a.toUInt64.toNat

open Float.Model in
/-- The double precision number of the same value. -/
def widenSample (x : Float32) : Float :=
  ⟨Float.Model.pack <| match x.toModel.unpack with
    | .finite sign mantissa exponent _ =>
      UnpackedFloat.round Format.binary64 sign mantissa exponent
    | special => special⟩

open Float.Model in
/-- The single precision number nearest to a double precision one, ties to even; infinite beyond
the largest. -/
def narrowNumber (x : Float) : Float32 :=
  ⟨Float32.Model.pack <| match x.toModel.unpack with
    | .finite sign mantissa exponent _ =>
      UnpackedFloat.round Format.binary32 sign mantissa exponent
    | special => special⟩

instance : Widening Float32 Float where
  widen := widenSample
  narrow := narrowNumber

end Midframe
