import Midframe.Tensor.Basic

/-!
# Padding

Rows and columns are added around every channel. What they hold is decided index by index: along
each axis, `Border.source?` names the index of the input that a padded index reads, or none where a
zero border begins. Replicating needs a sample to repeat, and a mirror image reaches only as far as
the input itself.
-/

namespace Midframe

namespace Border

/-- The index that position `i` reads along an axis of `n` samples with `before` positions added in
front, or `none` for a zero. -/
def source? (border : Border) (n before i : Nat) : Option Nat :=
  let p : Int := (i : Int) - before
  if 0 ≤ p ∧ p < n then some p.toNat
  else match border with
    | zeros => none
    | replicate => some (max 0 (min p (n - 1))).toNat
    | reflect =>
      let mirrored := if p < 0 then -p else 2 * ((n : Int) - 1) - p
      some (max 0 (min mirrored (n - 1))).toNat

/-- Whether an array of the given shape can be padded by the given amounts. -/
def check (border : Border) (padding : Padding) (s : Shape) : Except Fault Unit :=
  match border with
  | zeros => .ok ()
  | replicate =>
    if s.height == 0 || s.width == 0 then .error (.invalid (.replicateEmpty s)) else .ok ()
  | reflect =>
    if s.height ≤ max padding.top padding.bottom || s.width ≤ max padding.left padding.right then
      .error (.invalid (.reflectTooLarge padding s))
    else .ok ()

end Border

namespace Shape

/-- The shape after padding. -/
def padded (s : Shape) (p : Padding) : Shape :=
  s.resized (s.height + p.top + p.bottom) (s.width + p.left + p.right)

end Shape

namespace Tensor

variable {α : Type} [Scalar α]

/-- The sample that row `y` and column `x` of the padded array hold. -/
@[inline] def getPadded (t : Tensor α) (p : Padding) (border : Border) (n c y x : Nat) : α :=
  match border.source? t.shape.height p.top y, border.source? t.shape.width p.left x with
  | some y, some x => t.get n c y x
  | _, _ => Scalar.zero

/-- Padding of every channel. Nothing is checked where nothing is added. -/
@[specialize] def pad (t : Tensor α) (p : Padding) (border : Border) : Except Fault (Tensor α) :=
  if p.isZero then .ok t
  else match border.check p t.shape with
    | .error e => .error e
    | .ok () => .ok (ofFn (t.shape.padded p) (t.getPadded p border))

/-- One more row where the height is odd, one more column where the width is. -/
def padToEven (t : Tensor α) (border : Border) : Except Fault (Tensor α) :=
  t.pad (Padding.trailing (t.shape.height % 2) (t.shape.width % 2)) border

end Tensor

end Midframe
