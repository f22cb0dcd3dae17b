import Midframe.Fault

/-!
# Which frame is made from which

Only the frame halfway between two known frames can be made. To fill an interval it is bisected, and
both halves are filled the same way, the left one first; every frame is made before it is needed.
That works out exactly for intervals whose length is a power of two.
-/

namespace Midframe

/-- A power of two: 1, 2, 4, 8, … -/
def isPowerOfTwo (n : Nat) : Bool := n == 1 <<< n.log2

/-- Frame `mid` is made from the frames `left` and `right`. -/
structure MidpointStep where
  /-- The frame before. -/
  left : Nat
  /-- The frame behind. -/
  right : Nat
  /-- The frame in the middle. -/
  mid : Nat
deriving DecidableEq, Repr

/-- The steps that fill the interval between two frames. -/
def bisect (left right : Nat) : Except Fault (List MidpointStep) :=
  if _short : right - left ≤ 1 then .ok []
  else if (left + right) % 2 != 0 then .error (.invalid (.oddSplit left right))
  else do
    let mid := (left + right) / 2
    let before ← bisect left mid
    let behind ← bisect mid right
    return ⟨left, right, mid⟩ :: (before ++ behind)
termination_by right - left

/-- The steps that fill the frames from `start` to `stop`. -/
def interpolationOrder (stop start : Nat) : Except Fault (List MidpointStep) :=
  if stop < start then .error (.invalid (.reversedRange start stop)) else bisect start stop

end Midframe
