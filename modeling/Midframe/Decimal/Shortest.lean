/-!
# Shortest decimals

The decimal that stands for a binary number is the one with the fewest digits among those that
round back to it, and of several with that many digits the one nearest to it. The reals that round
to a number form an interval: halfway to each neighbour, the ends included exactly when the
mantissa is even. `Binary.readsBack` tests a decimal against that interval by cross-multiplying
naturals, and `Binary.shortest` tries the grids of 1, 2, … digits in turn; on each grid only the two
neighbours of the number itself can be the nearest point of the interval.
-/

namespace Midframe

/-- A positive binary number `mantissa * 2 ^ exponent`. -/
structure Binary where
  /-- The whole mantissa, leading bit included. -/
  mantissa : Nat
  /-- The power of two of the last bit of the mantissa. -/
  exponent : Int
  /-- The gap to the number below is half the gap to the number above. -/
  narrowBelow : Bool
deriving DecidableEq, Repr

/-- A decimal `digits * 10 ^ exponent`. -/
structure Decimal where
  /-- The digits, read as one number. -/
  digits : Nat
  /-- The power of ten of the last digit. -/
  exponent : Int
deriving DecidableEq, Repr

/-- Which of two equally near decimals is taken. -/
inductive Tie
  /-- The one whose last digit is even. -/
  | toEven
  /-- The larger one. -/
  | up
deriving DecidableEq, Repr

namespace Binary

open Float.Model in
/-- The magnitude of an unpacked number of the given format; `none` for zero, the infinities and
what is not a number. -/
def ofUnpacked? (format : Format) : UnpackedFloat → Option Binary
  | .finite _ mantissa exponent _ =>
    some ⟨mantissa, exponent, mantissa == 1 <<< format.mantissaBitsWithoutImplicit
      && format.minExponent < exponent⟩
  | _ => none

/-- A power of ten. -/
def tenTo (k : Nat) : Nat := Nat.pow 10 k

/-- The order of `a * 10 ^ i` and `n * 2 ^ j`. -/
def compareScaled (a : Nat) (i : Int) (n : Nat) (j : Int) : Ordering :=
  compare ((a * tenTo i.toNat) <<< (-j).toNat) ((n * tenTo (-i).toNat) <<< j.toNat)

/-- The decimal lies among the reals that round to `x`. -/
def readsBack (x : Binary) (d : Decimal) : Bool :=
  let low := if x.narrowBelow then 4 * x.mantissa - 1 else 4 * x.mantissa - 2
  let high := 4 * x.mantissa + 2
  let ends := x.mantissa % 2 == 0
  let above := compareScaled d.digits d.exponent low (x.exponent - 2)
  let below := compareScaled d.digits d.exponent high (x.exponent - 2)
  (above == .gt || (ends && above == .eq)) && (below == .lt || (ends && below == .eq))

/-- The least `k` with `x < 10 ^ k`. The binary logarithm of `x` fixes it up to one. -/
def decimalScale (x : Binary) : Int :=
  let estimate := ((x.mantissa.log2 : Int) + x.exponent) * 30103 / 100000 + 1
  if compareScaled 1 estimate x.mantissa x.exponent == .gt then estimate else estimate + 1

/-- The whole part of `x / 10 ^ grid`. -/
def gridFloor (x : Binary) (grid : Int) : Nat :=
  (x.mantissa * tenTo (-grid).toNat) <<< x.exponent.toNat
    / tenTo grid.toNat <<< (-x.exponent).toNat

/-- Of the two neighbours of `x` on a grid those that read back, the nearer one first. -/
def onGrid? (x : Binary) (tie : Tie) (grid : Int) : Option Decimal :=
  let under : Decimal := ⟨x.gridFloor grid, grid⟩
  let next : Decimal := ⟨under.digits + 1, grid⟩
  match x.readsBack under, x.readsBack next with
  | false, false => none
  | true, false => some under
  | false, true => some next
  | true, true =>
    -- the midpoint of the two neighbours against `x`, both doubled
    match compareScaled (2 * under.digits + 1) grid (2 * x.mantissa) x.exponent with
    | .gt => some under
    | .lt => some next
    | .eq => match tie with
      | .up => some next
      | .toEven => some (if under.digits % 2 == 0 then under else next)

/-- The decimal value of `x`, with all its digits. -/
def exact (x : Binary) : Decimal :=
  if 0 ≤ x.exponent then ⟨x.mantissa <<< x.exponent.toNat, 0⟩
  else ⟨x.mantissa * Nat.pow 5 (-x.exponent).toNat, x.exponent⟩

/-- The shortest decimal that reads back to `x`, the nearest of its length. Seventeen digits tell
any two double precision numbers apart, so the exact value is never needed. -/
def shortest (x : Binary) (tie : Tie) : Decimal :=
  let scale := x.decimalScale
  ((List.range 17).findSome? fun n => x.onGrid? tie (scale - (n + 1 : Nat))).getD x.exact

end Binary

namespace Decimal

/-- The decimal without trailing zeros. The second argument bounds their number. -/
def stripZeros (d : Decimal) : Nat → Decimal
  | 0 => d
  | fuel + 1 =>
    if d.digits % 10 == 0 && d.digits != 0 then stripZeros ⟨d.digits / 10, d.exponent + 1⟩ fuel
    else d

/-- The decimal digits of a natural, leading digit first. -/
def digitChars (n : Nat) : List Char := Nat.toDigits 10 n

end Decimal

end Midframe
