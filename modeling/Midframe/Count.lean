/-!
# Counts

Extents, channels and sizes are natural numbers. What can be addressed or written as a count of a
file is bounded by the machine word. Arguments and image files hold counts as decimal digits.
-/

namespace Midframe

/-- The largest count that fits into a machine word: `2 ^ 64 - 1`. -/
def maxCount : Nat := 18446744073709551615

/-- The number of bytes that can be addressed: `2 ^ 63 - 1`. -/
def addressable : Nat := 9223372036854775807

/-- The sum of some counts. -/
def total : List Nat → Nat
  | [] => 0
  | n :: rest => n + total rest

/-- The product of some counts: how many values an array of these extents has. -/
def volume : List Nat → Nat
  | [] => 1
  | n :: rest => n * volume rest

/-- The number that decimal digits stand for. -/
def digitCount? (digits : List Char) : Option Nat :=
  if digits.isEmpty || !digits.all Char.isDigit then none
  else some (digits.foldl (fun n c => n * 10 + (c.toNat - '0'.toNat)) 0)

/-- The number that decimal digits stand for, behind a plus sign or none. -/
def decimalCount? : List Char → Option Nat
  | '+' :: rest => digitCount? rest
  | text => digitCount? text

end Midframe
