import Midframe.Count
import Midframe.Json.Read
import Midframe.Scalar

/-!
# What data texts stand for

A count is a whole number below `2 ^ 64`, written without sign, point or exponent. Every numeral
stands for a double precision number unless it is too large. The numeral is not rounded as a whole:
as many leading digits as fit into 64 bits are taken for the significand, the significand becomes a
double precision number, and that is multiplied or divided by a power of ten. Single precision
numbers are read from whole numerals directly and from all others by way of double precision.

The fields of a record may be given by name or, in order, as a list.
-/

namespace Midframe

namespace Numeral

/-- The largest exponent that is looked at: `2 ^ 31 - 1`. -/
def maxExponent : Nat := 2147483647

/-- The value of a decimal digit. -/
def digitValue (c : Char) : Nat := c.toNat - '0'.toNat

/-- The number of a sequence of digits. -/
def digitsValue (digits : List Char) : Nat := digits.foldl (fun n c => n * 10 + digitValue c) 0

/-- Digits appended to a significand as long as it fits; the others are left. -/
def appendDigits (significand : Nat) : List Char → Nat × List Char
  | [] => (significand, [])
  | c :: rest =>
    let next := significand * 10 + digitValue c
    if maxCount < next then (significand, c :: rest) else appendDigits next rest

/-- The significand of a numeral and the power of ten it is to be multiplied by, the exponent left
aside. Digits of the whole part that do not fit count as zeros, digits of the fraction that do not
fit are dropped. -/
def significand (n : Numeral) : Nat × Int :=
  let (s, left) := appendDigits 0 n.whole
  let (s, dropped) := appendDigits s n.fraction
  (s, (left.length : Int) - ((n.fraction.length - dropped.length : Nat) : Int))

/-- A power of ten that a double precision number can hold. -/
def powerOfTen (k : Nat) : Float := OfScientific.ofScientific 1 false k

/-- A number times a power of ten; `none` if that is too large. Three steps are enough to reach zero
from any significand. -/
def scaleByTen (x : Float) (exponent : Int) : Nat → Option Float
  | 0 => some 0
  | steps + 1 =>
    if exponent.natAbs ≤ 308 then
      let power := powerOfTen exponent.natAbs
      if 0 ≤ exponent then
        let y := x * power
        if y.isInf then none else some y
      else some (x / power)
    else if x == 0 then some 0
    else if 0 ≤ exponent then none
    else scaleByTen (x / powerOfTen 308) (exponent + 308) steps

/-- The size of a numeral as a double precision number; `none` if it is too large. -/
def magnitude? (n : Numeral) : Option Float :=
  let (s, scale) := n.significand
  match n.exponent with
  | none => scaleByTen (Float.ofNat s) scale 3
  | some (negative, digits) =>
    let e := digitsValue digits
    if maxExponent < e then if negative || s == 0 then some 0 else none
    else scaleByTen (Float.ofNat s) (if negative then scale - e else scale + e) 3

/-- The double precision number of a numeral; `none` if it is too large. -/
def number? (n : Numeral) : Option Float :=
  n.magnitude?.map fun x => if n.negative then -x else x

/-- A numeral without point and exponent. -/
def isWhole (n : Numeral) : Bool := n.fraction.isEmpty && n.exponent.isNone

/-- The count of a numeral. -/
def count? (n : Numeral) : Option Nat :=
  let value := digitsValue n.whole
  if n.isWhole && !n.negative && value ≤ maxCount then some value else none

/-- The single precision number of a numeral; `none` if it is too large for a double precision
one. -/
def sample? (n : Numeral) : Option Float32 :=
  let value := digitsValue n.whole
  if n.isWhole && !n.negative && value ≤ maxCount then some (Float32.ofNat value)
  else if n.isWhole && n.negative && 0 < value && value ≤ addressable + 1 then
    some (-Float32.ofNat value)
  else n.number?.map Widening.narrow

end Numeral

namespace Json

/-- A count. -/
def count? : Json → Option Nat
  | number n => n.count?
  | _ => none

/-- A single precision number. -/
def sample? : Json → Option Float32
  | number n => n.sample?
  | _ => none

/-- A text. -/
def text? : Json → Option String
  | string q => q.decode?
  | _ => none

/-- A list. -/
def list? {α : Type} (item? : Json → Option α) : Json → Option (List α)
  | array items => items.mapM item?
  | _ => none

/-- A value that may be absent. -/
def optional? {α : Type} (value? : Json → Option α) : Json → Option (Option α)
  | null => some none
  | value => (value? value).map some

/-- The members of an object, their names decoded. -/
def members? : Json → Option (List (String × Json))
  | object members => members.mapM fun (name, value) => name.decode?.map (·, value)
  | _ => none

/-- The value of a single precision number; what is no finite number has none. -/
def ofSample (x : Float32) : Json :=
  match Numeral.read (Layout.data.text32 x).toList with
  | some (n, _) => number n
  | none => null

end Json

/-! ## Records -/

/-- What becomes of a member whose name is no field of the record. -/
inductive UnknownFields
  /-- The record is refused. -/
  | refused
  /-- The member is passed over. -/
  | ignored
deriving DecidableEq, Repr

namespace Json

/-- The value of a field among decoded members; `none` if there is more than one. -/
def fieldOf? (members : List (String × Json)) (field : String) : Option (Option Json) :=
  match members.filter fun m => m.1 == field with
  | [] => some none
  | [m] => some (some m.2)
  | _ => none

/-- The values of the fields of a record, in the order of `fields`; a list gives the leading
ones. -/
def record? (unknown : UnknownFields) (fields : List String) : Json → Option (List (Option Json))
  | array items =>
    if fields.length < items.length then none
    else some (items.map some ++ List.replicate (fields.length - items.length) none)
  | object members => do
    let members ← (object members).members?
    if unknown == .refused && !members.all (fun m => fields.contains m.1) then none
    else fields.mapM (fieldOf? members)
  | _ => none

/-- A field that must be there. -/
def required? {α : Type} (value? : Json → Option α) : Option Json → Option α
  | some value => value? value
  | none => none

/-- A field that falls back to a value of its own. -/
def defaulted? {α : Type} (value? : Json → Option α) (fallback : α) : Option Json → Option α
  | some value => value? value
  | none => some fallback

end Json

end Midframe
