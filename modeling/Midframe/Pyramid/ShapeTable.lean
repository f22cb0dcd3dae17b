import Midframe.Json.Value
import Midframe.Keyed
import Midframe.Shape

/-!
# Shape tables

While the encoder descends it records the shape it leaves at every level; the decoder of the same
pass reads the table to undo the rounding of odd extents.
-/

namespace Midframe

namespace Shape

/-- The shape in a file. -/
def toJson (s : Shape) : Json :=
  .ofMembers [("batch", .ofNat s.batch), ("channels", .ofNat s.channels),
    ("height", .ofNat s.height), ("width", .ofNat s.width)]

/-- The shape that a file holds. -/
def ofJson? (j : Json) : Option Shape := do
  let fields ← j.record? .ignored ["batch", "channels", "height", "width"]
  ofExtents? (← fields.mapM (Json.required? Json.count?))

end Shape

/-- Shapes by level. -/
abbrev ShapeTable := Keyed Nat Shape

namespace ShapeTable

/-- The table in a file. -/
def toJson (table : ShapeTable) : Json :=
  .ofMembers [("levels", .ofMembers (table.entries.map fun e => (toString e.1, e.2.toJson)))]

/-- The level that a name stands for: a count, written in the name without any escape. -/
def level? (name : Quoted) : Option Nat :=
  match Numeral.read name.body with
  | some (n, []) => n.count?
  | _ => none

/-- The levels that a file holds. Of several shapes of a level the last one stays. -/
def levels? : Json → Option ShapeTable
  | .object members => do
    let entries ← members.mapM fun (name, value) => do
      return (← level? name, ← Shape.ofJson? value)
    return Keyed.ofList entries
  | _ => none

/-- The table that a file holds. -/
def ofJson? (j : Json) : Option ShapeTable := do
  match ← j.record? .ignored ["levels"] with
  | [levels] => Json.required? levels? levels
  | _ => none

/-- The table that a text holds. -/
def ofText? (text : String) : Option ShapeTable := (Json.read? text).bind ofJson?

end ShapeTable

end Midframe
