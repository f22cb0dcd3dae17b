import Midframe.Pyramid.Build
import Midframe.Pyramid.Flow
import Midframe.Pyramid.ShapeTable

/-!
# Passes through a pyramid

A level turns its own value, if it has one, with its horizontal block, and adds the contribution
that its vertical block makes out of the neighbour; either alone stands for the sum. The encoder
goes from fine to coarse and records the shape of every value it leaves. The decoder goes from
coarse to fine, and fits every contribution to the recorded shape: it may be one row and one column
too large, since odd extents were rounded up on the way, and loses them at the trailing edges.

A failing encoder leaves in the table what it had recorded until then.
-/

namespace Midframe

namespace Level

variable {τ : Type} [Flow τ]

/-- The own value of a level behind its horizontal block. -/
def ownValue (l : Level) (value : Option τ) : Except Fault (Option τ) :=
  match l.horizontal, value with
  | some block, some v => (Flow.apply block v).map some
  | _, value => .ok value

/-- The contribution of the vertical block. `neighbour` is the position of the neighbouring level
and `source` its value. -/
def contribution (l : Level) (scope : String) (level neighbour : Nat) (source : Option τ) :
    Except Fault (Option τ) :=
  match l.vertical, source with
  | none, _ => .ok none
  | some _, none => .error (.invalid (.emptyNeighbour scope level neighbour))
  | some block, some v => (Flow.apply block v).map some

/-- The sum of a level's own value and a contribution. -/
def combine (value : Option τ) (contribution : τ) : Except Fault τ :=
  match value with
  | some v => Flow.add v contribution
  | none => .ok contribution

/-- Whether an extent is the wanted one, or one more. What one more is is only counted for an extent
that is not the wanted one. -/
def isCroppable (found wanted : Nat) : Except Fault Bool := do
  if found == wanted then return true
  else return found == (← checkedCount (wanted + 1))

/-- Whether both extents of a shape are the wanted ones, or one more. The width is only looked at if
the height is fine. -/
def fits (found wanted : Shape) : Except Fault Bool := do
  if ← isCroppable found.height wanted.height then isCroppable found.width wanted.width
  else return false

/-- A contribution brought to the recorded height and width. -/
def reconcile (level : Nat) (contribution : τ) (expected : Shape) : Except Fault τ := do
  let found := Flow.shape contribution
  if ← fits found expected then
    if found.height == expected.height && found.width == expected.width then return contribution
    else Flow.crop contribution expected.height expected.width
  else throw (.shapeReconciliation level expected found)

/-- The value of a level of an encoder, from its input and the value of the level below it. -/
def encode (l : Level) (scope : String) (level : Nat) (input below : Option τ) :
    Except Fault (Option τ) := do
  let value ← l.ownValue input
  match ← l.contribution scope level (level - 1) below with
  | some c => some <$> combine value c
  | none => return value

/-- The value of a level of a decoder, from its input and the value of the level above it. -/
def decode (l : Level) (scope : String) (table : ShapeTable) (level : Nat)
    (input above : Option τ) : Except Fault (Option τ) := do
  let value ← l.ownValue input
  match ← l.contribution scope level (level + 1) above with
  | some c => match table.get? level with
    | some expected =>
      let c ← reconcile level c expected
      some <$> combine value c
    | none => throw (.missingShapeRecord level)
  | none => return value

end Level

namespace Pyramid

variable {τ : Type} [Flow τ] {d : Direction}

/-- Every level gets one input, which may be empty. -/
def checkInputs {α : Type} (p : Pyramid d) (inputs : List α) : Except Fault Unit :=
  if inputs.length != p.levels.length then
    .error (.invalid (.levelInputs p.scope p.levels.length inputs.length))
  else .ok ()

/-- The values of the levels from position `level` on, each with its input, above a level that was
left with `below`. Comes with the table as it is at the end, or at the first fault. -/
def encodeLevels (scope : String) (level : Nat) (below : Option τ) (table : ShapeTable) :
    List (Level × Option τ) → Except Fault (List (Option τ)) × ShapeTable
  | [] => (.ok [], table)
  | (l, input) :: rest =>
    match l.encode scope level input below with
    | .error e => (.error e, table)
    | .ok value =>
      let table := match value with
        | some v => table.insert level (Flow.shape v)
        | none => table
      let (values, table) := encodeLevels scope (level + 1) value table rest
      (values.map (value :: ·), table)

/-- The pass of an encoder, and the table it leaves. -/
def encode (p : Encoder) (inputs : List (Option τ)) (table : ShapeTable) :
    Except Fault (List (Option τ)) × ShapeTable :=
  match p.checkInputs inputs with
  | .error e => (.error e, table)
  | .ok () => encodeLevels p.scope 0 none table (p.levels.zip inputs)

/-- The values of the levels from position `level` on, each with its input. -/
def decodeLevels (scope : String) (table : ShapeTable) (level : Nat) :
    List (Level × Option τ) → Except Fault (List (Option τ))
  | [] => .ok []
  | (l, input) :: rest => do
    let values ← decodeLevels scope table (level + 1) rest
    let value ← l.decode scope table level input (values.head?.join)
    return value :: values

/-- The pass of a decoder. -/
def decode (p : Decoder) (inputs : List (Option τ)) (table : ShapeTable) :
    Except Fault (List (Option τ)) := do
  p.checkInputs inputs
  decodeLevels p.scope table 0 (p.levels.zip inputs)

end Pyramid

end Midframe
