import Midframe.Fault
import Midframe.Json.Value
import Midframe.Keyed

/-!
# Parameter stores

A store holds arrays of parameters by name, in the order of the names. It is what a network exports
and loads, and what is kept in files: an object whose members are the arrays, each with its extents
and its values in row-major order. A file is only accepted if the values of every array fill its
extents; a store built array by array is not checked.
-/

namespace Midframe

/-- An array of parameters: extents, and values in row-major order. -/
structure ParameterArray where
  /-- The extents. -/
  shape : List Nat
  /-- The values. -/
  data : Array Float32
deriving DecidableEq, Repr, Inhabited

namespace ParameterArray

/-- The number of values that the extents ask for. -/
def expected (a : ParameterArray) : Nat := volume a.shape

/-- The values fill the extents. -/
def isFilled (a : ParameterArray) : Bool := a.expected == a.data.size

/-- The array of some extents and values; it is refused if they do not fit. -/
def ofValues (shape : List Nat) (data : Array Float32) : Except Fault ParameterArray :=
  let a : ParameterArray := ⟨shape, data⟩
  if a.isFilled then .ok a else .error (.parameter (.size shape a.expected data.size))

/-- The array in a file. -/
def toJson (a : ParameterArray) : Json :=
  .ofMembers [("shape", .ofNats a.shape), ("data", .array (a.data.toList.map Json.ofSample))]

/-- The array that a file holds. -/
def ofJson? (j : Json) : Option ParameterArray := do
  match ← j.record? .refused ["shape", "data"] with
  | [shape, data] =>
    let shape ← Json.required? (Json.list? Json.count?) shape
    let data ← Json.required? (Json.list? Json.sample?) data
    return ⟨shape, data.toArray⟩
  | _ => none

end ParameterArray

/-- Arrays of parameters by name. -/
abbrev Store := Keyed String ParameterArray

namespace Store

/-- The number of values in all arrays. -/
def scalars (store : Store) : Nat := total (store.entries.map fun e => e.2.data.size)

/-- The store in a file. -/
def toJson (store : Store) : Json := .ofMembers (store.entries.map fun e => (e.1, e.2.toJson))

/-- The text of the file of a store. -/
def text (store : Store) : String := (toJson store).compact

/-- The store that a file holds, its arrays unchecked. Of several arrays of a name the last one
stays. -/
def ofJson? (j : Json) : Option Store := do
  let members ← j.members?
  let entries ← members.mapM fun (name, value) =>
    (ParameterArray.ofJson? value).map (name, ·)
  return Keyed.ofList entries

/-- Every array must fill its extents. The first name with one that does not is reported. -/
def check (store : Store) : Except Fault Store :=
  match store.entries.find? fun e => !e.2.isFilled with
  | some (name, a) =>
    .error (.parameter (.storedSize name a.shape a.expected a.data.size))
  | none => .ok store

/-- The store that a text holds. -/
def ofText (text : String) : Except Fault Store :=
  match (Json.read? text).bind ofJson? with
  | some store => check store
  | none => .error (.unreadable .parameters)

end Store

end Midframe
