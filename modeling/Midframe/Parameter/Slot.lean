import Midframe.Fault

/-!
# Parameters

A layer, a block, a pyramid and a network all own arrays of learned values. Each of them has a
traversal `visit`, which hands its arrays to a callback one after the other, always in the same
order, and puts back what the callback returns. Listing the parameters, reading them from a store
and writing them to one are traversals with suitable callbacks.
-/

namespace Midframe

/-- What is known of an array of parameters besides its values. -/
structure Slot where
  /-- The name, unique within its owner. -/
  name : String
  /-- The extents of the array. -/
  shape : List Nat
deriving DecidableEq, Repr

/-- A callback for the arrays of a traversal. It returns the values that the array holds from then
on. -/
abbrev Visit (m : Type → Type) := Slot → {n : Nat} → Vector Float32 n → m (Vector Float32 n)

namespace Visit

/-- Looks at every array and changes none: a state is carried from one to the next. -/
def look {σ : Type} (f : Slot → Array Float32 → σ → σ) : Visit (StateM σ) := fun slot _ values => do
  modify (f slot values.toArray)
  return values

/-- Changes arrays one after the other until the first fault, which is kept; from then on every
array stays as it is. -/
def untilFault (f : Slot → {n : Nat} → Vector Float32 n → Except Fault (Vector Float32 n)) :
    Visit (StateM (Option Fault)) := fun slot _ values => do
  match ← get with
  | some _ => return values
  | none => match f slot values with
    | .ok values => return values
    | .error e => set (some e); return values

end Visit

/-- A part of a name within its scope; the scope without a name adds nothing. -/
def inScope (scope name : String) : String := if scope.isEmpty then name else scope ++ "." ++ name

end Midframe
