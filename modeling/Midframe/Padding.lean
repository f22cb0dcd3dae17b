/-!
# Padding amounts

How many rows and columns are added on the four edges of every channel.
-/

namespace Midframe

/-- The rows and columns added on each edge. -/
structure Padding where
  /-- Rows above. -/
  top : Nat
  /-- Rows below. -/
  bottom : Nat
  /-- Columns to the left. -/
  left : Nat
  /-- Columns to the right. -/
  right : Nat
deriving DecidableEq, Repr

namespace Padding

/-- The same amount on all four edges. -/
def uniform (p : Nat) : Padding := ⟨p, p, p, p⟩

/-- Rows below and columns to the right only. -/
def trailing (bottom right : Nat) : Padding := ⟨0, bottom, 0, right⟩

/-- Edge by edge sum. -/
def add (p q : Padding) : Padding :=
  ⟨p.top + q.top, p.bottom + q.bottom, p.left + q.left, p.right + q.right⟩

instance : Add Padding := ⟨add⟩

/-- Nothing is added. -/
def isZero (p : Padding) : Bool := p.top == 0 && p.bottom == 0 && p.left == 0 && p.right == 0

/-- The amounts by name. -/
def text (p : Padding) : String :=
  s!"Padding \x7b top: {p.top}, bottom: {p.bottom}, left: {p.left}, right: {p.right} \x7d"

end Padding

end Midframe
