/-!
# Initial values

The weights of a convolution start from values that depend on nothing but their name and size, so a
network is the same wherever and whenever it is made. The name is hashed to a seed; draw `i` of the
seed mixes the state `seed + (i + 1) * γ`, and its top 24 bits become a number in `[-1, 1)` on a
grid that single precision represents exactly.
-/

namespace Midframe

/-- The hash of a sequence of bytes: each is xored in, then the state is multiplied by the prime. -/
def hashBytes (bytes : List UInt8) : UInt64 :=
  bytes.foldl (fun h b => (h ^^^ b.toUInt64) * 0x100000001b3) 0xcbf29ce484222325

/-- The seed of a name. -/
def seedOf (name : String) : UInt64 := hashBytes name.toUTF8.toList

namespace Draw

/-- The step between the states of neighbouring draws. It is odd, so the states of `2 ^ 64` draws
all differ. -/
def step : UInt64 := 0x9e3779b97f4a7c15

/-- The bits of a state spread over the whole word. -/
def mix (state : UInt64) : UInt64 :=
  let z := (state ^^^ (state >>> 30)) * 0xbf58476d1ce4e5b9
  let z := (z ^^^ (z >>> 27)) * 0x94d049bb133111eb
  z ^^^ (z >>> 31)

/-- The word of draw `i`. -/
def word (seed : UInt64) (i : Nat) : UInt64 := mix (seed + UInt64.ofNat (i + 1) * step)

/-- The number in `[-1, 1)` that the top 24 bits of a word select. -/
def signedUnit (z : UInt64) : Float32 :=
  let share : Float32 := (z >>> 40).toFloat32 / 16777216
  2 * share - 1

end Draw

/-- The values that the weights of a name start from: uniform draws within one over the square root
of `fanIn`, the number of terms that a sum gathers. -/
def uniformValues (name : String) (fanIn n : Nat) : Vector Float32 n :=
  let bound := 1 / (Float32.ofNat (max fanIn 1)).sqrt
  let seed := seedOf name
  Vector.ofFn fun i => Draw.signedUnit (Draw.word seed i) * bound

end Midframe
