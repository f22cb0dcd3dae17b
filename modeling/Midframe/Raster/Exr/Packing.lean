import Midframe.Raster.Deflate
import Midframe.Raster.Exr.Head

/-!
# Packed blocks of EXR files

The samples of a block may be packed: in runs of equal bytes or with DEFLATE. In front of that,
bytes at even places are put before those at odd ones, and each is told by what it has more than the
one in front of it. Or the bytes of the samples of a row are sorted by their weight, and each sample
is told by what it has more than the one in front of it; fractions of four bytes lose the lowest
one.
-/

namespace Midframe

namespace Exr

/-- The bytes that runs stand for, up to `size` of them, behind those that were told before. A
number below 128 stands in front of a byte that is repeated once more than that; one from 128 on
stands in front of as many bytes as it lacks to 256. The fuel bounds the number of runs. -/
def tellRuns (bytes : ByteArray) (size : Nat) (out : ByteArray) (position : Nat) :
    Nat → Option ByteArray
  | 0 => none
  | fuel + 1 =>
    if out.size == size || bytes.size ≤ position then some out
    else
      let n := (bytes.data.getD position 0).toNat
      let start := position + 1
      if 128 ≤ n then
        let stop := start + (256 - n)
        if bytes.size < stop then none
        else tellRuns bytes size (out ++ bytes.extract start stop) stop fuel
      else match bytes.data[start]? with
        | none => none
        | some b => tellRuns bytes size (out ++ ⟨Array.replicate (n + 1) b⟩) (start + 1) fuel

/-- The bytes of which each but the first was told by what it has more than the one in front of it,
and 128 more. -/
def addUp (bytes : ByteArray) : ByteArray :=
  bytes.foldl (fun out b =>
    match out.data.back? with
    | none => out.push b
    | some before => out.push (before + b - 128)) .empty

/-- The bytes of which those at even places were put before those at odd ones. -/
def interleave (bytes : ByteArray) : ByteArray :=
  let half := (bytes.size + 1) / 2
  ⟨Array.ofFn fun i : Fin bytes.size => bytes.data.getD (i / 2 + i % 2 * half) 0⟩

/-! ## Shorter fractions -/

/-- The bytes of a shortened sample, and those that it lacks. -/
def SampleType.parts : SampleType → Nat × Nat
  | .count => (4, 0)
  | .half => (2, 0)
  | .single => (3, 1)

/-- The samples of a row and a channel, in bytes, the lowest first. Each is told by what it has more
than the one in front of it; its bytes are `width` apart, the highest first. -/
def lengthen (bytes : ByteArray) (type : SampleType) (width start : Nat) : ByteArray :=
  let (kept, lost) := type.parts
  let difference (i : Nat) : Nat := kept.fold (fun k _ n =>
    256 * n + (bytes.data.getD (start + k * width + i) 0).toNat) 0
  let (out, _) := width.fold (fun i _ (out, before) =>
    let sample := (before + difference i <<< (8 * lost)) % 1 <<< (8 * type.size)
    (type.size.fold (fun k _ out => ByteArray.push out (.ofNat (sample >>> (8 * k)))) out, sample))
    ((ByteArray.empty, 0) : ByteArray × Nat)
  out

/-- The samples of some rows, channel by channel, behind those of earlier ones. -/
def lengthenAll (bytes : ByteArray) (width : Nat) (out : ByteArray) (start : Nat) :
    List SampleType → Option ByteArray
  | [] => some out
  | type :: types =>
    let stop := start + width * type.parts.1
    if bytes.size < stop then none
    else lengthenAll bytes width (out ++ lengthen bytes type width start) stop types

/-! ## Blocks -/

/-- The samples of a block of some extents. What would take as much space packed is not packed. -/
def Part.unpack (p : Part) (bytes : ByteArray) (width height : Nat) : Option ByteArray := do
  let size := width * height * p.pixelBytes
  if bytes.size == size then return bytes
  else
    let out ← match p.packing with
      | .none | .unknown => none
      | .runs => do
        let told ← tellRuns bytes size .empty 0 (bytes.size + 1)
        pure (interleave (addUp told))
      | .deflate => do
        let told ← Deflate.inflate bytes
        pure (interleave (addUp told))
      | .shortened => do
        let told ← Deflate.inflate bytes
        let types := p.channels.toList.map Channel.type
        lengthenAll told width .empty 0 ((List.range height).flatMap fun _ => types)
    if out.size == size then return out else none

end Exr

end Midframe
