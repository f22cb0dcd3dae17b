import Midframe.Raster.Deflate
import Midframe.Raster.Lzw

/-!
# Packed data of TIFF files

The samples of a TIFF file may be packed: in runs of equal bytes, in growing codes, or with DEFLATE.
What is asked for is the first part of the data; what follows it does not matter.
-/

namespace Midframe

namespace Tiff

/-- How samples are packed. -/
inductive Packing
  /-- Not at all. -/
  | none
  /-- In growing codes. -/
  | codes
  /-- With DEFLATE. -/
  | deflate
  /-- In runs of equal bytes. -/
  | runs
deriving DecidableEq, Repr

namespace Packing

/-- The packing of a number. -/
def ofNat? : Nat → Option Packing
  | 1 => some .none
  | 5 => some .codes
  | 8 | 32946 => some .deflate
  | 32773 => some .runs
  | _ => Option.none

/-- The first `size` bytes that runs stand for, behind those that were told before. A number below
128 stands in front of as many bytes and one, one above 128 in front of a byte that is repeated. The
fuel bounds the number of runs. -/
def tellRuns (bytes : ByteArray) (size : Nat) (out : ByteArray) (position : Nat) :
    Nat → Option ByteArray
  | 0 => Option.none
  | fuel + 1 =>
    if size ≤ out.size then some (out.extract 0 size)
    else match bytes.data[position]? with
      | Option.none => Option.none
      | some head =>
        let n := head.toNat
        let start := position + 1
        if n < 128 then
          let more := bytes.extract start (start + n + 1)
          if more.size == 0 then Option.none
          else tellRuns bytes size (out ++ more) (start + n + 1) fuel
        else if n == 128 then tellRuns bytes size out start fuel
        else match bytes.data[start]? with
          | Option.none => Option.none
          | some b =>
            tellRuns bytes size (out ++ ⟨Array.replicate (257 - n) b⟩) (start + 1) fuel

/-- The first `size` bytes of the data that starts at a place and takes `length` bytes. The end of
the data is looked for where it needs one. -/
def unpack (p : Packing) (bytes : ByteArray) (start length size : Nat) : Option ByteArray :=
  let rest := bytes.extract start bytes.size
  let part := bytes.extract start (start + length)
  match p with
  | .none => if size ≤ rest.size then some (rest.extract 0 size) else Option.none
  | .codes => Lzw.decode ⟨8, true⟩ false part size
  | .runs => tellRuns part size .empty 0 (part.size + 1)
  | .deflate =>
    match Deflate.inflate rest with
    | some data => if size ≤ data.size then some (data.extract 0 size) else Option.none
    | Option.none => Option.none

end Packing

end Tiff

end Midframe
