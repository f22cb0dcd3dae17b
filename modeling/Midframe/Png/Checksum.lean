/-!
# The cyclic redundancy check

Every chunk of a PNG file ends in a check of its type and its data: the rest of a division of their
bits by a fixed polynomial.
-/

namespace Midframe

namespace Png

/-- One step of a division of bits by the polynomial of the cyclic redundancy check. -/
def crcBit (state : UInt32) : UInt32 :=
  let shifted : UInt32 := state >>> 1
  if state % 2 == 1 then shifted ^^^ 0xedb88320 else shifted

/-- A cyclic redundancy check taken one byte further. -/
def crcByte (state : UInt32) (byte : UInt8) : UInt32 :=
  Nat.fold 8 (fun _ _ c => crcBit c) (state ^^^ byte.toUInt32)

/-- The cyclic redundancy check of a sequence of bytes. -/
def crc (bytes : ByteArray) : UInt32 := bytes.foldl crcByte 0xffffffff ^^^ 0xffffffff

end Png

end Midframe
