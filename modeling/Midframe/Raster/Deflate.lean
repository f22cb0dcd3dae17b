/-!
# Compressed data

Several formats of image files compress their samples with DEFLATE. The data is a sequence of bits,
the lowest bit of each byte first, and consists of blocks: stored bytes, or symbols of a prefix code
that stand for bytes and for repetitions of what came before. The code of a block is either a fixed
one or is given at its head by the lengths of its words, themselves coded. A stream puts a head in
front of the blocks and a checksum behind them. What is written here is stored, not compressed.

Readers are functions of a position in bits. Every symbol takes a bit at least, so the number of
bits bounds all loops over symbols.
-/

namespace Midframe

namespace Deflate

/-- A number in four bytes, the highest first. -/
def bytes32 (n : Nat) : ByteArray :=
  ⟨#[.ofNat (n / 16777216), .ofNat (n / 65536), .ofNat (n / 256), .ofNat n]⟩

/-- The number of four bytes, the highest first. -/
def word32 (bytes : ByteArray) (start : Nat) : Nat :=
  let byte (i : Nat) : Nat := bytes.data.getD (start + i) 0 |>.toNat
  ((byte 0 * 256 + byte 1) * 256 + byte 2) * 256 + byte 3

/-- The modulus of the sums of Adler: the largest prime below `2 ^ 16`. -/
def adlerModulus : Nat := 65521

/-- The two sums of Adler of a sequence of bytes: one of the bytes, one of the first sums. -/
def adler (bytes : ByteArray) : UInt32 :=
  let (a, b) := bytes.foldl (fun (a, b) byte =>
    let a := (a + byte.toNat) % adlerModulus
    (a, (b + a) % adlerModulus)) (1, 0)
  UInt32.ofNat (b * 65536 + a)

/-! ## Writing -/

/-- The most bytes that a stored block holds. -/
def blockSize : Nat := 65535

/-- Stored blocks that hold the bytes from `start` on. -/
def storedBlocks (data : ByteArray) (start : Nat) (out : ByteArray) : Nat → ByteArray
  | 0 => out
  | fuel + 1 =>
    let stop := min data.size (start + blockSize)
    let length := stop - start
    let isLast := stop == data.size
    let low (n : Nat) : UInt8 := .ofNat n
    let head : ByteArray := ⟨#[if isLast then 1 else 0, low length, low (length / 256),
      low (blockSize - length), low ((blockSize - length) / 256)]⟩
    let out := out ++ head ++ data.extract start stop
    if isLast then out else storedBlocks data stop out fuel

/-- A compressed stream that stores its data. -/
def store (data : ByteArray) : ByteArray :=
  storedBlocks data 0 ⟨#[120, 1]⟩ (data.size / blockSize + 1) ++ bytes32 (adler data).toNat

/-! ## Bits -/

/-- A reader of bits: from a position to a result and the position behind it. -/
abbrev BitReader := StateT Nat Option

/-- The next bit. -/
def bit (bytes : ByteArray) : BitReader Nat := fun position =>
  if h : position / 8 < bytes.size then
    some ((bytes[position / 8].toNat >>> (position % 8)) % 2, position + 1)
  else none

/-- A number of `n` bits, the lowest first. -/
def bits (bytes : ByteArray) : Nat → BitReader Nat
  | 0 => return 0
  | n + 1 => do
    let low ← bit bytes
    let high ← bits bytes n
    return low + 2 * high

/-- A prefix code whose words of the same length are in the order of their symbols. -/
structure PrefixCode where
  /-- The number of words of every length. -/
  counts : Array Nat
  /-- The symbols, ordered by the lengths of their words. -/
  symbols : Array Nat

namespace PrefixCode

/-- The length of the longest word. -/
def maxLength : Nat := 15

/-- The code in which symbol `s` has a word of `lengths[s]` bits, and none if that is zero. -/
def ofLengths (lengths : List Nat) : PrefixCode :=
  let ofLength (n : Nat) : List Nat :=
    lengths.zipIdx.filterMap fun (length, symbol) => if length == n then some symbol else none
  let words := (List.range maxLength).map fun n => ofLength (n + 1)
  ⟨(words.map List.length).toArray, words.flatten.toArray⟩

/-- The next symbol. The word read so far is `word`; the words of its length start with `first`, and
their symbols at `index`. -/
def readFrom (code : PrefixCode) (bytes : ByteArray) (word first index : Nat) :
    List Nat → BitReader Nat
  | [] => fun _ => none
  | count :: counts => do
    let word := 2 * word + (← bit bytes)
    let first := 2 * first
    if word < first + count then
      match code.symbols[index + (word - first)]? with
      | some symbol => return symbol
      | none => fun _ => none
    else code.readFrom bytes word (first + count) (index + count) counts

/-- The next symbol. -/
def read (code : PrefixCode) (bytes : ByteArray) : BitReader Nat :=
  code.readFrom bytes 0 0 0 code.counts.toList

end PrefixCode

/-! ## Repetitions -/

/-- The lengths of repetitions by symbol: the least one, and the number of bits added to it. -/
def lengthTable : Array (Nat × Nat) :=
  #[(3, 0), (4, 0), (5, 0), (6, 0), (7, 0), (8, 0), (9, 0), (10, 0), (11, 1), (13, 1), (15, 1),
    (17, 1), (19, 2), (23, 2), (27, 2), (31, 2), (35, 3), (43, 3), (51, 3), (59, 3), (67, 4),
    (83, 4), (99, 4), (115, 4), (131, 5), (163, 5), (195, 5), (227, 5), (258, 0)]

/-- The distances of repetitions by symbol: the least one, and the number of bits added to it. -/
def distanceTable : Array (Nat × Nat) :=
  #[(1, 0), (2, 0), (3, 0), (4, 0), (5, 1), (7, 1), (9, 2), (13, 2), (17, 3), (25, 3), (33, 4),
    (49, 4), (65, 5), (97, 5), (129, 6), (193, 6), (257, 7), (385, 7), (513, 8), (769, 8),
    (1025, 9), (1537, 9), (2049, 10), (3073, 10), (4097, 11), (6145, 11), (8193, 12), (12289, 12),
    (16385, 13), (24577, 13)]

/-- A number from a table of least values and added bits. -/
def readExtended (bytes : ByteArray) (table : Array (Nat × Nat)) (symbol : Nat) : BitReader Nat :=
  match table[symbol]? with
  | some (least, added) => do return least + (← bits bytes added)
  | none => fun _ => none

/-- The bytes with as many repeated as asked for, from so far back. -/
def repeatBytes (distance : Nat) (out : ByteArray) : Nat → ByteArray
  | 0 => out
  | n + 1 => repeatBytes distance (out.push (out.data.getD (out.size - distance) 0)) n

/-! ## Blocks -/

/-- The symbol that ends a block. -/
def endOfBlock : Nat := 256

/-- The symbols of a block up to its end. -/
def readSymbols (bytes : ByteArray) (literals distances : PrefixCode) (out : ByteArray) :
    Nat → BitReader ByteArray
  | 0 => fun _ => none
  | fuel + 1 => do
    let symbol ← literals.read bytes
    if symbol < endOfBlock then
      readSymbols bytes literals distances (out.push (UInt8.ofNat symbol)) fuel
    else if symbol == endOfBlock then return out
    else
      let length ← readExtended bytes lengthTable (symbol - endOfBlock - 1)
      let distance ← readExtended bytes distanceTable (← distances.read bytes)
      if out.size < distance then fun _ => none
      else readSymbols bytes literals distances (repeatBytes distance out length) fuel

/-- The lengths of the words of the fixed code. -/
def fixedLengths : List Nat :=
  List.replicate 144 8 ++ List.replicate 112 9 ++ List.replicate 24 7 ++ List.replicate 8 8

/-- The fixed code of literals and lengths. -/
def fixedLiterals : PrefixCode := .ofLengths fixedLengths

/-- The fixed code of distances. -/
def fixedDistances : PrefixCode := .ofLengths (List.replicate 30 5)

/-- The order in which the lengths of the words for lengths are given. -/
def lengthOrder : List Nat := [16, 17, 18, 0, 8, 7, 9, 6, 10, 5, 11, 4, 12, 3, 13, 2, 14, 1, 15]

/-- The lengths of `wanted` words, the last of which were read into `lengths` in reverse. -/
def readLengths (bytes : ByteArray) (code : PrefixCode) (wanted : Nat) (lengths : List Nat) :
    Nat → BitReader (List Nat)
  | 0 => fun _ => none
  | fuel + 1 => do
    if wanted ≤ lengths.length then return (lengths.reverse.take wanted)
    else
      let symbol ← code.read bytes
      let again (value count : Nat) : BitReader (List Nat) :=
        readLengths bytes code wanted (List.replicate count value ++ lengths) fuel
      match symbol, lengths with
      | 16, [] => fun _ => none
      | 16, last :: _ => do again last (3 + (← bits bytes 2))
      | 17, _ => do again 0 (3 + (← bits bytes 3))
      | 18, _ => do again 0 (11 + (← bits bytes 7))
      | length, _ => again length 1

/-- The codes at the head of a block: of literals and lengths, and of distances. -/
def readCodes (bytes : ByteArray) : BitReader (PrefixCode × PrefixCode) := do
  let literals := 257 + (← bits bytes 5)
  let distances := 1 + (← bits bytes 5)
  let given := 4 + (← bits bytes 4)
  let lengths ← (lengthOrder.take given).mapM fun symbol => do
    return (symbol, ← bits bytes 3)
  let code := PrefixCode.ofLengths ((List.range 19).map fun s => (lengths.lookup s).getD 0)
  let lengths ← readLengths bytes code (literals + distances) [] (literals + distances + 1)
  return (.ofLengths (lengths.take literals), .ofLengths (lengths.drop literals))

/-- The bytes of a stored block, which starts at a whole byte. -/
def readStored (bytes : ByteArray) (out : ByteArray) : BitReader ByteArray := fun position =>
  let start := (position + 7) / 8
  let word (i : Nat) : Nat := bytes.data.getD i 0 |>.toNat
  let length := word start + 256 * word (start + 1)
  let inverse := word (start + 2) + 256 * word (start + 3)
  let behind := start + 4 + length
  if length + inverse != 65535 || bytes.size < behind then none
  else some (out ++ bytes.extract (start + 4) behind, 8 * behind)

/-- All blocks up to the last one. -/
def readBlocks (bytes : ByteArray) (out : ByteArray) : Nat → BitReader ByteArray
  | 0 => fun _ => none
  | fuel + 1 => do
    let last ← bit bytes
    let symbols := 8 * bytes.size + 1
    let out ← match ← bits bytes 2 with
      | 0 => readStored bytes out
      | 1 => readSymbols bytes fixedLiterals fixedDistances out symbols
      | 2 => do
        let (literals, distances) ← readCodes bytes
        readSymbols bytes literals distances out symbols
      | _ => fun _ => none
    if last == 1 then return out else readBlocks bytes out fuel

/-! ## Streams -/

/-- The data of a compressed stream: a head of two bytes, the blocks, and the sums of Adler. -/
def inflate (bytes : ByteArray) : Option ByteArray := do
  let head := word32 bytes 0 / 65536
  if bytes.size < 6 || head / 256 % 16 != 8 || head % 31 != 0 || head / 32 % 2 != 0 then none
  else
    let (out, position) ← readBlocks bytes .empty (8 * bytes.size + 1) 16
    let behind := (position + 7) / 8
    if behind + 4 ≤ bytes.size && word32 bytes behind == (adler out).toNat then some out else none

end Deflate

end Midframe
