import Mathlib
import Midframe.Raster.Deflate

/-!
# Stored data

Data that is stored in a compressed stream is read back as it was. What stands in front of a field
of bytes and behind it does not matter to a reader of that field. So a stored block is read wherever
it starts, the blocks of a stream are read one after the other up to the one that is marked as the
last, and the sums at the end are those of the data.
-/

namespace Midframe

namespace Deflate

/-! ## Bytes behind others -/

theorem getD_append_add (front back : ByteArray) (i : Nat) (d : UInt8) :
    (front ++ back).data.getD (front.size + i) d = back.data.getD i d := by
  have hsize : front.size = front.data.size := rfl
  rw [ByteArray.data_append, Array.getD_eq_getD_getElem?, hsize,
    Array.getElem?_append_right (Nat.le_add_right _ _), Nat.add_sub_cancel_left,
    ← Array.getD_eq_getD_getElem?]

theorem getD_append_of_lt {front : ByteArray} {i : Nat} (h : i < front.size) (back : ByteArray)
    (d : UInt8) : (front ++ back).data.getD i d = front.data.getD i d := by
  have hlt : i < front.data.size := h
  rw [ByteArray.data_append, Array.getD_eq_getD_getElem?, Array.getElem?_append_left hlt,
    ← Array.getD_eq_getD_getElem?]

/-- The bytes between others. -/
theorem extract_middle {front middle : ByteArray} {start stop : Nat} (hstart : start = front.size)
    (hstop : stop = front.size + middle.size) (back : ByteArray) :
    (front ++ (middle ++ back)).extract start stop = middle := by
  rw [hstart, hstop, ← Nat.add_zero front.size, Nat.add_assoc, ByteArray.extract_append_size_add,
    Nat.zero_add, ByteArray.extract_append_eq_left rfl]

theorem word32_append (front back : ByteArray) (i : Nat) :
    word32 (front ++ back) (front.size + i) = word32 back i := by
  simp only [word32, Nat.add_assoc, getD_append_add]

@[simp] theorem size_bytes32 (n : Nat) : (bytes32 n).size = 4 := rfl

/-- A number below `2 ^ 32` is read back from its four bytes. -/
theorem word32_bytes32 {n : Nat} (h : n < 2 ^ 32) {front : ByteArray} {start : Nat}
    (hstart : start = front.size) (back : ByteArray) :
    word32 (front ++ (bytes32 n ++ back)) start = n := by
  have hbyte {i : Nat} (hi : i < 4) :
      (bytes32 n ++ back).data.getD i 0 = (bytes32 n).data.getD i 0 :=
    getD_append_of_lt (size_bytes32 n ▸ hi) back 0
  rw [hstart, ← Nat.add_zero front.size, word32_append]
  simp only [word32, Nat.zero_add, hbyte (show 0 < 4 by decide), hbyte (show 1 < 4 by decide),
    hbyte (show 2 < 4 by decide), hbyte (show 3 < 4 by decide)]
  show (((UInt8.ofNat (n / 16777216)).toNat * 256 + (UInt8.ofNat (n / 65536)).toNat) * 256
    + (UInt8.ofNat (n / 256)).toNat) * 256 + (UInt8.ofNat n).toNat = n
  simp only [UInt8.toNat_ofNat']
  omega

/-- The bits of the byte that a position points at. -/
theorem bit_append (front : ByteArray) {back : ByteArray} {k : Nat} (hk : k < 8)
    (ne : 0 < back.size) :
    bit (front ++ back) (8 * front.size + k)
      = some ((back.data.getD 0 0).toNat >>> k % 2, 8 * front.size + (k + 1)) := by
  have hindex : (8 * front.size + k) / 8 = front.size := by omega
  have hoffset : (8 * front.size + k) % 8 = k := by omega
  have hlt : front.size < (front ++ back).size := by
    rw [ByteArray.size_append]
    omega
  have hbyte : (front ++ back).get front.size hlt = back.data.getD 0 0 := by
    rw [← getD_append_add front back 0 0]
    exact (dif_pos hlt).symm
  simp only [bit, hindex, hoffset, dif_pos hlt]
  show some (((front ++ back).get front.size hlt).toNat >>> k % 2, _) = _
  rw [hbyte]
  rfl

/-! ## Blocks -/

/-- The head of a stored block: whether it is the last one, and the number of its bytes, once as it
is and once inverted. -/
def storedHead (last : Bool) (length : Nat) : ByteArray :=
  ⟨#[if last then 1 else 0, .ofNat length, .ofNat (length / 256), .ofNat (blockSize - length),
    .ofNat ((blockSize - length) / 256)]⟩

@[simp] theorem size_storedHead (last : Bool) (length : Nat) : (storedHead last length).size = 5 :=
  rfl

/-- A number of two bytes is told by them. -/
theorem toNat_low_high {n : Nat} (h : n ≤ blockSize) :
    (UInt8.ofNat n).toNat + 256 * (UInt8.ofNat (n / 256)).toNat = n := by
  simp only [UInt8.toNat_ofNat', blockSize] at h ⊢
  omega

/-- A stored block is read from the bits behind its mark. -/
theorem readStored_block (front : ByteArray) {chunk : ByteArray} (h : chunk.size ≤ blockSize)
    (last : Bool) (back out : ByteArray) :
    readStored (front ++ (storedHead last chunk.size ++ (chunk ++ back))) out (8 * front.size + 3)
      = some (out ++ chunk, 8 * (front ++ (storedHead last chunk.size ++ chunk)).size) := by
  have hstart : (8 * front.size + 3 + 7) / 8 = front.size + 1 := by omega
  have hbyte {i : Nat} (hi : i < 5) :
      (front ++ (storedHead last chunk.size ++ (chunk ++ back))).data.getD (front.size + i) 0
        = (storedHead last chunk.size).data.getD i 0 := by
    rw [getD_append_add, getD_append_of_lt (size_storedHead _ _ ▸ hi)]
  have hlength : ((storedHead last chunk.size).data.getD 1 0).toNat
      + 256 * ((storedHead last chunk.size).data.getD 2 0).toNat = chunk.size :=
    toNat_low_high h
  have hinverse : ((storedHead last chunk.size).data.getD 3 0).toNat
      + 256 * ((storedHead last chunk.size).data.getD 4 0).toNat = blockSize - chunk.size :=
    toNat_low_high (Nat.sub_le _ _)
  have hchunk : (front ++ (storedHead last chunk.size ++ (chunk ++ back))).extract
      (front.size + (1 + 4)) (front.size + (1 + (4 + chunk.size))) = chunk := by
    rw [← ByteArray.append_assoc]
    refine extract_middle ?_ ?_ back <;> rw [ByteArray.size_append, size_storedHead]
    omega
  unfold readStored
  simp only [hstart, Nat.add_assoc, hbyte (show 1 < 5 by decide), hbyte (show 2 < 5 by decide),
    hbyte (show 3 < 5 by decide), hbyte (show 4 < 5 by decide), hlength, hinverse, hchunk]
  have hsum : chunk.size + (blockSize - chunk.size) = 65535 := by
    simp only [blockSize] at h ⊢
    omega
  have hroom : ¬ (front ++ (storedHead last chunk.size ++ (chunk ++ back))).size
      < front.size + (1 + (4 + chunk.size)) := by
    simp only [ByteArray.size_append, size_storedHead]
    omega
  rw [hsum, if_neg (by simp only [bne_self_eq_false, hroom, decide_false, Bool.or_self]; decide)]
  congr 2
  simp only [ByteArray.size_append, size_storedHead]
  omega

/-- A block is read wherever it starts, and the reader goes on behind it unless it is the last. -/
theorem readBlocks_block (front chunk : ByteArray) (h : chunk.size ≤ blockSize) (last : Bool)
    (back out : ByteArray) (fuel : Nat) :
    readBlocks (front ++ (storedHead last chunk.size ++ (chunk ++ back))) out (fuel + 1)
        (8 * front.size)
      = if last then some (out ++ chunk, 8 * (front ++ (storedHead last chunk.size ++ chunk)).size)
        else readBlocks (front ++ (storedHead last chunk.size ++ (chunk ++ back))) (out ++ chunk)
          fuel (8 * (front ++ (storedHead last chunk.size ++ chunk)).size) := by
  have hbit {k : Nat} (hk : k < 3) :
      bit (front ++ (storedHead last chunk.size ++ (chunk ++ back))) (8 * front.size + k)
        = some (if last && k == 0 then 1 else 0, 8 * front.size + (k + 1)) := by
    rw [bit_append front (by omega) (by simp), getD_append_of_lt (by simp)]
    have hmark : (storedHead last chunk.size).data.getD 0 0 = if last then 1 else 0 := rfl
    rw [hmark]
    interval_cases k <;> cases last <;> simp
  have hbits : bits (front ++ (storedHead last chunk.size ++ (chunk ++ back))) 2
      (8 * front.size + 1) = some (0, 8 * front.size + 3) := by
    simp only [bits, bind, StateT.bind, pure, StateT.pure, Option.bind_some, Nat.reduceAdd,
      hbit (show 1 < 3 by decide), hbit (show 2 < 3 by decide)]
    simp
  have hmark := hbit (show 0 < 3 by decide)
  rw [Nat.add_zero] at hmark
  rw [readBlocks]
  simp only [bind, StateT.bind, hmark, hbits, Option.bind_some, readStored_block front h]
  cases last with
  | false => rfl
  | true => rfl

/-- Blocks are written one behind the other. -/
theorem storedBlocks_succ (data : ByteArray) (start : Nat) (out : ByteArray) (fuel : Nat) :
    storedBlocks data start out (fuel + 1)
      = if min data.size (start + blockSize) == data.size then
          out ++ (storedHead true (data.size - start) ++ data.extract start data.size)
        else storedBlocks data (start + blockSize)
          (out ++ (storedHead false blockSize ++ data.extract start (start + blockSize))) fuel := by
  rw [storedBlocks]
  by_cases hlast : min data.size (start + blockSize) = data.size
  · rw [hlast, ByteArray.append_assoc, storedHead]
    simp only [beq_self_eq_true, if_true]
  · have hmore : min data.size (start + blockSize) = start + blockSize := by omega
    have hne : (start + blockSize == data.size) = false := by
      rw [← hmore, beq_eq_false_iff_ne]
      exact hlast
    rw [hmore, ByteArray.append_assoc, storedHead, Nat.add_sub_cancel_left]
    simp only [hne, Bool.false_eq_true, if_false]
    rfl

/-- What is written stands behind what was there. It is longer than the data by five bytes for each
block, and no shorter if there are blocks enough. -/
theorem storedBlocks_eq_append (data : ByteArray) (start : Nat) (out : ByteArray) (fuel : Nat) :
    ∃ rest, storedBlocks data start out fuel = out ++ rest ∧
      rest.size ≤ data.size - start + 5 * fuel ∧
      (data.size < start + blockSize * fuel → data.size - start ≤ rest.size) := by
  induction fuel generalizing start out with
  | zero => exact ⟨.empty, by simp [storedBlocks], by simp, by simp; omega⟩
  | succ fuel ih =>
    rw [storedBlocks_succ]
    split
    · refine ⟨_, rfl, ?_, fun _ => ?_⟩ <;>
        simp only [ByteArray.size_append, size_storedHead, ByteArray.size_extract] <;> omega
    · next hlast =>
      rw [beq_iff_eq] at hlast
      obtain ⟨rest, hrest, hmost, hleast⟩ := ih (start + blockSize)
        (out ++ (storedHead false blockSize ++ data.extract start (start + blockSize)))
      refine ⟨_, hrest.trans ByteArray.append_assoc, ?_, fun enough => ?_⟩
      · simp only [ByteArray.size_append, size_storedHead, ByteArray.size_extract]
        omega
      · have hrest := hleast (by rw [Nat.mul_succ] at enough; omega)
        simp only [ByteArray.size_append, size_storedHead, ByteArray.size_extract]
        omega

/-- The blocks of some data are read one after the other. What was read before the next block is the
data up to where that block starts. -/
theorem readBlocks_storedBlocks {data : ByteArray} {start written : Nat} (back : ByteArray)
    (hstart : start ≤ data.size) (enough : data.size < start + blockSize * written)
    (front : ByteArray) {fuel : Nat} (h : written ≤ fuel) :
    readBlocks (storedBlocks data start front written ++ back) (data.extract 0 start) fuel
        (8 * front.size)
      = some (data, 8 * (storedBlocks data start front written).size) := by
  induction written generalizing start front fuel with
  | zero => omega
  | succ written ih =>
    obtain ⟨fuel, rfl⟩ : ∃ n, fuel = n + 1 := ⟨fuel - 1, by omega⟩
    rw [storedBlocks_succ]
    split
    · next hlast =>
      rw [beq_iff_eq] at hlast
      have hsize : (data.extract start data.size).size = data.size - start := by simp
      have hall : data.extract 0 start ++ data.extract start data.size = data := by
        rw [ByteArray.extract_append_extract]
        simp [hstart]
      have hread := readBlocks_block front (data.extract start data.size) (by omega) true back
        (data.extract 0 start) fuel
      rw [hsize, hall, if_pos rfl] at hread
      rw [ByteArray.append_assoc, ByteArray.append_assoc]
      exact hread
    · next hlast =>
      rw [beq_iff_eq] at hlast
      have hstop : start + blockSize ≤ data.size := by omega
      have hsize : (data.extract start (start + blockSize)).size = blockSize := by
        rw [ByteArray.size_extract]
        omega
      have hjoin : data.extract 0 start ++ data.extract start (start + blockSize)
          = data.extract 0 (start + blockSize) := by
        rw [ByteArray.extract_append_extract]
        simp
      obtain ⟨rest, hrest, -⟩ := storedBlocks_eq_append data (start + blockSize)
        (front ++ (storedHead false blockSize ++ data.extract start (start + blockSize))) written
      have hread := readBlocks_block front (data.extract start (start + blockSize))
        (Nat.le_of_eq hsize) false (rest ++ back) (data.extract 0 start) fuel
      rw [hsize, hjoin, if_neg Bool.false_ne_true] at hread
      have hmore := ih hstop (by rw [Nat.mul_succ] at enough; omega)
        (front ++ (storedHead false blockSize ++ data.extract start (start + blockSize)))
        (Nat.le_of_succ_le_succ h)
      rw [hrest] at hmore ⊢
      simp only [ByteArray.append_assoc] at hread hmore ⊢
      exact hread.trans hmore

/-! ## Streams -/

/-- The blocks of a stream stand between its head and the sums of Adler, and are read from there. -/
theorem store_eq (data : ByteArray) : ∃ blocks : ByteArray,
    store data = ⟨#[120, 1]⟩ ++ (blocks ++ bytes32 (adler data).toNat) ∧
      data.size ≤ blocks.size ∧
      blocks.size ≤ data.size + 5 * (data.size / blockSize + 1) ∧
      ∀ fuel, data.size / blockSize < fuel →
        readBlocks (store data) .empty fuel 16 = some (data, 8 * (2 + blocks.size)) := by
  have enough : data.size < 0 + blockSize * (data.size / blockSize + 1) := by
    have := Nat.div_add_mod data.size blockSize
    have := Nat.mod_lt data.size (show 0 < blockSize by decide)
    rw [Nat.mul_succ]
    omega
  obtain ⟨rest, hrest, hmost, hleast⟩ :=
    storedBlocks_eq_append data 0 ⟨#[120, 1]⟩ (data.size / blockSize + 1)
  refine ⟨rest, ?_, by simpa using hleast enough, by simpa using hmost, fun fuel h => ?_⟩
  · rw [store, hrest, ByteArray.append_assoc]
  · have hread := readBlocks_storedBlocks (bytes32 (adler data).toNat) (Nat.zero_le _) enough
      ⟨#[120, 1]⟩ h
    rw [hrest, ByteArray.size_append, ← hrest, show data.extract 0 0 = .empty by simp] at hread
    exact hread

/-- A stream takes the bytes of its data, at most five for each block, and six around them. -/
theorem size_store (data : ByteArray) : data.size + 6 ≤ (store data).size ∧
    (store data).size ≤ data.size + 5 * (data.size / blockSize + 1) + 6 := by
  obtain ⟨blocks, hstore, hleast, hmost, -⟩ := store_eq data
  have hhead : (⟨#[120, 1]⟩ : ByteArray).size = 2 := rfl
  simp only [hstore, ByteArray.size_append, hhead, size_bytes32]
  omega

/-- Data that was stored in a stream is read back. -/
theorem inflate_store (data : ByteArray) : inflate (store data) = some data := by
  obtain ⟨blocks, hstore, hleast, -, hread⟩ := store_eq data
  have hhead : (⟨#[120, 1]⟩ : ByteArray).size = 2 := rfl
  have hsize : (store data).size = 2 + blocks.size + 4 := by
    simp only [hstore, ByteArray.size_append, hhead, size_bytes32]
    omega
  -- Only the first two of the four bytes matter.
  have hword : word32 (store data) 0 / 65536 = 30721 := by
    have hfirst : (store data).data.getD 0 0 = 120 := by
      rw [hstore, getD_append_of_lt (by decide)]
      rfl
    have hsecond : (store data).data.getD 1 0 = 1 := by
      rw [hstore, getD_append_of_lt (by decide)]
      rfl
    simp only [word32, Nat.zero_add, hfirst, hsecond, UInt8.reduceToNat]
    have hthird := ((store data).data.getD 2 0).toNat_lt
    have hfourth := ((store data).data.getD 3 0).toNat_lt
    omega
  have hbehind : word32 (store data) (2 + blocks.size) = (adler data).toNat := by
    rw [hstore, ← ByteArray.append_assoc, ← ByteArray.append_empty (b := bytes32 _)]
    exact word32_bytes32 (UInt32.toNat_lt _) (by rw [ByteArray.size_append, hhead]) .empty
  have hblocks := hread (8 * (store data).size + 1) (by
    have := Nat.div_le_self data.size blockSize
    omega)
  have hend : (8 * (2 + blocks.size) + 7) / 8 = 2 + blocks.size := by omega
  have hlong : ¬ (store data).size < 6 := by omega
  unfold inflate
  simp only [hword, hlong, hblocks, bind, Option.bind_some, hend, hbehind]
  rw [hsize]
  simp

end Deflate

end Midframe
