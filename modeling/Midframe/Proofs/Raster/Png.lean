import Midframe.Proofs.Raster.Stored
import Midframe.Raster.Format

/-!
# PNG files

The PNG file of an image holds that image. Each chunk is read wherever it starts, and its check is
that of what was written. The rows are stored as they are, each behind a zero, so no filter changes
them; and a pixel is the three bytes at its column.
-/

namespace Midframe

namespace Png

open Deflate

/-! ## Pieces -/

/-- Pieces of bytes, one behind the other. -/
def joined (piece : Nat → ByteArray) : Nat → ByteArray
  | 0 => .empty
  | n + 1 => joined piece n ++ piece n

theorem fold_append (piece : Nat → ByteArray) (out : ByteArray) (n : Nat) :
    Nat.fold n (fun i _ out => out ++ piece i) out = out ++ joined piece n := by
  induction n with
  | zero => exact ByteArray.append_empty.symm
  | succ n ih => rw [Nat.fold_succ, ih, ByteArray.append_assoc, joined]

theorem size_joined {piece : Nat → ByteArray} {size : Nat} (h : ∀ i, (piece i).size = size)
    (n : Nat) : (joined piece n).size = n * size := by
  induction n with
  | zero => simp [joined]
  | succ n ih => rw [joined, ByteArray.size_append, ih, h, Nat.succ_mul]

/-- A piece stands behind those before it. -/
theorem joined_eq_append (piece : Nat → ByteArray) {i n : Nat} (h : i < n) :
    ∃ rest, joined piece n = joined piece i ++ (piece i ++ rest) := by
  induction n with
  | zero => omega
  | succ n ih =>
    rcases Nat.lt_succ_iff_lt_or_eq.mp h with hlt | rfl
    · obtain ⟨rest, hrest⟩ := ih hlt
      exact ⟨rest ++ piece n, by simp only [joined, hrest, ByteArray.append_assoc]⟩
    · exact ⟨.empty, by rw [joined, ByteArray.append_empty]⟩

/-- The bytes of a pixel. -/
def pixelBytes (p : Pixel) : ByteArray := ⟨#[p.red, p.green, p.blue]⟩

/-- The bytes of a row. -/
def rowBytes (image : Image) (y : Nat) : ByteArray :=
  joined (fun x => pixelBytes (image.get y x)) image.width

theorem size_rowBytes (image : Image) (y : Nat) : (rowBytes image y).size = image.width * 3 := by
  unfold rowBytes
  rw [size_joined fun x => show (pixelBytes (image.get y x)).size = 3 from rfl]

theorem rawRows_eq (image : Image) :
    rawRows image = joined (fun y => ⟨#[0]⟩ ++ rowBytes image y) image.height := by
  have hpush (p : Pixel) (out : ByteArray) :
      ((out.push p.red).push p.green).push p.blue = out ++ pixelBytes p := by
    refine ByteArray.ext ?_
    simp only [ByteArray.data_push, ByteArray.data_append, Array.push_eq_append,
      Array.append_assoc]
    rfl
  have hzero (out : ByteArray) : out.push 0 = out ++ ⟨#[0]⟩ := ByteArray.ext (by simp)
  simp only [rawRows, hpush, hzero, fold_append, ByteArray.append_assoc, ByteArray.empty_append]
  rfl

theorem size_line (image : Image) (y : Nat) :
    ((⟨#[0]⟩ : ByteArray) ++ rowBytes image y).size = 1 + image.width * 3 := by
  rw [ByteArray.size_append, size_rowBytes]
  rfl

theorem size_rawRows (image : Image) :
    (rawRows image).size = image.height * (1 + image.width * 3) := by
  rw [rawRows_eq, size_joined (size_line image)]

/-- Each row stands behind those above it and a zero. -/
theorem rawRows_eq_append (image : Image) {y : Nat} (h : y < image.height) :
    ∃ front rest : ByteArray, rawRows image = front ++ (⟨#[0]⟩ ++ (rowBytes image y ++ rest)) ∧
      front.size = y * (1 + image.width * 3) := by
  obtain ⟨rest, hrest⟩ := joined_eq_append (fun y => ⟨#[0]⟩ ++ rowBytes image y) h
  rw [← rawRows_eq, ByteArray.append_assoc] at hrest
  exact ⟨_, rest, hrest, size_joined (size_line image) y⟩

/-! ## Rows -/

/-- Without a filter, a row is taken as it is. -/
theorem unfilter_zero (step : Nat) (above row : ByteArray) : unfilter 0 step above row = row := by
  have hbyte (i : Nat) (hi : i < row.size) (a b c : Nat) :
      row[i] + UInt8.ofNat (prediction 0 a b c) = row[i] := UInt8.add_zero _
  have hfold {n : Nat} (h : n ≤ row.size) :
      Nat.fold n (fun i hi out => out.push (row.get i (Nat.lt_of_lt_of_le hi h))) .empty
        = row.extract 0 n := by
    induction n with
    | zero => simp
    | succ n ih =>
      rw [Nat.fold_succ, ih (Nat.le_of_succ_le h)]
      refine ByteArray.ext ?_
      rw [ByteArray.data_push, ByteArray.data_extract, ByteArray.data_extract]
      exact (Array.push_extract_getElem (by exact h)).trans (by rw [Nat.zero_min])
  unfold unfilter
  simp only [hbyte]
  exact (hfold (Nat.le_refl _)).trans ByteArray.extract_zero_size

/-- The rows of an image are read one after the other. -/
theorem readRows_rawRows (image : Image) {y count : Nat} (h : y + count ≤ image.height)
    (above : ByteArray) (rows : Array ByteArray) :
    readRows (rawRows image) (image.width * 3) 3 above rows (y * (1 + image.width * 3)) count
      = some (rows ++ ((List.range' y count).map (rowBytes image)).toArray,
          (y + count) * (1 + image.width * 3)) := by
  induction count generalizing y above rows with
  | zero => simp [readRows]
  | succ count ih =>
    obtain ⟨front, rest, hrest, hfront⟩ :=
      rawRows_eq_append image (show y < image.height by omega)
    have hnext : y * (1 + image.width * 3) + 1 + image.width * 3
        = (y + 1) * (1 + image.width * 3) := by
      rw [Nat.succ_mul, Nat.add_assoc]
    have hfilter : (rawRows image).data.getD (y * (1 + image.width * 3)) 255 = 0 := by
      rw [hrest, ← hfront, ← Nat.add_zero front.size, getD_append_add]
      exact getD_append_of_lt (show 0 < 1 by decide) _ _
    have hrow : (rawRows image).extract (y * (1 + image.width * 3) + 1)
        ((y + 1) * (1 + image.width * 3)) = rowBytes image y := by
      have hhead : (front ++ ⟨#[0]⟩).size = y * (1 + image.width * 3) + 1 := by
        rw [ByteArray.size_append, hfront]
        rfl
      rw [hrest, ← ByteArray.append_assoc]
      exact extract_middle hhead.symm (by rw [hhead, size_rowBytes, hnext]) rest
    have hroom : ¬ (rawRows image).size < (y + 1) * (1 + image.width * 3) := by
      rw [size_rawRows, Nat.not_lt]
      exact Nat.mul_le_mul_right _ (by omega)
    have hmore := ih (y := y + 1) (by omega) (rowBytes image y) (rows.push (rowBytes image y))
    rw [readRows]
    simp only [hfilter, hnext, hrow, hroom, UInt8.reduceToNat, unfilter_zero]
    rw [if_neg (by decide), hmore, List.range'_succ, List.map_cons, Nat.add_assoc y 1 count,
      Nat.add_comm 1 count]
    simp

/-! ## Chunks -/

/-- The fields of a chunk are found wherever it starts. -/
theorem chunk_fields (front back data : ByteArray) {type : String} (htype : type.utf8ByteSize = 4)
    (h : data.size < 2 ^ 32) :
    word32 (front ++ (chunk type data ++ back)) front.size = data.size ∧
      (front ++ (chunk type data ++ back)).extract (front.size + 4) (front.size + 8 + data.size)
        = type.toUTF8 ++ data ∧
      (front ++ (chunk type data ++ back)).extract (front.size + 8) (front.size + 8 + data.size)
        = data ∧
      word32 (front ++ (chunk type data ++ back)) (front.size + 8 + data.size)
        = (crc (type.toUTF8 ++ data)).toNat := by
  have hcheck : (crc (type.toUTF8 ++ data)).toNat < 2 ^ 32 := UInt32.toNat_lt _
  simp only [chunk]
  generalize (crc (type.toUTF8 ++ data)).toNat = check at hcheck
  refine ⟨?_, ?_, ?_, ?_⟩
  · rw [ByteArray.append_assoc, ByteArray.append_assoc]
    exact word32_bytes32 h rfl _
  · rw [ByteArray.append_assoc, ByteArray.append_assoc, ← ByteArray.append_assoc]
    exact extract_middle (by simp) (by simp; omega) _
  · rw [show front ++ (bytes32 data.size ++ (type.toUTF8 ++ data) ++ bytes32 check ++ back)
        = front ++ bytes32 data.size ++ type.toUTF8 ++ (data ++ (bytes32 check ++ back)) by
      simp only [ByteArray.append_assoc]]
    exact extract_middle (by simp; omega) (by simp; omega) _
  · rw [ByteArray.append_assoc, ← ByteArray.append_assoc]
    exact word32_bytes32 hcheck (by simp; omega) back

theorem size_chunk (data : ByteArray) {type : String} (htype : type.utf8ByteSize = 4) :
    (chunk type data).size = 12 + data.size := by
  simp only [chunk, ByteArray.size_append, size_bytes32, String.toUTF8_eq_toByteArray,
    String.size_toByteArray, htype]
  omega

theorem isType_toUTF8 (type other : String) : isType type.toUTF8 other = decide (type = other) := by
  have hbytes : type.toUTF8.data = other.toUTF8.data ↔ type = other :=
    ⟨fun h => String.toByteArray_inj.mp (ByteArray.ext h), fun h => h ▸ rfl⟩
  rw [isType, Bool.eq_iff_iff, beq_iff_eq, decide_eq_true_iff, hbytes]

/-- A chunk adds to what was read before, and the reader goes on behind it, unless it is the last
one. -/
theorem readChunks_chunk {file front back data : ByteArray} {type : String}
    (hfile : file = front ++ (chunk type data ++ back)) (htype : type.utf8ByteSize = 4)
    (h : data.size < 2 ^ 32) (parts : Parts) (fuel : Nat) :
    readChunks file parts front.size (fuel + 1)
      = if type = "IEND" then some parts
        else (parts.add type.toUTF8 data).bind fun parts =>
          readChunks file parts (front ++ chunk type data).size fuel := by
  obtain ⟨hlength, hchecked, hdata, hcheck⟩ := chunk_fields front back data htype h
  rw [← hfile] at hlength hchecked hdata hcheck
  have hend : front.size + 8 + data.size + 4 = (front ++ chunk type data).size := by
    rw [ByteArray.size_append, size_chunk data htype]
    omega
  have hroom : ¬ file.size < (front ++ chunk type data).size := by
    rw [hfile, ← ByteArray.append_assoc, ByteArray.size_append (b := back)]
    omega
  have hkind : (type.toUTF8 ++ data).extract 0 4 = type.toUTF8 :=
    ByteArray.extract_append_eq_left (by simp [htype])
  rw [readChunks]
  simp only [hlength, hchecked, hdata, hcheck, hend, hroom, hkind, bne_self_eq_false, decide_false,
    Bool.or_self, Bool.false_eq_true, if_false, isType_toUTF8, decide_eq_true_eq]
  rfl

/-- The data of the first chunk. -/
def headBytes (image : Image) : ByteArray :=
  bytes32 image.width ++ bytes32 image.height ++ ⟨#[8, 2, 0, 0, 0]⟩

/-- The head of the file of an image. -/
def headerOf (image : Image) : Header := ⟨image.width, image.height, 8, .rgb, false⟩

/-- The head of an image that is not too large. -/
theorem ofBytes?_headBytes {image : Image} (filled : image.isEmpty = false)
    (hwidth : image.width < 2 ^ 32) (hheight : image.height < 2 ^ 32) :
    Header.ofBytes? (headBytes image) = some (headerOf image) := by
  simp only [Image.isEmpty, Bool.or_eq_false_iff, beq_eq_false_iff_ne] at filled
  have hbyte (k : Nat) : (headBytes image).data.getD (8 + k) 255
      = (⟨#[8, 2, 0, 0, 0]⟩ : ByteArray).data.getD k 255 :=
    getD_append_add (bytes32 image.width ++ bytes32 image.height) _ k 255
  have hdepth : (headBytes image).data.getD 8 255 = 8 := hbyte 0
  have hcolours : (headBytes image).data.getD 9 255 = 2 := hbyte 1
  have hcompression : (headBytes image).data.getD 10 255 = 0 := hbyte 2
  have hfilter : (headBytes image).data.getD 11 255 = 0 := hbyte 3
  have hinterlaced : (headBytes image).data.getD 12 255 = 0 := hbyte 4
  have hcolumns : word32 (headBytes image) 0 = image.width := by
    rw [headBytes, ByteArray.append_assoc, ← ByteArray.empty_append (b := _ ++ _)]
    exact word32_bytes32 hwidth rfl _
  have hrows : word32 (headBytes image) 4 = image.height := by
    rw [headBytes, ByteArray.append_assoc]
    exact word32_bytes32 hheight rfl _
  have hsize : (headBytes image).size = 13 := rfl
  unfold Header.ofBytes?
  simp only [hcolumns, hrows, hsize, hdepth, hcolours, hcompression, hfilter, hinterlaced,
    UInt8.reduceToNat, ColourType.ofNat?, ColourType.depths, bind, Option.bind_some]
  simp [headerOf, Nat.pos_of_ne_zero filled.1, Nat.pos_of_ne_zero filled.2]

/-! ## Images -/

/-- A pixel is read from the three bytes at its column. -/
theorem pixelAt_rowBytes (image : Image) (palette : ByteArray) {x : Nat} (h : x < image.width)
    (y : Nat) :
    pixelAt (headerOf image) palette (rowBytes image y) x = image.get y x := by
  obtain ⟨rest, hrest⟩ := joined_eq_append (fun x => pixelBytes (image.get y x)) h
  have hsize := size_joined (fun x => show (pixelBytes (image.get y x)).size = 3 from rfl) x
  have hbyte {k : Nat} (hk : k < 3) :
      (rowBytes image y).data.getD (x * 3 + k) 0 = (pixelBytes (image.get y x)).data.getD k 0 := by
    rw [rowBytes, hrest, ← hsize, getD_append_add]
    exact getD_append_of_lt hk rest 0
  have hsample {k : Nat} (hk : k < 3) : toByte 8 (sampleAt 8 (rowBytes image y) (x * 3 + k))
      = (pixelBytes (image.get y x)).data.getD k 0 := by
    have hwhole : (x * 3 + k) * 8 / 8 = x * 3 + k := Nat.mul_div_cancel _ (by decide)
    have hpart : 8 - 8 - (x * 3 + k) * 8 % 8 = 0 := by omega
    have hlt := ((pixelBytes (image.get y x)).data.getD k 0).toNat_lt
    have hmask : 1 <<< 8 = 256 := rfl
    simp only [sampleAt, Nat.reduceBEq, Bool.false_eq_true, if_false, hwhole, hpart, hbyte hk,
      Nat.shiftRight_zero, toByte, hmask, Nat.reduceSub]
    rw [Nat.mod_eq_of_lt hlt, Nat.mul_div_cancel _ (by decide), UInt8.ofNat_toNat]
  simp only [pixelAt, headerOf, ColourType.samples, hsample (show 0 < 3 by decide),
    hsample (show 1 < 3 by decide), hsample (show 2 < 3 by decide)]
  rfl

/-- A pixel is read from its row. -/
theorem pixelOf_rows (image : Image) (palette : ByteArray) {x y : Nat} (hx : x < image.width)
    (hy : y < image.height) :
    pixelOf (headerOf image) palette
        [(⟨0, 0, 1, 1⟩, ((List.range image.height).map (rowBytes image)).toArray)] x y
      = image.get y x := by
  have hholds : Pass.holds ⟨0, 0, 1, 1⟩ x y = true := by
    simp [Pass.holds, Nat.mod_one]
  have hrow : ((List.range image.height).map (rowBytes image)).toArray.getD y .empty
      = rowBytes image y := by
    simp [Array.getD_eq_getD_getElem?, hy]
  simp only [pixelOf, List.find?_cons, hholds, Nat.sub_zero, Nat.div_one, hrow]
  exact pixelAt_rowBytes image palette hx y

/-- The rows of the only pass of an image. -/
theorem readPasses_rawRows {image : Image} (filled : image.isEmpty = false) :
    readPasses (headerOf image) (rawRows image) 0 (passes false)
      = some [(⟨0, 0, 1, 1⟩, ((List.range image.height).map (rowBytes image)).toArray)] := by
  simp only [Image.isEmpty, Bool.or_eq_false_iff, beq_eq_false_iff_ne] at filled
  have hsize : (image.width * 24 + 7) / 8 = image.width * 3 := by omega
  have hread := readRows_rawRows image (y := 0) (Nat.le_of_eq (Nat.zero_add _)) .empty #[]
  rw [Nat.zero_mul, Array.empty_append, ← List.range_eq_range'] at hread
  have hwidth : (image.width == 0) = false := beq_false_of_ne filled.1
  simp only [passes, headerOf, Bool.false_eq_true, if_false, readPasses, Header.pixelBits,
    ColourType.samples, Nat.add_sub_cancel, Nat.sub_zero, Nat.div_one, Nat.reduceMul, Nat.reduceDiv,
    hsize, hwidth, bind, Option.bind_some]
  rw [show max 1 3 = 3 from rfl, hread]
  rfl

/-- A file starts with its signature, and the first chunk follows. -/
theorem encode_eq (image : Image) : encode image
    = signature ++ (chunk "IHDR" (headBytes image)
      ++ (chunk "IDAT" (store (rawRows image)) ++ (chunk "IEND" .empty ++ .empty))) := by
  simp only [encode, headBytes, ByteArray.append_assoc, ByteArray.append_empty]

/-- The chunks of a file are all read. -/
theorem readChunks_encode {image : Image} (filled : image.isEmpty = false)
    (hwidth : image.width < 2 ^ 32) (hheight : image.height < 2 ^ 32)
    (fits : (store (rawRows image)).size < 2 ^ 32) :
    readChunks (encode image) {} 8 ((encode image).size / 12 + 1)
      = some { header := some (headerOf image), rows := store (rawRows image) } := by
  have hfirst := encode_eq image
  have hsecond := hfirst
  rw [← ByteArray.append_assoc] at hsecond
  have hthird := hsecond
  rw [← ByteArray.append_assoc] at hthird
  have hhead : (headBytes image).size = 13 := rfl
  have hadd : Parts.add {} "IHDR".toUTF8 (headBytes image)
      = some { header := some (headerOf image) } := by
    simp only [Parts.add, isType_toUTF8, ofBytes?_headBytes filled hwidth hheight]
    rfl
  have hrows (parts : Parts) (data : ByteArray) : parts.add "IDAT".toUTF8 data
      = some { parts with rows := parts.rows ++ data } := by
    simp only [Parts.add, isType_toUTF8]
    rfl
  obtain ⟨fuel, hfuel⟩ : ∃ n, (encode image).size / 12 + 1 = n + 3 := by
    refine ⟨(encode image).size / 12 - 2, ?_⟩
    have hsize : 24 ≤ (encode image).size := by
      have hrows : (chunk "IDAT" (store (rawRows image))).size = _ := size_chunk _ rfl
      have hlast : (chunk "IEND" .empty).size = _ := size_chunk _ rfl
      simp only [hfirst, ByteArray.size_append, hrows, hlast]
      omega
    omega
  have hstart : 8 = signature.size := rfl
  rw [hfuel, hstart, readChunks_chunk hfirst rfl (by omega), if_neg (by decide), hadd,
    Option.bind_some, readChunks_chunk hsecond rfl fits, if_neg (by decide), hrows,
    Option.bind_some, readChunks_chunk hthird rfl (by decide), if_pos rfl, ByteArray.empty_append]

/-- The file of an image holds that image, as long as its rows fit into one chunk. -/
theorem decode_encode {image : Image} (filled : image.isEmpty = false)
    (fits : (store (rawRows image)).size < 2 ^ 32) : decode (encode image) = some image := by
  obtain ⟨hleast, -⟩ := size_store (rawRows image)
  rw [size_rawRows] at hleast
  have hpositive := filled
  simp only [Image.isEmpty, Bool.or_eq_false_iff, beq_eq_false_iff_ne] at hpositive
  have hwidth : image.width < 2 ^ 32 := by
    have := Nat.le_mul_of_pos_left (1 + image.width * 3) (Nat.pos_of_ne_zero hpositive.2)
    omega
  have hheight : image.height < 2 ^ 32 := by
    have := Nat.le_mul_of_pos_right image.height (show 0 < 1 + image.width * 3 by omega)
    omega
  have hsignature : (encode image).extract 0 8 = signature := by
    rw [encode_eq]
    exact ByteArray.extract_append_eq_left rfl
  unfold decode
  rw [readChunks_encode filled hwidth hheight fits, hsignature]
  have hpasses := readPasses_rawRows filled
  simp only [headerOf] at hpasses ⊢
  simp only [bne_self_eq_false, Bool.false_eq_true, if_false, bind, Option.bind_some, inflate_store,
    hpasses]
  obtain ⟨width, height, pixels⟩ := image
  refine congrArg some (congrArg (Image.mk width height) (Vector.ext fun i hi => ?_))
  have hx : i % width < width := Nat.mod_lt _ (Nat.pos_of_ne_zero hpositive.1)
  have hy : i / width < height := Nat.div_lt_of_lt_mul (by rwa [Nat.mul_comm])
  rw [Vector.getElem_ofFn]
  exact (pixelOf_rows ⟨width, height, pixels⟩ .empty hx hy).trans (Image.get_div_mod _ hi)

end Png

/-- Images of up to two gigabytes are written without loss. -/
theorem ImageCodec.builtin_decode_encode {image : Image} (filled : image.isEmpty = false)
    (fits : image.height * (1 + image.width * 3) ≤ 2 ^ 31) :
    builtin.decode "png" (builtin.encode image) = some image := by
  obtain ⟨-, hmost⟩ := Deflate.size_store (Png.rawRows image)
  rw [Png.size_rawRows] at hmost
  have hformat : ImageFormat.ofExtension? "png" = some .png := by decide
  have hsize : (Deflate.store (Png.rawRows image)).size < 2 ^ 32 := by
    simp only [Deflate.blockSize] at hmost
    omega
  simp only [builtin, hformat, Option.bind_some, ImageFormat.decode]
  exact Png.decode_encode filled hsize

end Midframe
