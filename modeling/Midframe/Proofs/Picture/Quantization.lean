import Mathlib
import Midframe.Picture
import Midframe.Proofs.Scalar.Rounding
import Midframe.Proofs.Scalar.Sample
import Midframe.Proofs.Tensor.Samples

/-!
# Quantization

A sample is brought to one of 256 shares of colour: it is held between 0 and 1, scaled and rounded,
halves away from zero. The whole part of the scaled sample is exact, and so is what is left of it,
so that the comparison with a half decides the rounding. Scaling a share down and up again moves it
by much less than a half, so that it is found again. An image that is read as a picture and written
again is therefore the same image, and a picture that was quantized once is not changed by
quantizing it again.
-/

namespace Midframe

open Float.Model

/-! ## Rounding -/

/-- What a sample has beyond its whole part is exact. -/
theorem represents_fract {x : Float32} {q : ℚ} (h : sampleValue x = some q) (low : 0 ≤ q) :
    Represents Format.binary32 (q - ⌊q⌋₊) := by
  rcases unpacked_of_nonneg h low with ⟨s, -, rfl⟩ | ⟨m, e, pos, hx, rfl⟩
  · rw [Nat.floor_zero, Nat.cast_zero, sub_zero]
    exact .zero
  have hcanonical := hasCanonicalParts_sample x _ m e pos hx
  rw [floor_value]
  rcases Int.le_total 0 e with he | he
  · -- There is nothing beyond the whole part.
    obtain ⟨k, rfl⟩ := Int.eq_ofNat_of_zero_le he
    have hzero : (-(k : Int)).toNat = 0 := by omega
    simp only [hzero, Int.toNat_natCast, Nat.pow_zero, Nat.div_one, Nat.cast_mul, Nat.cast_pow,
      Nat.cast_ofNat, zpow_natCast, sub_self]
    exact .zero
  · obtain ⟨k, hk⟩ := Int.eq_ofNat_of_zero_le (Int.neg_nonneg_of_nonpos he)
    obtain rfl : e = -(k : Int) := by omega
    have hzero : (-(k : Int)).toNat = 0 := by omega
    have hfract : (m : ℚ) * 2 ^ (-(k : Int)) - ((m / 2 ^ k : Nat) : ℚ)
        = ((m % 2 ^ k : Nat) : Int) * 2 ^ (-(k : Int)) := by
      have hsplit : (m : ℚ) = ((m % 2 ^ k : Nat) : ℚ) + 2 ^ k * ((m / 2 ^ k : Nat) : ℚ) := by
        exact_mod_cast (Nat.mod_add_div m (2 ^ k)).symm
      rw [zpow_neg, zpow_natCast, Int.cast_natCast]
      nth_rewrite 1 [hsplit]
      field_simp
      ring
    have hleast := hcanonical.least
    have hlt : m % 2 ^ k < 2 ^ 24 := (Nat.mod_le _ _).trans_lt hcanonical.lt_pow
    rw [hzero, Int.neg_neg, Int.toNat_natCast, Nat.pow_zero, Nat.mul_one, hfract]
    exact represents_sample (by omega) hleast (by omega)

/-- Samples are rounded to the nearest whole number, halves away from zero. -/
theorem roundSample_eq {x : Float32} {q : ℚ} (h : sampleValue x = some q) (low : 0 ≤ q)
    (high : q < 2 ^ 23) : roundSample x = ⌊q + 1 / 2⌋₊ := by
  have hwhole : Scalar.truncate x = ⌊q⌋₊ :=
    truncate_sample h low (high.trans (by norm_num))
  have hfloor : ⌊q⌋₊ < 2 ^ 23 := (Nat.floor_lt' (by decide)).mpr (by exact_mod_cast high)
  have hrest : sampleValue (x - Float32.ofNat ⌊q⌋₊) = some (q - ⌊q⌋₊) :=
    sampleValue_sub h (sampleValue_ofNat hfloor) (represents_fract h low)
  have hhalf : sampleValue Scalar.half = some (1 / 2) := by decide +kernel
  have hle : Scalar.le Scalar.half (x - Float32.ofNat ⌊q⌋₊) = decide (1 / 2 ≤ q - ⌊q⌋₊) :=
    le_sample hhalf hrest
  have hbelow : (⌊q⌋₊ : ℚ) ≤ q := Nat.floor_le low
  have habove : q < ⌊q⌋₊ + 1 := Nat.lt_floor_add_one q
  simp only [roundSample, hwhole]
  show (if Scalar.le Scalar.half (x - Float32.ofNat ⌊q⌋₊) = true then _ else _) = _
  rw [hle]
  refine ((Nat.floor_eq_iff (by linarith)).mpr ?_).symm
  split
  · next hge =>
    have := of_decide_eq_true hge
    push_cast
    constructor <;> linarith
  · next hlt =>
    have := not_le.mp fun hge => hlt (decide_eq_true hge)
    constructor <;> linarith

/-! ## Shares of colour -/

/-- What is not a number has no share. -/
theorem byteOfSample_of_isNaN {v : Float32} (h : v.isNaN = true) : byteOfSample v = 0 := by
  have hunpack : v.toModel.unpack = .notANumber := by
    have hnan : v.toModel.unpack.isNaN = true := h
    cases hv : v.toModel.unpack with
    | notANumber => rfl
    | infinity _ | zero _ | finite _ _ _ _ => rw [hv] at hnan; cases hnan
  have hbelow : Scalar.lt v Scalar.zero = false := by
    rw [lt_sample_eq, hunpack]
    rfl
  have habove : Scalar.lt Scalar.one v = false := by
    rw [lt_sample_eq, hunpack]
    rfl
  have hscaled : v * Scalar.ofNat 255 = ⟨Float32.Model.pack (UnpackedFloat.mul Format.binary32
      .notANumber (Float32.ofNat 255).toModel.unpack)⟩ := by
    rw [← hunpack]
    rfl
  simp only [byteOfSample, hbelow, habove, Bool.false_eq_true, ↓reduceIte, hscaled]
  decide +kernel

/-- What is below 0 has no share. -/
theorem byteOfSample_of_lt_zero {v : Float32} (h : Scalar.lt v Scalar.zero = true) :
    byteOfSample v = 0 := by
  simp only [byteOfSample, h, ↓reduceIte]
  decide +kernel

/-- What is above 1 has the whole share. -/
theorem byteOfSample_of_one_lt {v : Float32} (h : Scalar.lt Scalar.one v = true) :
    byteOfSample v = 255 := by
  have hone : (Scalar.one : Float32).toModel.unpack
      = .finite .positive (2 ^ 23) (-23) (by decide) := rfl
  have hzero : (Scalar.zero : Float32).toModel.unpack = .zero .positive := rfl
  have hnot : Scalar.lt v Scalar.zero = false := by
    rw [lt_sample_eq, hone] at h
    rw [lt_sample_eq, hzero]
    cases hv : v.toModel.unpack with
    | notANumber => rfl
    | infinity s => cases s <;> rw [hv] at h <;> first | rfl | cases h
    | zero s => rfl
    | finite s m e pos => cases s <;> rw [hv] at h <;> first | rfl | cases h
  simp only [byteOfSample, hnot, h, Bool.false_eq_true, ↓reduceIte]
  decide +kernel

theorem unpack_scale : (Scalar.ofNat 255 : Float32).toModel.unpack
    = .finite .positive 16711680 (-16) (by decide) := rfl

/-- A sample between 0 and 1 is scaled nearly exactly. -/
theorem exists_scaled {v : Float32} {p : ℚ} (h : sampleValue v = some p) (low : 0 ≤ p)
    (high : p ≤ 1) :
    ∃ q, sampleValue (v * Scalar.ofNat 255) = some q ∧ 0 ≤ q ∧ |q - p * 255| ≤ 1 / 2 ^ 15 := by
  have hmul : sampleValue (v * Scalar.ofNat 255) = packedValue Format.binary32
      (UnpackedFloat.mul Format.binary32 v.toModel.unpack
        (.finite .positive 16711680 (-16) (by decide))) := by
    rw [← unpack_scale]
    exact sampleValue_pack _
  rw [hmul]
  rcases unpacked_of_nonneg h low with ⟨s, hv, rfl⟩ | ⟨m, e, pos, hv, rfl⟩
  · rw [hv]
    exact ⟨0, packedValue_zero _ _, le_rfl, by norm_num⟩
  have hleast := (hasCanonicalParts_sample v _ m e pos hv).least
  rw [hv]
  have hexact : ((m * 16711680 : Nat) : ℚ) * 2 ^ (e + -16) = m * 2 ^ e * 255 := by
    rw [zpow_add₀ (by norm_num)]
    push_cast
    norm_num
    ring
  have hbound : ((m * 16711680 : Nat) : ℚ) * 2 ^ (e + -16) ≤ 2 ^ (8 : Int) := by
    rw [hexact]
    norm_num
    linarith
  -- The scale has all its bits, so that the product has no fewer.
  have hfull : 23 ≤ (m * 16711680).log2 := (Nat.le_log2 (by omega)).mpr (by omega)
  have hle : e + -16 ≤ Format.binary32.targetExponent (totalExponent (m * 16711680) (e + -16)) := by
    simp only [Format.targetExponent, totalExponent, Format.mantissaBits]
    omega
  obtain ⟨q, hq, hpos, herror⟩ := exists_packedValue_round .exact (Nat.mul_pos pos (by decide)) hle
    hbound (by decide) (by decide)
  rw [hexact] at herror
  exact ⟨q, hq, hpos, herror.trans_eq (by norm_num [Format.mantissaBits])⟩

/-- The share of colour that a sample is brought to. -/
structure HasShare (v : Float32) (b : UInt8) : Prop where
  /-- What is not a number counts as nothing, and so does what is below 0. -/
  nothing : v.isNaN = true ∨ Scalar.lt v Scalar.zero = true → b = 0
  /-- What is above 1 counts as the whole. -/
  whole : Scalar.lt Scalar.one v = true → b = 255
  /-- A sample in between is scaled, nearly exactly, and rounded, halves away from zero. -/
  between : ∀ p : ℚ, sampleValue v = some p → 0 ≤ p → p ≤ 1 →
    ∃ q, sampleValue (v * Scalar.ofNat 255) = some q ∧ 0 ≤ q ∧ |q - p * 255| ≤ 1 / 2 ^ 15 ∧
      b.toNat = ⌊q + 1 / 2⌋₊

/-- Samples are brought to their shares. -/
theorem hasShare_byteOfSample (v : Float32) : HasShare v (byteOfSample v) where
  nothing := fun h => h.elim byteOfSample_of_isNaN byteOfSample_of_lt_zero
  whole := byteOfSample_of_one_lt
  between := fun p hp low high => by
    have hzero : sampleValue Scalar.zero = some 0 := rfl
    have hone : sampleValue Scalar.one = some 1 := by decide +kernel
    have hbelow : Scalar.lt v Scalar.zero = false := by
      rw [lt_sample hp hzero, decide_eq_false_iff_not]
      exact not_lt.mpr low
    have habove : Scalar.lt Scalar.one v = false := by
      rw [lt_sample hone hp, decide_eq_false_iff_not]
      exact not_lt.mpr high
    obtain ⟨q, hq, hpos, herror⟩ := exists_scaled hp low high
    have hbound : q + 1 / 2 < 256 := by
      have := (abs_le.mp herror).2
      norm_num at this ⊢
      linarith
    have hround : roundSample (v * Scalar.ofNat 255) = ⌊q + 1 / 2⌋₊ :=
      roundSample_eq hq hpos (by norm_num; linarith)
    refine ⟨q, hq, hpos, herror, ?_⟩
    simp only [byteOfSample, hbelow, habove, Bool.false_eq_true, ↓reduceIte, hround]
    exact UInt8.toNat_ofNat_of_lt' ((Nat.floor_lt' (by decide)).mpr (by exact_mod_cast hbound))

/-- Shares are scaled down nearly exactly. -/
theorem exists_ratio {n : Nat} (pos : 0 < n) (le : n ≤ 255) :
    ∃ p, sampleValue (Scalar.ratio n 255) = some p ∧ 0 ≤ p ∧ |p - n / 255| ≤ 1 / 2 ^ 22 := by
  have hcount : sampleValue (Float32.ofNat n) = some (n : ℚ) :=
    sampleValue_ofNat (le.trans_lt (by decide))
  have hle : (n : ℚ) ≤ 255 := by exact_mod_cast le
  rcases unpacked_of_nonneg hcount (Nat.cast_nonneg n) with ⟨_, -, hzero⟩ | ⟨m, e, hm, hn, hvalue⟩
  · exact absurd (Nat.cast_eq_zero.mp hzero) pos.ne'
  have hdiv : sampleValue (Scalar.ratio n 255) = packedValue Format.binary32
      (UnpackedFloat.div Format.binary32 (.finite .positive m e hm)
        (.finite .positive 16711680 (-16) (by decide))) := by
    rw [← unpack_scale, ← hn]
    exact sampleValue_pack _
  have hquotient : (m : ℚ) * 2 ^ e / ((16711680 : Nat) * 2 ^ (-16 : Int)) = n / 255 := by
    rw [← hvalue]
    norm_num
  have hbound : (m : ℚ) * 2 ^ e / ((16711680 : Nat) * 2 ^ (-16 : Int)) ≤ 2 ^ (0 : Int) := by
    rw [hquotient, zpow_zero]
    linarith
  have hlog : 0 ≤ (m.log2 : Int) + e :=
    calc 0 = Int.log 2 (1 : ℚ) := (Int.log_one_right 2).symm
      _ ≤ Int.log 2 (n : ℚ) := Int.log_mono_right one_pos (by exact_mod_cast pos)
      _ = m.log2 + e := by rw [hvalue, log_value_eq hm]
  have hnormal : Format.binary32.minExponent + Format.binary32.mantissaBits
      ≤ totalExponent m e - totalExponent 16711680 (-16) := by
    have hleast : Format.binary32.minExponent + Format.binary32.mantissaBits = -125 := rfl
    have htotal : totalExponent 16711680 (-16) = 8 := rfl
    rw [hleast, htotal, totalExponent]
    omega
  obtain ⟨p, hp, hnonneg, herror⟩ :=
    exists_packedValue_div hm (by decide) hbound hnormal (by decide)
  rw [hquotient] at herror
  exact ⟨p, hdiv.trans hp, hnonneg, herror.trans_eq (by norm_num [Format.mantissaBits])⟩

/-- The sample of a share lies between 0 and 1. -/
theorem exists_sampleOfByte (b : UInt8) :
    ∃ p, sampleValue (sampleOfByte b) = some p ∧ 0 ≤ p ∧ p ≤ 1 ∧
      |p - b.toNat / 255| ≤ 1 / 2 ^ 22 := by
  have hb := b.toNat_lt
  rw [sampleOfByte]
  generalize b.toNat = n at hb
  rcases Nat.eq_zero_or_pos n with rfl | hpos
  · exact ⟨0, by decide +kernel, le_rfl, zero_le_one, by norm_num⟩
  rcases (Nat.le_of_lt_succ hb).eq_or_lt with rfl | hlt
  · exact ⟨1, by decide +kernel, zero_le_one, le_rfl, by norm_num⟩
  · obtain ⟨p, hp, hlow, herror⟩ := exists_ratio hpos hlt.le
    have hle : (n : ℚ) ≤ 254 := by exact_mod_cast Nat.le_of_lt_succ hlt
    refine ⟨p, hp, hlow, ?_, herror⟩
    have := (abs_le.mp herror).2
    norm_num at this
    linarith

/-- A share of colour is found again from its sample. -/
theorem byteOfSample_sampleOfByte (b : UInt8) : byteOfSample (sampleOfByte b) = b := by
  obtain ⟨p, hp, hlow, hhigh, herror⟩ := exists_sampleOfByte b
  obtain ⟨q, -, hpos, herror', hround⟩ := (hasShare_byteOfSample _).between p hp hlow hhigh
  refine UInt8.toNat_inj.mp (hround.trans ((Nat.floor_eq_iff (by linarith)).mpr ?_))
  rw [abs_le] at herror herror'
  norm_num at herror herror'
  constructor <;> linarith

/-! ## Images -/

/-- The pixels of an image that is made row by row. -/
theorem Image.get_ofFn {width height y x : Nat} (f : Nat → Nat → Pixel) (hy : y < height)
    (hx : x < width) :
    (Image.mk width height (Vector.ofFn fun n => f (n / width) (n % width))).get y x = f y x := by
  have hplace : y * width + x < height * width :=
    calc y * width + x < y * width + width := Nat.add_lt_add_left hx _
      _ = (y + 1) * width := (Nat.succ_mul _ _).symm
      _ ≤ height * width := Nat.mul_le_mul_right _ hy
  have hrow : (y * width + x) / width = y := by
    rw [Nat.add_comm, Nat.add_mul_div_right _ _ (Nat.zero_lt_of_lt hx), Nat.div_eq_of_lt hx,
      Nat.zero_add]
  have hcolumn : (y * width + x) % width = x := Nat.mul_add_mod_of_lt hx
  rw [get, ← Array.getElem_eq_getD (h := by simpa using hplace)]
  simp [hrow, hcolumn]

namespace Picture

theorem get_ofImage (i : Image) {c y x : Nat} (hc : c < 3) (hy : y < i.height)
    (hx : x < i.width) : (ofImage i).get c y x = sampleOfByte ((i.get y x).plane c) :=
  Tensor.get_ofFn (s := ⟨1, 3, i.height, i.width⟩)
    (fun _ c y x => sampleOfByte ((i.get y x).plane c)) Nat.one_pos hc hy hx

/-- An image that is read as a picture is written as the same image. -/
theorem toImage_ofImage {i : Image} (width : i.width ≤ maxImageExtent)
    (height : i.height ≤ maxImageExtent) : (ofImage i).toImage = .ok i := by
  have hplanes : ((ofImage i).planes != 3) = false := rfl
  have hwidth : ¬maxImageExtent < (ofImage i).width := Nat.not_lt.mpr width
  have hheight : ¬maxImageExtent < (ofImage i).height := Nat.not_lt.mpr height
  unfold toImage
  rw [hplanes, if_neg Bool.false_ne_true, if_neg hwidth, if_neg hheight]
  show Except.ok (Image.mk i.width i.height _) = .ok (Image.mk i.width i.height i.pixels)
  congr 2
  refine Vector.ext fun n hn => ?_
  have hn : n < i.height * i.width := hn
  have hy : n / i.width < i.height := Nat.div_lt_of_lt_mul (by rwa [Nat.mul_comm])
  have hx : n % i.width < i.width := Nat.mod_lt n (Nat.pos_of_lt_mul_left hn)
  have hbyte {plane : Nat} (hplane : plane < 3) :
      byteOfSample ((ofImage i).get plane (n / i.width) (n % i.width))
        = i.pixels[n].plane plane := by
    rw [get_ofImage i hplane hy hx, byteOfSample_sampleOfByte, i.get_div_mod hn]
  refine (Vector.getElem_ofFn _).trans ?_
  show Pixel.mk (byteOfSample ((ofImage i).get 2 (n / i.width) (n % i.width)))
    (byteOfSample ((ofImage i).get 1 (n / i.width) (n % i.width)))
    (byteOfSample ((ofImage i).get 0 (n / i.width) (n % i.width))) = i.pixels[n]
  rw [hbyte (by decide), hbyte (by decide), hbyte (by decide)]
  rfl

/-- An image has the extents of a picture, and the shares of all its samples. -/
structure IsImageOf (p : Picture) (i : Image) : Prop where
  /-- The picture has three planes. -/
  planes : p.planes = 3
  /-- There are as many columns, and not too many. -/
  width : i.width = p.width ∧ p.width ≤ maxImageExtent
  /-- There are as many rows, and not too many. -/
  height : i.height = p.height ∧ p.height ≤ maxImageExtent
  /-- The shares of colour, by row and column. -/
  shares : ∀ c < 3, ∀ y < p.height, ∀ x < p.width,
    HasShare (p.get c y x) ((i.get y x).plane c)

theorem toImage_eq_ok {p : Picture} {i : Image} (h : p.toImage = .ok i) : IsImageOf p i := by
  unfold toImage at h
  split at h
  · cases h
  · next hplanes =>
    split at h
    · cases h
    · next hwidth =>
      split at h
      · cases h
      · next hheight =>
        cases h
        refine ⟨by simpa using hplanes, ⟨rfl, not_lt.mp hwidth⟩, ⟨rfl, not_lt.mp hheight⟩,
          fun c hc y hy x hx => ?_⟩
        have hpixel := Image.get_ofFn (fun y x => ⟨byteOfSample (p.get 2 y x),
          byteOfSample (p.get 1 y x), byteOfSample (p.get 0 y x)⟩) hy hx
        refine (congrArg (fun pixel => HasShare _ (pixel.plane c)) hpixel).mpr ?_
        interval_cases c <;> exact hasShare_byteOfSample _

/-- A picture of three planes has an image, unless there are too many rows or columns. -/
theorem exists_image {p : Picture} (planes : p.planes = 3) (width : p.width ≤ maxImageExtent)
    (height : p.height ≤ maxImageExtent) : ∃ i, p.toImage = .ok i := by
  unfold toImage
  rw [if_neg (by simpa using planes), if_neg (Nat.not_lt.mpr width),
    if_neg (Nat.not_lt.mpr height)]
  exact ⟨_, rfl⟩

/-- Quantizing what was quantized changes nothing. -/
theorem toImage_idempotent (p : Picture) :
    (p.toImage >>= fun image => (ofImage image).toImage) = p.toImage := by
  cases h : p.toImage with
  | error f => rfl
  | ok i =>
    have himage := toImage_eq_ok h
    exact toImage_ofImage (himage.width.1 ▸ himage.width.2) (himage.height.1 ▸ himage.height.2)

/-- Every image is restored from its picture. A picture of three planes has an image, with the same
extents and with the share of every sample; that image is restored from its own picture, so that
quantizing it again changes nothing. -/
theorem quantization_restores :
    (∀ image : Image, image.width ≤ maxImageExtent → image.height ≤ maxImageExtent →
      (ofImage image).toImage = .ok image) ∧
    (∀ p : Picture, p.planes = 3 → p.width ≤ maxImageExtent → p.height ≤ maxImageExtent →
      ∃ image, p.toImage = .ok image ∧ IsImageOf p image ∧ (ofImage image).toImage = .ok image) ∧
    (∀ p : Picture, (p.toImage >>= fun image => (ofImage image).toImage) = p.toImage) := by
  refine ⟨fun _ => toImage_ofImage, fun p planes width height => ?_, toImage_idempotent⟩
  obtain ⟨i, hi⟩ := exists_image planes width height
  have himage := toImage_eq_ok hi
  exact ⟨i, hi, himage, toImage_ofImage (himage.width.1 ▸ width) (himage.height.1 ▸ height)⟩

/-- An image of two pixels, and a picture of one whose samples are not a number, 2 and a half. -/
theorem quantization_restores_samples :
    let image : Image := ⟨2, 1, #v[⟨255, 128, 1⟩, ⟨0, 7, 254⟩]⟩
    let p := ofFn 3 1 1 fun c _ _ =>
      Float32.ofBits (match c with | 0 => 0x7FC00000 | 1 => 0x40000000 | _ => 0x3F000000)
    (ofImage image).toImage = .ok image ∧
      ∃ quantized, p.toImage = .ok quantized ∧ quantized.get 0 0 = ⟨128, 255, 0⟩ ∧
        (ofImage quantized).toImage = .ok quantized := by
  intro image p
  refine ⟨quantization_restores.1 image (by decide) (by decide), ?_⟩
  obtain ⟨quantized, hquantized, himage, hrestored⟩ :=
    quantization_restores.2.1 p rfl (by decide) (by decide)
  have hblue := (himage.shares 0 (by decide) 0 Nat.one_pos 0 Nat.one_pos).nothing
    (.inl (by decide +kernel))
  have hgreen := (himage.shares 1 (by decide) 0 Nat.one_pos 0 Nat.one_pos).whole
    (by decide +kernel)
  obtain ⟨q, hq, -, -, hred⟩ := (himage.shares 2 (by decide) 0 Nat.one_pos 0 Nat.one_pos).between
    (1 / 2) (by decide +kernel) (by norm_num) (by norm_num)
  have hscaled : sampleValue (p.get 2 0 0 * Scalar.ofNat 255) = some (255 / 2) := by decide +kernel
  obtain rfl : q = 255 / 2 := Option.some.inj (hq.symm.trans hscaled)
  have hfloor : ⌊(255 / 2 + 1 / 2 : ℚ)⌋₊ = 128 := by norm_num
  have hred : (quantized.get 0 0).plane 2 = 128 := UInt8.toNat_inj.mp (hred.trans hfloor)
  refine ⟨quantized, hquantized, ?_, hrestored⟩
  have hpixel : quantized.get 0 0 = ⟨(quantized.get 0 0).plane 2, (quantized.get 0 0).plane 1,
    (quantized.get 0 0).plane 0⟩ := rfl
  rw [hpixel, hblue, hgreen, hred]

end Picture

end Midframe
