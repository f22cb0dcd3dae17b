import Mathlib
import Midframe.Proofs.Scalar.Exact
import Midframe.Tensor.Resampling

/-!
# Double precision numbers that are exact

Scales and strides are powers of two, and extents are counts that double precision numbers hold
exactly. This module follows such numbers through packing, multiplication and truncation: a product
with a power of two only moves the exponent, and the whole part of a doubled count is the doubled
count. A scale that leaves at least one sample is a positive number.
-/

namespace Midframe

open Float.Model Float.Model.UnpackedFloat

/-- `x` is `mantissa * 2 ^ exponent`, written with the 53 bits of a normal number. -/
structure IsDyadic (x : Float) (mantissa : Nat) (exponent : Int) : Prop where
  /-- The leading bit is set. -/
  low : 2 ^ 52 ≤ mantissa
  /-- There are no more than 53 bits. -/
  high : mantissa < 2 ^ 53
  /-- The exponent is no smaller than that of a normal number. -/
  least : -1074 ≤ exponent
  /-- The number is not too large. -/
  greatest : exponent ≤ 971
  /-- The parts of the number. -/
  unpack : x.toModel.unpack = .finite .positive mantissa exponent (by omega)

/-! ## Packing -/

theorem log2_eq_of_normal {m : Nat} (low : 2 ^ 52 ≤ m) (high : m < 2 ^ 53) : m.log2 = 52 :=
  (Nat.log2_eq_iff (by omega)).mpr ⟨low, high⟩

/-- The parts of a normal number are canonical. -/
theorem isCanonical_of_normal {m : Nat} {e : Int} (low : 2 ^ 52 ≤ m) (high : m < 2 ^ 53)
    (least : -1074 ≤ e) : IsCanonical Format.binary64 m e := by
  refine ⟨by omega, ?_⟩
  simp only [Format.targetExponent, totalExponent, log2_eq_of_normal low high, Format.mantissaBits,
    Format.minExponent]
  omega

/-- What is canonical survives packing, unless its exponent is too large. -/
theorem unpack_pack_binary64 {s : Sign} {m : Nat} {e : Int} (h : IsCanonical Format.binary64 m e)
    (greatest : e ≤ 971) :
    (Float.Model.pack (.finite s m e h.pos)).unpack = .finite s m e h.pos := by
  have room : HasRoom Format.binary64 e := by
    simp only [HasRoom, Format.exponentBias]
    omega
  simp only [Float.Model.unpack, Float.Model.pack, UInt64.toBitVec_ofBitVec,
    unpack_pack_canonical s h room]

/-! ## Multiplication -/

/-- A product with a power of two moves the exponent. -/
theorem IsDyadic.mul {x y : Float} {m : Nat} {e j : Int} (hx : IsDyadic x m e)
    (hy : IsDyadic y (2 ^ 52) (j - 52)) (least : -1074 ≤ e + j) (greatest : e + j ≤ 971) :
    IsDyadic (x * y) m (e + j) := by
  refine ⟨hx.low, hx.high, least, greatest, ?_⟩
  show (Float.Model.pack (UnpackedFloat.mul Format.binary64 x.toModel.unpack
    y.toModel.unpack)).unpack = _
  have hcanonical := isCanonical_of_normal hx.low hx.high least
  have hexp : e + (j - 52) + ((52 : Nat) : Int) = e + j := by omega
  have hround := roundWithAccuracy_canonical .positive (hexp.symm ▸ hcanonical)
  rw [hx.unpack, hy.unpack]
  simp only [UnpackedFloat.mul]
  rw [show (Sign.positive * Sign.positive : Sign) = .positive from rfl, hround]
  simp only [hexp]
  exact unpack_pack_binary64 hcanonical greatest

/-! ## Counts -/

theorem isDyadic_two : IsDyadic 2 (2 ^ 52) (-51) :=
  ⟨by decide, by decide, by decide, by decide, rfl⟩

/-- A positive count shifted until its leading bit is that of a normal number. -/
theorem shifted_count_normal {n k : Nat} (pos : 0 < n) (hk : n.log2 + k = 52) :
    2 ^ 52 ≤ n * 2 ^ k ∧ n * 2 ^ k < 2 ^ 53 := by
  constructor
  · calc 2 ^ 52 = 2 ^ n.log2 * 2 ^ k := by rw [← Nat.pow_add, hk]
      _ ≤ n * 2 ^ k := Nat.mul_le_mul_right _ (Nat.log2_self_le (by omega))
  · calc n * 2 ^ k < 2 ^ (n.log2 + 1) * 2 ^ k :=
          Nat.mul_lt_mul_of_pos_right Nat.lt_log2_self (by positivity)
      _ = 2 ^ 53 := by rw [← Nat.pow_add, show n.log2 + 1 + k = 53 by omega]

theorem value_shifted_count (n k : Nat) : ((n * 2 ^ k : Nat) : ℚ) * 2 ^ (-(k : Int)) = n := by
  push_cast
  rw [zpow_neg, zpow_natCast, mul_assoc, mul_inv_cancel₀ (by positivity), mul_one]

/-- A positive count of at most 53 bits is not rounded. -/
theorem unpackedOfNat_of_normal {n k : Nat} (pos : 0 < n) (hk : n.log2 + k = 52)
    (hpos : 0 < n * 2 ^ k) :
    UnpackedFloat.ofNat Format.binary64 n = .finite .positive (n * 2 ^ k) (-(k : Int)) hpos := by
  obtain ⟨low, high⟩ := shifted_count_normal pos hk
  have hcompare : compare (n : Int) 0 = .gt := Int.compare_eq_gt.mpr (by omega)
  have hvalue : (n : ℚ) * 2 ^ (0 : Int) = (n * 2 ^ k : Nat) * 2 ^ (-(k : Int)) := by
    rw [value_shifted_count, zpow_zero, mul_one]
  simp only [UnpackedFloat.ofNat, UnpackedFloat.ofInt, UnpackedFloat.normalize, hcompare,
    Int.toNat_natCast]
  exact round_of_value .positive (isCanonical_of_normal low high (by omega)) pos hvalue

theorem isDyadic_toFloat {n k : Nat} (pos : 0 < n) (hk : n.log2 + k = 52) (bound : n < 2 ^ 53) :
    IsDyadic n.toUInt64.toFloat (n * 2 ^ k) (-(k : Int)) := by
  obtain ⟨low, high⟩ := shifted_count_normal pos hk
  refine ⟨low, high, by omega, by omega, ?_⟩
  have hn : n.toUInt64.toNat = n := by
    simp only [Nat.toUInt64, UInt64.toNat_ofNat']
    omega
  have hcanonical := isCanonical_of_normal low high (show -1074 ≤ -(k : Int) by omega)
  have hmodel : n.toUInt64.toFloat.toModel
      = Float.Model.pack (UnpackedFloat.ofNat Format.binary64 n.toUInt64.toNat) := rfl
  rw [hmodel, hn, unpackedOfNat_of_normal pos hk hcanonical.pos]
  exact unpack_pack_binary64 hcanonical (by omega)

/-- The number of a positive count of at most 53 bits is exact. -/
theorem isDyadic_ofNat {n k : Nat} (pos : 0 < n) (hk : n.log2 + k = 52) (bound : n < 2 ^ 53) :
    IsDyadic (Float.ofNat n) (n * 2 ^ k) (-(k : Int)) := by
  have hone : IsDyadic (Float.ofBits 0x3FF0000000000000) (2 ^ 52) (0 - 52) :=
    ⟨by decide, by decide, by decide, by decide, rfl⟩
  have hmul := (isDyadic_toFloat pos hk bound).mul hone (by omega) (by omega)
  rw [Int.add_zero] at hmul
  have heq : Float.ofNat n = n.toUInt64.toFloat * Float.ofBits 0x3FF0000000000000 := by
    show Float.ofScientific n false 0 = _
    rw [Float.ofScientific, dif_pos ⟨bound, by decide⟩]
    rfl
  rw [heq]
  exact hmul

/-! ## Truncation -/

/-- The whole part of a dyadic number. -/
theorem IsDyadic.truncate_eq {x : Float} {m : Nat} {e : Int} (hx : IsDyadic x m e)
    (greatest : e ≤ 11) : Scalar.truncate x = m * 2 ^ e.toNat / 2 ^ (-e).toNat := by
  have hbound : m * 2 ^ e.toNat / 2 ^ (-e).toNat < 2 ^ 64 := by
    calc m * 2 ^ e.toNat / 2 ^ (-e).toNat ≤ m * 2 ^ e.toNat := Nat.div_le_self _ _
      _ < 2 ^ 53 * 2 ^ e.toNat := Nat.mul_lt_mul_of_pos_right hx.high (by positivity)
      _ ≤ 2 ^ 53 * 2 ^ 11 := Nat.mul_le_mul_left _ (Nat.pow_le_pow_right (by decide) (by omega))
      _ = 2 ^ 64 := by decide
  show (UnpackedFloat.toUInt64 x.toModel.unpack).toNat = _
  rw [hx.unpack]
  simp only [UnpackedFloat.toUInt64, UnpackedFloat.toInt, roundToInt_positive, Int.toNat_natCast]
  rw [UInt64.ofNatClamp_eq_ofNat _ hbound, UInt64.toNat_ofNat', Nat.mod_eq_of_lt hbound]

/-- The whole part of a dyadic number that is at least 1. -/
theorem IsDyadic.truncate {x : Float} {m : Nat} {e : Int} (hx : IsDyadic x m e) (least : -52 ≤ e)
    (greatest : e ≤ 11) : Scalar.truncate x = m * 2 ^ (e + 52).toNat / 2 ^ 52 := by
  obtain ⟨d, hd⟩ : ∃ d : Nat, (e + 52).toNat = e.toNat + d ∧ 52 = (-e).toNat + d :=
    ⟨52 - (-e).toNat, by omega, by omega⟩
  have hpow : (2 : Nat) ^ 52 = 2 ^ (-e).toNat * 2 ^ d := by rw [← Nat.pow_add, ← hd.2]
  rw [hx.truncate_eq greatest, hpow, hd.1, Nat.pow_add, ← Nat.mul_assoc,
    Nat.mul_div_mul_right _ _ (by positivity)]

/-! ## Scaled extents -/

/-- A count of at most 53 bits is doubled without rounding. -/
theorem scaledExtent_two {n : Nat} (bound : n ≤ 2 ^ 53) : scaledExtent n (2 : Float) = n * 2 := by
  rcases Nat.eq_zero_or_pos n with rfl | pos
  · decide +kernel
  rcases Nat.lt_or_eq_of_le bound with bound | rfl
  · have hlog : n.log2 ≤ 52 := by
      have := (Nat.log2_lt (by omega)).mpr bound
      omega
    obtain ⟨k, hk⟩ : ∃ k, n.log2 + k = 52 := ⟨52 - n.log2, by omega⟩
    have hdouble := (isDyadic_ofNat pos hk bound).mul isDyadic_two (j := 1) (by omega) (by omega)
    have hexp : (-(k : Int) + 1 + 52).toNat = 53 - k := by omega
    have hpow : 2 ^ k * 2 ^ (53 - k) = 2 * 2 ^ 52 := by
      rw [← Nat.pow_add, show k + (53 - k) = 1 + 52 by omega, Nat.pow_add]
    calc scaledExtent n (2 : Float) = n * 2 ^ k * 2 ^ (-(k : Int) + 1 + 52).toNat / 2 ^ 52 :=
          hdouble.truncate (by omega) (by omega)
      _ = n * 2 * 2 ^ 52 / 2 ^ 52 := by rw [hexp, Nat.mul_assoc, hpow, Nat.mul_assoc]
      _ = n * 2 := Nat.mul_div_cancel _ (by decide)
  · decide +kernel

/-- A number whose sign bit is set has no positive whole part. -/
theorem toUInt64_unpack_of_negative {b : BitVec 64}
    (h : @unpackSign Format.binary64 b = Sign.negative.toBitVec) :
    (UnpackedFloat.unpack Format.binary64 b).toUInt64 = 0 := by
  have hsign : Sign.ofBitVec (@unpackSign Format.binary64 b) = .negative := by
    rw [h, Sign.ofBitVec_toBitVec]
  have hwhole (m : Nat) (e : Int) : (roundToInt .negative m e).toNat = 0 := by
    simp only [roundToInt, Sign.apply]
    omega
  simp only [UnpackedFloat.unpack, hsign]
  split
  · split <;> rfl
  · split
    · split
      · rfl
      · simp only [UnpackedFloat.toUInt64, UnpackedFloat.toInt, hwhole]
        rfl
    · simp only [UnpackedFloat.toUInt64, UnpackedFloat.toInt, hwhole]
      rfl

/-- The sign survives rounding and packing. -/
theorem unpackSign_pack_roundWithAccuracy (s : Sign) (m : Nat) (e : Int) (a : Accuracy) :
    unpackSign (UnpackedFloat.pack Format.binary64 (roundWithAccuracy Format.binary64 s m e a))
      = s.toBitVec := by
  simp only [roundWithAccuracy]
  split
  · exact unpackSign_packComponents _ _ _
  · simp only [UnpackedFloat.pack]
    split
    · exact unpackSign_packComponents _ _ _
    · split <;> exact unpackSign_packComponents _ _ _

/-- The number of a positive count up to `2 ^ 53` is exact. -/
theorem exists_isDyadic_ofNat {n : Nat} (pos : 0 < n) (bound : n ≤ 2 ^ 53) :
    ∃ m e, IsDyadic (Float.ofNat n) m e ∧ -52 ≤ e ∧
      m * 2 ^ e.toNat = n * 2 ^ (-e).toNat := by
  rcases Nat.lt_or_eq_of_le bound with bound | rfl
  · have hlog := (Nat.log2_lt (Nat.ne_of_gt pos)).mpr bound
    obtain ⟨d, hd⟩ : ∃ d, n.log2 + d = 52 := ⟨52 - n.log2, by omega⟩
    refine ⟨n * 2 ^ d, -(d : Int), isDyadic_ofNat pos hd bound, by omega, ?_⟩
    rw [show (-(d : Int)).toNat = 0 by omega, show (- -(d : Int)).toNat = d by omega, Nat.pow_zero,
      Nat.mul_one]
  · exact ⟨2 ^ 52, 1, ⟨by decide, by decide, by decide, by decide, rfl⟩, by decide, by decide⟩

theorem exists_unpack_ofNat {n : Nat} (pos : 0 < n) (bound : n ≤ 2 ^ 53) :
    ∃ m e hm, (Float.ofNat n).toModel.unpack = .finite .positive m e hm := by
  obtain ⟨_, _, hn, -⟩ := exists_isDyadic_ofNat pos bound
  exact ⟨_, _, _, hn.unpack⟩

/-- What a scaled extent is computed from. -/
theorem scaledExtent_eq_toUInt64 (n : Nat) (scale : Float) :
    scaledExtent n scale = (Float.Model.pack (UnpackedFloat.mul Format.binary64
      (Float.ofNat n).toModel.unpack scale.toModel.unpack)).unpack.toUInt64.toNat := rfl

theorem scaledExtent_zero (scale : Float) : scaledExtent 0 scale = 0 := by
  have hzero : (Float.ofNat 0).toModel.unpack = .zero .positive := rfl
  rw [scaledExtent_eq_toUInt64, hzero]
  cases scale.toModel.unpack with
  | notANumber => decide +kernel
  | infinity s => cases s <;> decide +kernel
  | zero s => cases s <;> decide +kernel
  | finite s m e hm => cases s <;> simp only [UnpackedFloat.mul] <;> decide +kernel

/-- A scale that leaves some samples of an axis, but not too many to count, is a positive number. -/
theorem positive_of_scaledExtent {n : Nat} {scale : Float} (bound : n ≤ 2 ^ 53)
    (low : 0 < scaledExtent n scale) (high : scaledExtent n scale < maxCount) :
    (Scalar.isFinite scale && Scalar.lt Scalar.zero scale) = true := by
  have pos : 0 < n := by
    rcases Nat.eq_zero_or_pos n with rfl | pos
    · rw [scaledExtent_zero] at low
      omega
    · exact pos
  obtain ⟨m, e, hm, hn⟩ := exists_unpack_ofNat pos bound
  rw [scaledExtent_eq_toUInt64, hn] at low high
  have hfinite : Scalar.isFinite scale = scale.toModel.unpack.isFinite := rfl
  have hlt : Scalar.lt Scalar.zero scale
      = UnpackedFloat.lt (0 : Float).toModel.unpack scale.toModel.unpack := by
    show decide ((UnpackedFloat.lt (0 : Float).toModel.unpack scale.toModel.unpack) = true) = _
    simp
  have hzero : (0 : Float).toModel.unpack = .zero .positive := rfl
  rw [hfinite, hlt, hzero]
  cases hscale : scale.toModel.unpack with
  | notANumber =>
    rw [hscale] at low
    simp only [UnpackedFloat.mul] at low
    exact absurd low (by decide +kernel)
  | infinity s =>
    rw [hscale] at low high
    simp only [UnpackedFloat.mul] at low high
    cases s with
    | positive => exact absurd high (by decide +kernel)
    | negative => exact absurd low (by decide +kernel)
  | zero s =>
    rw [hscale] at low
    simp only [UnpackedFloat.mul] at low
    exact absurd low (by cases s <;> decide +kernel)
  | finite s m' e' hm' =>
    cases s with
    | positive => rfl
    | negative =>
      rw [hscale] at low
      simp only [UnpackedFloat.mul] at low
      have hnone := toUInt64_unpack_of_negative
        (unpackSign_pack_roundWithAccuracy (.positive * .negative) (m * m') (e + e') .exact)
      simp only [Float.Model.unpack, Float.Model.pack, UInt64.toBitVec_ofBitVec, hnone] at low
      exact absurd low (by decide)

end Midframe
