import Midframe.Scalar
import Midframe.Proofs.Scalar.Exact

/-!
# Values of single precision numbers

A finite sample has a rational value. Differences, products and quotients are exact wherever single
precision represents their values, which it does for every integer of at most 24 bits, moved by a
power of two. The whole part of a sample that is not negative is that of its value.
-/

namespace Midframe

open Float.Model Float.Model.UnpackedFloat

/-- The value of a finite sample. -/
def sampleValue (x : Float32) : Option ℚ := valueOf x.toModel.unpack

theorem hasCanonicalParts_sample (x : Float32) :
    HasCanonicalParts Format.binary32 x.toModel.unpack :=
  fun _ _ _ _ h => canonical_of_unpack h

theorem sampleValue_pack (u : UnpackedFloat) :
    sampleValue ⟨Float32.Model.pack u⟩ = packedValue Format.binary32 u := by
  simp only [sampleValue, Float32.Model.unpack, Float32.Model.pack, UInt32.toBitVec_ofBitVec,
    packedValue]

variable {x y : Float32} {p q : ℚ}

/-- Integers of 24 bits can be moved by a power of two, unless they get too small or too large. -/
theorem represents_sample {n : Int} {e : Int} (fits : n.natAbs < 2 ^ 24) (least : -149 ≤ e)
    (greatest : e ≤ 100) : Represents Format.binary32 ((n : ℚ) * 2 ^ e) := by
  refine represents_intCast fits ?_ ?_
  · exact least
  · simp only [HasRoom, Format.exponentBias]
    omega

/-- A difference that single precision represents is not rounded. -/
theorem sampleValue_sub (hp : sampleValue x = some p) (hq : sampleValue y = some q)
    (represented : Represents Format.binary32 (p - q)) : sampleValue (x - y) = some (p - q) :=
  (sampleValue_pack _).trans
    (packedValue_sub (hasCanonicalParts_sample x) (hasCanonicalParts_sample y) hp hq represented)

/-- A product that single precision represents is not rounded. -/
theorem sampleValue_mul (hp : sampleValue x = some p) (hq : sampleValue y = some q)
    (represented : Represents Format.binary32 (p * q)) : sampleValue (x * y) = some (p * q) :=
  (sampleValue_pack _).trans
    (packedValue_mul (hasCanonicalParts_sample x) (hasCanonicalParts_sample y) hp hq represented)

/-- A quotient that single precision represents is not rounded. -/
theorem sampleValue_div (hp : sampleValue x = some p) (hq : sampleValue y = some q) (hne : q ≠ 0)
    (represented : Represents Format.binary32 (p / q)) : sampleValue (x / y) = some (p / q) :=
  (sampleValue_pack _).trans (packedValue_div hp hq hne represented)

/-! ## Counts -/

/-- A count of at most 24 bits is exact. -/
theorem sampleValue_toFloat32 {w : UInt64} (h : w.toNat < 2 ^ 24) :
    sampleValue w.toFloat32 = some (w.toNat : ℚ) := by
  have represented := represents_sample (n := w.toNat) (e := 0) (by omega) (by decide) (by decide)
  rw [zpow_zero, mul_one] at represented
  exact (sampleValue_pack _).trans (packedValue_normalize .positive represented (by simp))

theorem sampleValue_ofNat {n : Nat} (h : n < 2 ^ 23) :
    sampleValue (Float32.ofNat n) = some (n : ℚ) := by
  have hword : n.toUInt64.toNat = n := by
    simp only [Nat.toUInt64, UInt64.toNat_ofNat']
    omega
  have hcount : sampleValue n.toUInt64.toFloat32 = some (n : ℚ) := by
    rw [sampleValue_toFloat32 (by omega), hword]
  have hone : sampleValue (Float32.ofBits 0x3F800000) = some 1 := by decide +kernel
  have hmul : Float32.ofNat n = n.toUInt64.toFloat32 * Float32.ofBits 0x3F800000 := by
    show Float32.ofScientific n false 0 = _
    rw [Float32.ofScientific, dif_pos ⟨h, by decide⟩]
    rfl
  have hvalue : (n : ℚ) * 1 = n := mul_one _
  rw [hmul, ← hvalue]
  refine sampleValue_mul hcount hone ?_
  have represented := represents_sample (n := n) (e := 0) (by omega) (by decide) (by decide)
  rwa [zpow_zero] at represented

/-! ## Comparisons and whole parts -/

/-- Samples are compared by their values. -/
theorem compare_sample (hp : sampleValue x = some p) (hq : sampleValue y = some q) :
    UnpackedFloat.compare x.toModel.unpack y.toModel.unpack = some (compare p q) :=
  compare_of_value (hasCanonicalParts_sample x) (hasCanonicalParts_sample y) hp hq

theorem le_sample (hp : sampleValue x = some p) (hq : sampleValue y = some q) :
    Scalar.le x y = decide (p ≤ q) := by
  show decide ((UnpackedFloat.le x.toModel.unpack y.toModel.unpack) = true) = _
  rw [UnpackedFloat.le, compare_sample hp hq, Option.any_some, decide_eq_decide,
    Ordering.isLE_iff_ne_gt]
  exact compare_le_iff_le

theorem lt_sample_eq (x y : Float32) :
    Scalar.lt x y = (UnpackedFloat.compare x.toModel.unpack y.toModel.unpack == some .lt) := by
  show decide ((UnpackedFloat.lt x.toModel.unpack y.toModel.unpack) = true) = _
  rw [Bool.decide_eq_true, UnpackedFloat.lt]

theorem lt_sample (hp : sampleValue x = some p) (hq : sampleValue y = some q) :
    Scalar.lt x y = decide (p < q) := by
  rw [lt_sample_eq, compare_sample hp hq, Bool.eq_iff_iff, beq_iff_eq, Option.some.injEq,
    compare_lt_iff_lt, decide_eq_true_iff]

/-- The whole part of a sample. -/
theorem truncate_sample (hp : sampleValue x = some p) (low : 0 ≤ p) (high : p < 2 ^ 64) :
    Scalar.truncate x = ⌊p⌋₊ :=
  toUInt64_of_value hp low high

end Midframe
