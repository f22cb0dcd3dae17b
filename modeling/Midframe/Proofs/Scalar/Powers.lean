import Mathlib
import Midframe.Proofs.Scalar.Value

/-!
# Powers of two

Double precision numbers hold the powers of two from `2 ^ -1074` to `2 ^ 1023`, the least of them
with fewer than 53 bits. A product with such a power is exact as long as it stays in this range;
beyond it lies infinity, and below it zero. The reciprocal of a power is exact too, and the whole
part of a count scaled by a power is a quotient of counts.
-/

namespace Midframe

open Float.Model Float.Model.UnpackedFloat

/-- The number of bits behind the leading one in the mantissa of `2 ^ k`: there are fewer than 52
where the exponent of the number is the least one. -/
def powerBits (k : Int) : Nat := min 52 (k + 1074).toNat

/-- `x` is `2 ^ k`. -/
structure IsPower (x : Float) (k : Int) : Prop where
  /-- The power is not too small. -/
  least : -1074 ≤ k
  /-- The power is not too large. -/
  greatest : k ≤ 1023
  /-- The parts of the number. -/
  unpack : x.toModel.unpack
    = .finite .positive (2 ^ powerBits k) (k - powerBits k) (Nat.two_pow_pos _)

/-! ## Packing -/

/-- The parts of a power are canonical. -/
theorem isCanonical_power {k : Int} (least : -1074 ≤ k) :
    IsCanonical Format.binary64 (2 ^ powerBits k) (k - powerBits k) := by
  refine ⟨Nat.two_pow_pos _, ?_⟩
  simp only [Format.targetExponent, totalExponent, Nat.log2_two_pow, Format.mantissaBits,
    Format.minExponent, powerBits]
  omega

theorem unpack_pack_power {k : Int} (least : -1074 ≤ k) (greatest : k ≤ 1023) :
    (Float.Model.pack (.finite .positive (2 ^ powerBits k) (k - powerBits k)
      (Nat.two_pow_pos _))).unpack
        = .finite .positive (2 ^ powerBits k) (k - powerBits k) (Nat.two_pow_pos _) :=
  unpack_pack_binary64 (isCanonical_power least) (by unfold powerBits; omega)

/-- A power that is too large is packed as infinity. -/
theorem unpack_pack_large {k : Int} (h : 1023 < k) :
    (Float.Model.pack (.finite .positive (2 ^ powerBits k) (k - powerBits k)
      (Nat.two_pow_pos _))).unpack = .infinity .positive := by
  have hbits : powerBits k = 52 := by unfold powerBits; omega
  have hpack : UnpackedFloat.pack Format.binary64 (.finite .positive (2 ^ powerBits k)
      (k - powerBits k) (Nat.two_pow_pos _)) = packedInfinity Format.binary64 .positive := by
    simp only [UnpackedFloat.pack, hbits]
    refine if_pos ?_
    simp only [Format.exponentBias]
    omega
  simp only [Float.Model.unpack, Float.Model.pack, UInt64.toBitVec_ofBitVec, hpack]
  rfl

/-! ## Rounding -/

/-- A power of two is not rounded. -/
theorem roundWithAccuracy_power {c : Nat} {e k : Int} (hk : e + c = k) (least : -1074 ≤ k)
    (room : powerBits k ≤ c) :
    roundWithAccuracy Format.binary64 .positive (2 ^ c) e .exact
      = .finite .positive (2 ^ powerBits k) (k - powerBits k) (Nat.two_pow_pos _) := by
  obtain ⟨d, rfl⟩ := Nat.exists_eq_add_of_le room
  have hexp : e + (d : Int) = k - powerBits k := by omega
  have hround := roundWithAccuracy_canonical .positive (hexp.symm ▸ isCanonical_power least)
  rw [Nat.pow_add, hround]
  simp only [hexp]

/-! ## Arithmetic -/

theorem exactValue_of_isPower {x : Float} {k : Int} (hx : IsPower x k) :
    exactValue x = some ((2 : ℚ) ^ k) := by
  rw [exactValue_of_finite hx.unpack]
  have hk : (powerBits k : Int) + (k - powerBits k) = k := by omega
  rw [Nat.cast_pow, Nat.cast_ofNat, ← zpow_natCast, ← zpow_add₀ (by norm_num), hk]

theorem isPower_one : IsPower 1 0 := ⟨by decide, by decide, rfl⟩

theorem isPower_two : IsPower 2 1 := ⟨by decide, by decide, rfl⟩

theorem isPower_half : IsPower 0.5 (-1) := ⟨by decide, by decide, rfl⟩

theorem unpack_mul_eq (x y : Float) : (x * y).toModel.unpack = (Float.Model.pack
    (UnpackedFloat.mul Format.binary64 x.toModel.unpack y.toModel.unpack)).unpack := rfl

variable {x y : Float} {k j : Int}

/-- What a product with a power is before it is packed, if the power has all its bits. -/
theorem IsPower.unpack_mul (hx : IsPower x k) (hy : IsPower y j) (full : -1022 ≤ j)
    (least : -1074 ≤ k + j) :
    (x * y).toModel.unpack = (Float.Model.pack (.finite .positive (2 ^ powerBits (k + j))
      (k + j - powerBits (k + j)) (Nat.two_pow_pos _))).unpack := by
  have hbits : powerBits j = 52 := by unfold powerBits; omega
  have hroom : powerBits (k + j) ≤ powerBits k + powerBits j := by
    rw [hbits]
    unfold powerBits
    omega
  have hround := roundWithAccuracy_power (c := powerBits k + powerBits j)
    (e := k - powerBits k + (j - powerBits j)) (k := k + j) (by push_cast; omega) least hroom
  rw [unpack_mul_eq, hx.unpack, hy.unpack]
  simp only [UnpackedFloat.mul, ← Nat.pow_add]
  rw [show (Sign.positive * Sign.positive : Sign) = .positive from rfl, hround]

/-- A product with a power is a power. -/
theorem IsPower.mul (hx : IsPower x k) (hy : IsPower y j) (full : -1022 ≤ j)
    (least : -1074 ≤ k + j) (greatest : k + j ≤ 1023) : IsPower (x * y) (k + j) :=
  ⟨least, greatest, (hx.unpack_mul hy full least).trans (unpack_pack_power least greatest)⟩

/-- A power that is too large is infinite. -/
theorem IsPower.mul_large (hx : IsPower x k) (hy : IsPower y j) (full : -1022 ≤ j)
    (large : 1023 < k + j) : (x * y).toModel.unpack = .infinity .positive :=
  (hx.unpack_mul hy full (by omega)).trans (unpack_pack_large large)

/-- Half of the least power is rounded to zero. -/
theorem IsPower.mul_half (hx : IsPower x (-1074)) (hy : IsPower y (-1)) :
    (x * y).toModel.unpack = .zero .positive := by
  rw [unpack_mul_eq, hx.unpack, hy.unpack]
  rfl

/-- Infinity stays infinite. -/
theorem IsPower.infinity_mul (hx : x.toModel.unpack = .infinity .positive) (hy : IsPower y j) :
    (x * y).toModel.unpack = .infinity .positive := by
  rw [unpack_mul_eq, hx, hy.unpack]
  simp only [UnpackedFloat.mul]
  rfl

/-- Zero stays zero. -/
theorem IsPower.zero_mul (hx : x.toModel.unpack = .zero .positive) (hy : IsPower y j) :
    (x * y).toModel.unpack = .zero .positive := by
  rw [unpack_mul_eq, hx, hy.unpack]
  simp only [UnpackedFloat.mul]
  rfl

/-- The reciprocal of a power, if no bits of it are missing. -/
theorem IsPower.reciprocal (hx : IsPower x k) (low : -1022 ≤ k) (high : k ≤ 1021) :
    IsPower (1 / x) (-k) := by
  have hbits : powerBits k = 52 := by unfold powerBits; omega
  refine ⟨by omega, by omega, ?_⟩
  have hcore : divCore Format.binary64 (2 ^ 52) (0 - (52 : Nat)) (2 ^ 52) (k - (52 : Nat))
      = (2 ^ 53, -k - 53, .exact) := by
    have htarget : Format.binary64.targetExponent (totalExponent (2 ^ 52) (0 - (52 : Nat))
        - totalExponent (2 ^ 52) (k - (52 : Nat))) = -k - 53 := by
      simp only [Format.targetExponent, totalExponent, Nat.log2_two_pow, Format.mantissaBits,
        Format.minExponent]
      omega
    have hmin : min (0 - ((52 : Nat) : Int) - (k - (52 : Nat))) (-k - 53) = -k - 53 := by omega
    have hshift : (0 - (52 : Nat) - (k - (52 : Nat)) - (-k - 53)).toNat = 53 := by omega
    simp only [divCore, htarget, hmin, hshift]
    rfl
  have hround := roundWithAccuracy_power (c := 53) (e := -k - 53) (k := -k) (by omega) (by omega)
    (by unfold powerBits; omega)
  show (Float.Model.pack (UnpackedFloat.div Format.binary64 (1 : Float).toModel.unpack
    x.toModel.unpack)).unpack = _
  rw [isPower_one.unpack, hx.unpack]
  have hone : powerBits 0 = 52 := rfl
  simp only [UnpackedFloat.div, hbits, hone, hcore]
  rw [show (Sign.positive / Sign.positive : Sign) = .positive from rfl, hround]
  exact unpack_pack_power (by omega) (by omega)

/-! ## Scaled extents -/

theorem IsPower.isDyadic (hx : IsPower x k) (full : -1022 ≤ k) : IsDyadic x (2 ^ 52) (k - 52) := by
  have hbits : powerBits k = 52 := by unfold powerBits; omega
  have hk := hx.greatest
  refine ⟨by decide, by decide, by omega, by omega, ?_⟩
  rw [hx.unpack]
  simp only [hbits]
  rfl

/-- A count scaled by a power is rounded down, unless it grows too large. -/
theorem scaledExtent_power {n up down : Nat} (hy : IsPower y (up - down))
    (low : -1000 ≤ (up : Int) - down) (bound : n ≤ 2 ^ 53)
    (fits : n * 2 ^ up ≤ 2 ^ 53 * 2 ^ down) : scaledExtent n y = n * 2 ^ up / 2 ^ down := by
  rcases Nat.eq_zero_or_pos n with rfl | pos
  · rw [scaledExtent_zero, Nat.zero_mul, Nat.zero_div]
  obtain ⟨m, e, hn, hleast, hvalue⟩ := exists_isDyadic_ofNat pos bound
  have hsmall : e + (up - down) ≤ 1 := by
    have hle : 2 ^ (52 + e.toNat + up) ≤ 2 ^ (53 + down + (-e).toNat) := by
      calc 2 ^ (52 + e.toNat + up) = 2 ^ 52 * 2 ^ e.toNat * 2 ^ up := by
            rw [Nat.pow_add, Nat.pow_add]
        _ ≤ m * 2 ^ e.toNat * 2 ^ up :=
            Nat.mul_le_mul_right _ (Nat.mul_le_mul_right _ hn.low)
        _ = n * 2 ^ up * 2 ^ (-e).toNat := by rw [hvalue, Nat.mul_right_comm]
        _ ≤ 2 ^ 53 * 2 ^ down * 2 ^ (-e).toNat := Nat.mul_le_mul_right _ fits
        _ = 2 ^ (53 + down + (-e).toNat) := by rw [Nat.pow_add, Nat.pow_add]
    have := (Nat.pow_le_pow_iff_right (by decide : 1 < 2)).mp hle
    omega
  have hproduct := hn.mul (hy.isDyadic (by omega)) (by omega) (by omega)
  obtain ⟨p, q, hp, hq⟩ : ∃ p q : Nat,
      (e + (up - down)).toNat = p ∧ (-(e + (up - down))).toNat = q := ⟨_, _, rfl, rfl⟩
  have hcross : m * 2 ^ p * (2 ^ e.toNat * 2 ^ down) = n * 2 ^ up * (2 ^ q * 2 ^ e.toNat) := by
    have hexp : (-e).toNat + p + down = up + q + e.toNat := by omega
    calc m * 2 ^ p * (2 ^ e.toNat * 2 ^ down) = m * 2 ^ e.toNat * 2 ^ p * 2 ^ down := by ring
      _ = n * 2 ^ ((-e).toNat + p + down) := by
          rw [hvalue, Nat.pow_add, Nat.pow_add, Nat.mul_assoc, Nat.mul_assoc, Nat.mul_assoc]
      _ = n * 2 ^ up * (2 ^ q * 2 ^ e.toNat) := by
          rw [hexp, Nat.pow_add, Nat.pow_add, Nat.mul_assoc, Nat.mul_assoc]
  calc scaledExtent n y = m * 2 ^ p / 2 ^ q := by
        rw [← hp, ← hq]
        exact hproduct.truncate_eq (by omega)
    _ = m * 2 ^ p * (2 ^ e.toNat * 2 ^ down) / (2 ^ q * (2 ^ e.toNat * 2 ^ down)) :=
        (Nat.mul_div_mul_right _ _ (by positivity)).symm
    _ = n * 2 ^ up * (2 ^ q * 2 ^ e.toNat) / (2 ^ down * (2 ^ q * 2 ^ e.toNat)) := by
        rw [hcross, ← Nat.mul_assoc (2 ^ q), Nat.mul_comm (2 ^ q * 2 ^ e.toNat) (2 ^ down)]
    _ = n * 2 ^ up / 2 ^ down := Nat.mul_div_mul_right _ _ (by positivity)

end Midframe
