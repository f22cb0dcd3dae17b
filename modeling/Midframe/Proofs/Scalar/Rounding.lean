import Mathlib
import Midframe.Proofs.Scalar.Exact

/-!
# Rounding

Where a format cannot represent the exact result of an operation, the mantissa is cut off at the
exponent that the format asks for, and may be counted up by one. A mantissa that overflows in this
way is a power of two, so that bringing it into its canonical form loses nothing more. What is
rounded is therefore no more than a unit of the last place away from what was cut. A quotient is cut
once before it is rounded, and so may lose another unit.
-/

namespace Midframe

open Float.Model Float.Model.UnpackedFloat

variable {spec : Format}

theorem roundToNearestEven_bounds (m : Nat) (a : Accuracy) :
    m ≤ a.roundToNearestEven m ∧ a.roundToNearestEven m ≤ m + 1 := by
  rcases a with _ | (_ | _ | _) <;> simp only [Accuracy.roundToNearestEven] <;> omega

/-- A mantissa of too many bits by one is a power of two, and has a canonical form as well. -/
theorem exists_canonical_of_le {r : Nat} {t : Int} (pos : 0 < r)
    (fits : r ≤ 2 ^ (spec.mantissaBitsWithoutImplicit + 1)) (least : spec.minExponent ≤ t)
    (full : 2 ^ spec.mantissaBitsWithoutImplicit ≤ r ∨ t = spec.minExponent) :
    ∃ m k : Nat, k ≤ 1 ∧ r = m * 2 ^ k ∧ IsCanonical spec m (t + k) := by
  rcases fits.lt_or_eq with hlt | rfl
  · have hlog := (Nat.log2_lt pos.ne').mpr hlt
    have hfull : spec.mantissaBitsWithoutImplicit ≤ r.log2 ∨ t = spec.minExponent :=
      full.imp_left (Nat.le_log2 pos.ne').mpr
    refine ⟨r, 0, Nat.zero_le 1, (Nat.mul_one r).symm, pos, ?_⟩
    simp only [Format.targetExponent, totalExponent, Format.mantissaBits]
    omega
  · refine ⟨2 ^ spec.mantissaBitsWithoutImplicit, 1, le_rfl, pow_succ _ _, Nat.two_pow_pos _, ?_⟩
    simp only [Format.targetExponent, totalExponent, Format.mantissaBits, Nat.log2_two_pow]
    omega

variable {n : Nat} {f t : Int}

/-- The mantissa that is left at the exponent that the format asks for. -/
theorem cut_bounds (pos : 0 < n) (ht : spec.targetExponent (totalExponent n f) = t) (hle : f ≤ t) :
    n / 2 ^ (t - f).toNat < 2 ^ (spec.mantissaBitsWithoutImplicit + 1) ∧
      (2 ^ spec.mantissaBitsWithoutImplicit ≤ n / 2 ^ (t - f).toNat ∨ t = spec.minExponent) := by
  obtain ⟨k, rfl⟩ := Int.le.dest hle
  have hshift : (f + k - f).toNat = k := by omega
  simp only [Format.targetExponent, totalExponent, Format.mantissaBits] at ht
  rw [hshift]
  constructor
  · rw [Nat.div_lt_iff_lt_mul (Nat.two_pow_pos k), ← Nat.pow_add, ← Nat.log2_lt pos.ne']
    omega
  · rw [Nat.le_div_iff_mul_le (Nat.two_pow_pos k), ← Nat.pow_add, ← Nat.le_log2 pos.ne']
    omega

theorem mantissa_ofMantissaAndAccuracy (n : Nat) (a : Accuracy) :
    (ExtendedMantissa.ofMantissaAndAccuracy n a).mantissa = n := by
  rcases a with _ | (_ | _ | _) <;> rfl

/-- A value is rounded to a count of units of the last place, and packing keeps it. -/
theorem packedValue_roundWithAccuracy (s : Sign) (a : Accuracy) (pos : 0 < n)
    (ht : spec.targetExponent (totalExponent n f) = t) (hle : f ≤ t) (room : HasRoom spec (t + 1)) :
    ∃ r : Nat, n / 2 ^ (t - f).toNat ≤ r ∧ r ≤ n / 2 ^ (t - f).toNat + 1 ∧
      packedValue spec (roundWithAccuracy spec s n f a) = some (partsValue s r t) := by
  obtain ⟨hlt, hfull⟩ := cut_bounds pos ht hle
  have hexp : f + ((t - f).toNat : Int) = t := by omega
  generalize hem : ExtendedMantissa.ofMantissaAndAccuracy n a >>> (t - f).toNat = em
  have hmantissa : em.mantissa = n / 2 ^ (t - f).toNat := by
    rw [← hem, mantissa_shiftRight, mantissa_ofMantissaAndAccuracy]
  have hfirst : shiftToTargetExponent spec n f a = (em, t) := by
    simp only [shiftToTargetExponent, shiftToExponent, ht, hem, hexp]
  obtain ⟨r, hrounded⟩ : ∃ r, em.roundedMantissa = r := ⟨_, rfl⟩
  have hlow : n / 2 ^ (t - f).toNat ≤ r := by
    rw [← hmantissa, ← hrounded]
    exact (roundToNearestEven_bounds _ _).1
  have hhigh : r ≤ n / 2 ^ (t - f).toNat + 1 := by
    rw [← hmantissa, ← hrounded]
    exact (roundToNearestEven_bounds _ _).2
  refine ⟨r, hlow, hhigh, ?_⟩
  simp only [roundWithAccuracy, hfirst, hrounded]
  rcases Nat.eq_zero_or_pos r with rfl | hr
  · have hzero : (shiftToTargetExponent spec 0 t .exact).1.mantissa = 0 := by
      rw [shiftToTargetExponent, shiftToExponent, mantissa_shiftRight]
      exact Nat.zero_div _
    rw [dif_pos hzero, packedValue_zero, partsValue_zero]
  · obtain ⟨m, k, hk, rfl, hcanonical⟩ := exists_canonical_of_le hr (hhigh.trans hlt)
      (ht ▸ le_max_right _ _) (hfull.imp_left fun hfull => hfull.trans hlow)
    have hroom : HasRoom spec (t + k) := by
      simp only [HasRoom] at room ⊢
      omega
    have hrepresented : Represents spec (partsValue s m (t + k)) := .parts s hcanonical hroom
    simp only [shiftToTargetExponent_canonical hcanonical]
    rw [dif_neg hcanonical.pos.ne', packedValue_canonical hcanonical hrepresented,
      partsValue_mul_pow]

/-- A count of units that lies between the mantissas in front of and behind the cut is no more than
a unit away from what was cut. -/
theorem abs_cut_le {r : Nat} (hle : f ≤ t) (low : n / 2 ^ (t - f).toNat ≤ r)
    (high : r ≤ n / 2 ^ (t - f).toNat + 1) : |(r : ℚ) * 2 ^ t - n * 2 ^ f| ≤ 2 ^ t := by
  obtain ⟨k, rfl⟩ := Int.le.dest hle
  have hshift : (f + k - f).toNat = k := by omega
  rw [hshift] at low high
  have habove : r * 2 ^ k ≤ n + 2 ^ k :=
    calc r * 2 ^ k ≤ (n / 2 ^ k + 1) * 2 ^ k := Nat.mul_le_mul_right _ high
      _ = n / 2 ^ k * 2 ^ k + 2 ^ k := Nat.succ_mul _ _
      _ ≤ n + 2 ^ k := Nat.add_le_add_right (Nat.div_mul_le_self _ _) _
  have hbelow : n ≤ r * 2 ^ k + 2 ^ k :=
    calc n ≤ (n / 2 ^ k + 1) * 2 ^ k :=
          (Nat.lt_mul_of_div_lt (Nat.lt_succ_self _) (Nat.two_pow_pos k)).le
      _ ≤ (r + 1) * 2 ^ k := Nat.mul_le_mul_right _ (Nat.succ_le_succ low)
      _ = r * 2 ^ k + 2 ^ k := Nat.succ_mul _ _
  have hcut : |(r : ℚ) * 2 ^ k - n| ≤ 2 ^ k := by
    have habove : (r : ℚ) * 2 ^ k ≤ n + 2 ^ k := by exact_mod_cast habove
    have hbelow : (n : ℚ) ≤ r * 2 ^ k + 2 ^ k := by exact_mod_cast hbelow
    rw [abs_le]
    constructor <;> linarith
  have hpos : (0 : ℚ) < 2 ^ f := by positivity
  calc |(r : ℚ) * 2 ^ (f + (k : Int)) - n * 2 ^ f| = |((r : ℚ) * 2 ^ k - n) * 2 ^ f| := by
        rw [zpow_add₀ (by norm_num), zpow_natCast]
        ring_nf
    _ = |(r : ℚ) * 2 ^ k - n| * 2 ^ f := by rw [abs_mul, abs_of_pos hpos]
    _ ≤ 2 ^ k * 2 ^ f := mul_le_mul_of_nonneg_right hcut hpos.le
    _ = 2 ^ (f + (k : Int)) := by rw [zpow_add₀ (by norm_num), zpow_natCast, mul_comm]

/-! ## Errors of operations -/

theorem totalExponent_le_of_value {k : Int} (pos : 0 < n) (bound : (n : ℚ) * 2 ^ f ≤ 2 ^ k) :
    totalExponent n f ≤ k + 1 := by
  have hlog : (n.log2 : Int) + f ≤ k :=
    calc (n.log2 : Int) + f = Int.log 2 ((n : ℚ) * 2 ^ f) := (log_value_eq pos f).symm
      _ ≤ Int.log 2 (((2 : Nat) : ℚ) ^ k) := Int.log_mono_right (by positivity) bound
      _ = k := Int.log_zpow (by decide) k
  rw [totalExponent]
  omega

variable {k : Int}

/-- A value below a power of two is rounded to one that is close to it. -/
theorem exists_packedValue_round (a : Accuracy) (pos : 0 < n)
    (hle : f ≤ spec.targetExponent (totalExponent n f)) (bound : (n : ℚ) * 2 ^ f ≤ 2 ^ k)
    (least : spec.minExponent ≤ k + 1 - spec.mantissaBits)
    (room : HasRoom spec (k + 2 - spec.mantissaBits)) :
    ∃ q, packedValue spec (roundWithAccuracy spec .positive n f a) = some q ∧ 0 ≤ q ∧
      |q - n * 2 ^ f| ≤ 2 ^ (k + 1 - spec.mantissaBits) := by
  obtain ⟨t, ht⟩ : ∃ t, spec.targetExponent (totalExponent n f) = t := ⟨_, rfl⟩
  have htop : t ≤ k + 1 - spec.mantissaBits := by
    have := totalExponent_le_of_value pos bound
    rw [← ht, Format.targetExponent]
    omega
  have hroom : HasRoom spec (t + 1) := by
    simp only [HasRoom] at room ⊢
    omega
  obtain ⟨r, hlow, hhigh, hvalue⟩ :=
    packedValue_roundWithAccuracy .positive a pos ht (ht ▸ hle) hroom
  rw [partsValue_positive] at hvalue
  exact ⟨_, hvalue, by positivity, (abs_cut_le (ht ▸ hle) hlow hhigh).trans
    (zpow_le_zpow_right₀ (by norm_num) htop)⟩

/-- A quotient of mantissas has as many bits as the format asks for, if it is not too small. -/
theorem divCore_bounds {m₁ m₂ : Nat} {e₁ e₂ : Int} (pos₁ : 0 < m₁) (pos₂ : 0 < m₂)
    (normal : spec.minExponent + spec.mantissaBits ≤ totalExponent m₁ e₁ - totalExponent m₂ e₂) :
    ∃ n f a, divCore spec m₁ e₁ m₂ e₂ = (n, f, a) ∧ 0 < n ∧
      f + spec.mantissaBits ≤ totalExponent m₁ e₁ - totalExponent m₂ e₂ ∧
      totalExponent m₁ e₁ - totalExponent m₂ e₂ ≤ totalExponent n f ∧
      (n : ℚ) * 2 ^ f ≤ m₁ * 2 ^ e₁ / (m₂ * 2 ^ e₂) ∧
      m₁ * 2 ^ e₁ / (m₂ * 2 ^ e₂) ≤ ((n + 1 : Nat) : ℚ) * 2 ^ f := by
  obtain ⟨f, hf⟩ : ∃ f, min (e₁ - e₂)
    (spec.targetExponent (totalExponent m₁ e₁ - totalExponent m₂ e₂)) = f := ⟨_, rfl⟩
  have hbits := spec.hm
  obtain ⟨hle, htop⟩ : f ≤ e₁ - e₂ ∧
      f + spec.mantissaBits ≤ totalExponent m₁ e₁ - totalExponent m₂ e₂ := by
    simp only [Format.targetExponent] at hf
    omega
  obtain ⟨d, hd⟩ := Int.le.dest hle
  have hshift : (e₁ - e₂ - f).toNat = d := by omega
  have hcore : divCore spec m₁ e₁ m₂ e₂
      = (m₁ * 2 ^ d / m₂, f, accuracyOfFraction (m₁ * 2 ^ d % m₂) m₂) := by
    simp only [divCore, hf, hshift, Nat.shiftLeft_eq]
  -- The quotient has at least as many bits as its terms differ by.
  obtain ⟨j, hj⟩ : ∃ j, m₂.log2 + 1 + j = m₁.log2 + d := by
    simp only [totalExponent, Format.mantissaBits] at htop
    exact ⟨m₁.log2 + d - (m₂.log2 + 1), by omega⟩
  have hlow : 2 ^ j ≤ m₁ * 2 ^ d / m₂ := by
    rw [Nat.le_div_iff_mul_le pos₂]
    calc 2 ^ j * m₂ ≤ 2 ^ j * 2 ^ (m₂.log2 + 1) := Nat.mul_le_mul_left _ Nat.lt_log2_self.le
      _ = 2 ^ m₁.log2 * 2 ^ d := by rw [← Nat.pow_add, ← Nat.pow_add, Nat.add_comm j, hj]
      _ ≤ m₁ * 2 ^ d := Nat.mul_le_mul_right _ (Nat.log2_self_le pos₁.ne')
  have hpos : 0 < m₁ * 2 ^ d / m₂ := (Nat.two_pow_pos j).trans_le hlow
  have htotal : totalExponent m₁ e₁ - totalExponent m₂ e₂
      ≤ totalExponent (m₁ * 2 ^ d / m₂) f := by
    have := (Nat.le_log2 hpos.ne').mpr hlow
    simp only [totalExponent]
    omega
  have hvalue : (m₁ : ℚ) * 2 ^ e₁ / (m₂ * 2 ^ e₂) = ((m₁ * 2 ^ d : Nat) : ℚ) / m₂ * 2 ^ f := by
    have hexp : e₁ = f + d + e₂ := by omega
    have hm₂ : (m₂ : ℚ) ≠ 0 := by exact_mod_cast pos₂.ne'
    rw [hexp, zpow_add₀ (by norm_num), zpow_add₀ (by norm_num), zpow_natCast]
    push_cast
    field_simp
  have hupper : ((m₁ * 2 ^ d : Nat) : ℚ) / m₂ ≤ (m₁ * 2 ^ d / m₂ + 1 : Nat) := by
    rw [div_le_iff₀ (by exact_mod_cast pos₂)]
    exact_mod_cast (Nat.lt_mul_of_div_lt (Nat.lt_succ_self _) pos₂).le
  refine ⟨_, _, _, hcore, hpos, htop, htotal, ?_, ?_⟩
  · rw [hvalue]
    exact mul_le_mul_of_nonneg_right Nat.cast_div_le (by positivity)
  · rw [hvalue]
    exact mul_le_mul_of_nonneg_right hupper (by positivity)

/-- A quotient below a power of two is close to the exact one, if it is not too small. -/
theorem exists_packedValue_div {m₁ m₂ : Nat} {e₁ e₂ : Int} (pos₁ : 0 < m₁) (pos₂ : 0 < m₂)
    (bound : (m₁ : ℚ) * 2 ^ e₁ / (m₂ * 2 ^ e₂) ≤ 2 ^ k)
    (normal : spec.minExponent + spec.mantissaBits ≤ totalExponent m₁ e₁ - totalExponent m₂ e₂)
    (room : HasRoom spec (k + 2 - spec.mantissaBits)) :
    ∃ q, packedValue spec (UnpackedFloat.div spec (.finite .positive m₁ e₁ pos₁)
        (.finite .positive m₂ e₂ pos₂)) = some q ∧ 0 ≤ q ∧
      |q - m₁ * 2 ^ e₁ / (m₂ * 2 ^ e₂)| ≤ 2 ^ (k + 2 - spec.mantissaBits) := by
  obtain ⟨n, f, a, hcore, pos, htop, htotal, hlow, hhigh⟩ := divCore_bounds pos₁ pos₂ normal
  have hbound := totalExponent_le_of_value pos (hlow.trans bound)
  have hle : f ≤ spec.targetExponent (totalExponent n f) := by
    rw [Format.targetExponent]
    omega
  obtain ⟨q, hq, hpos, herror⟩ :=
    exists_packedValue_round a pos hle (hlow.trans bound) (by omega) room
  refine ⟨q, ?_, hpos, ?_⟩
  · rw [← hq]
    simp only [UnpackedFloat.div, hcore]
    rfl
  · generalize (m₁ : ℚ) * 2 ^ e₁ / (m₂ * 2 ^ e₂) = v at hlow hhigh
    have hunit : (2 : ℚ) ^ f ≤ 2 ^ (k + 1 - (spec.mantissaBits : Int)) :=
      zpow_le_zpow_right₀ (by norm_num) (by omega)
    have hcut : |(n : ℚ) * 2 ^ f - v| ≤ 2 ^ f := by
      push_cast at hhigh
      rw [abs_le]
      constructor <;> linarith
    calc |q - v| ≤ |q - n * 2 ^ f| + |n * 2 ^ f - v| := abs_sub_le _ _ _
      _ ≤ 2 ^ (k + 1 - (spec.mantissaBits : Int)) + 2 ^ (k + 1 - (spec.mantissaBits : Int)) :=
        add_le_add herror (hcut.trans hunit)
      _ = 2 ^ (k + 2 - (spec.mantissaBits : Int)) := by
        rw [show k + 2 - (spec.mantissaBits : Int) = k + 1 - spec.mantissaBits + 1 by ring,
          zpow_add_one₀ (by norm_num)]
        ring

end Midframe
