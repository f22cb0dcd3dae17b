import Mathlib
import Midframe.Proofs.Scalar.Dyadic

/-!
# Values and signs of double precision numbers

The value of a finite number is a rational. A number whose value is a positive count that fits into
53 bits is the number of that count: its leading bit is set, which leaves only one mantissa and one
exponent. Numbers read from decimal digits carry no minus sign.
-/

namespace Midframe

open Float.Model Float.Model.UnpackedFloat

/-- The value of a finite number. -/
def exactValue (x : Float) : Option ℚ :=
  match x.toModel.unpack with
  | .zero _ => some 0
  | .finite sign mantissa exponent _ => some ((sign.apply mantissa : ℤ) * 2 ^ exponent)
  | .infinity _ | .notANumber => none

/-! ## Counts -/

theorem exactValue_of_finite {x : Float} {m : Nat} {e : Int} {pos : 0 < m}
    (h : x.toModel.unpack = .finite .positive m e pos) :
    exactValue x = some ((m : ℚ) * 2 ^ e) := by
  simp only [exactValue, h, Sign.apply, Int.cast_natCast]

/-- A positive value is that of a finite number without minus sign. -/
theorem unpack_of_exactValue_pos {x : Float} {q : ℚ} (h : exactValue x = some q) (hq : 0 < q) :
    ∃ m e hm, x.toModel.unpack = .finite .positive m e hm ∧ (m : ℚ) * 2 ^ e = q := by
  simp only [exactValue] at h
  split at h
  · rw [← Option.some.inj h] at hq
    exact absurd hq (lt_irrefl 0)
  · next s m e hm hu =>
    cases s with
    | positive =>
      refine ⟨m, e, hm, hu, ?_⟩
      simpa only [Sign.apply, Int.cast_natCast, Option.some.injEq] using h
    | negative =>
      rw [← Option.some.inj h] at hq
      simp only [Sign.apply, Int.cast_neg, Int.cast_natCast, neg_mul, Left.neg_pos_iff] at hq
      exact absurd hq (not_lt.mpr (by positivity))
  · exact absurd h (by simp)
  · exact absurd h (by simp)

/-- A number whose value is a count that fits into 53 bits has the parts of that count. -/
theorem isDyadic_of_exactValue {x : Float} {n k : Nat} (pos : 0 < n) (hk : n.log2 + k = 52)
    (h : exactValue x = some (n : ℚ)) : IsDyadic x (n * 2 ^ k) (-(k : Int)) := by
  obtain ⟨low, high⟩ := shifted_count_normal pos hk
  obtain ⟨m, e, hm, hu, hvalue⟩ := unpack_of_exactValue_pos h (by exact_mod_cast pos)
  have heq : partsValue .positive m e = partsValue .positive (n * 2 ^ k) (-(k : Int)) := by
    rw [partsValue_positive, partsValue_positive, hvalue, value_shifted_count]
  obtain ⟨-, rfl, rfl⟩ := parts_of_value (canonical_of_unpack hu)
    (isCanonical_of_normal low high (by omega)) heq
  exact ⟨low, high, by omega, by omega, hu⟩

/-- The whole part of a number whose value is a count. -/
theorem truncate_of_exactValue {x : Float} {n : Nat} (pos : 0 < n) (bound : n < 2 ^ 53)
    (h : exactValue x = some (n : ℚ)) : Scalar.truncate x = n := by
  have hlog := (Nat.log2_lt (Nat.ne_of_gt pos)).mpr bound
  obtain ⟨k, hk⟩ : ∃ k, n.log2 + k = 52 := ⟨52 - n.log2, by omega⟩
  have hpow : 2 ^ k * 2 ^ (-(k : Int) + 52).toNat = 2 ^ 52 := by
    rw [← Nat.pow_add]
    congr 1
    omega
  rw [(isDyadic_of_exactValue pos hk h).truncate (by omega) (by omega), Nat.mul_assoc, hpow,
    Nat.mul_div_cancel _ (by decide)]

/-- A number equals a finite number without minus sign if it has the same parts. -/
theorem beq_eq_true_iff {x y : Float} {m : Nat} {e : Int} {pos : 0 < m}
    (hx : x.toModel.unpack = .finite .positive m e pos) :
    (x == y) = true ↔ y.toModel.unpack = .finite .positive m e pos := by
  have hbeq : (x == y) = UnpackedFloat.beq x.toModel.unpack y.toModel.unpack := rfl
  rw [hbeq, hx, UnpackedFloat.beq]
  cases y.toModel.unpack with
  | notANumber => simp [UnpackedFloat.compare]
  | infinity s => cases s <;> simp [UnpackedFloat.compare]
  | zero s => simp [UnpackedFloat.compare]
  | finite s m' e' pos' =>
    cases s with
    | negative => simp [UnpackedFloat.compare]
    | positive =>
      simp only [UnpackedFloat.compare, beq_iff_eq, Option.some.injEq, Ordering.then_eq_eq,
        Std.LawfulEqOrd.compare_eq_iff_eq, UnpackedFloat.finite.injEq, true_and]
      exact ⟨fun ⟨he, hm⟩ => ⟨hm.symm, he.symm⟩, fun ⟨hm, he⟩ => ⟨he.symm, hm.symm⟩⟩

/-- Equality with the number of a count is equality of values. -/
theorem ofNat_beq_iff {x : Float} {n : Nat} (pos : 0 < n) (bound : n < 2 ^ 53) :
    (Float.ofNat n == x) = true ↔ exactValue x = some (n : ℚ) := by
  have hlog := (Nat.log2_lt (Nat.ne_of_gt pos)).mpr bound
  obtain ⟨k, hk⟩ : ∃ k, n.log2 + k = 52 := ⟨52 - n.log2, by omega⟩
  have hn := isDyadic_ofNat pos hk bound
  rw [beq_eq_true_iff hn.unpack]
  constructor
  · intro h
    rw [exactValue_of_finite h, value_shifted_count]
  · exact fun h => (isDyadic_of_exactValue pos hk h).unpack

/-! ## Signs -/

/-- The sign of the parts of a number. -/
def signOf : UnpackedFloat → Sign
  | .infinity s | .zero s | .finite s _ _ _ => s
  | .notANumber => .positive

/-- The sign survives packing. -/
theorem unpackSign_pack (u : UnpackedFloat) :
    unpackSign (UnpackedFloat.pack Format.binary64 u) = (signOf u).toBitVec := by
  cases u with
  | notANumber => exact unpackSign_packComponents _ _ _
  | infinity s => exact unpackSign_packComponents _ _ _
  | zero s => exact unpackSign_packComponents _ _ _
  | finite s m e hm =>
    simp only [UnpackedFloat.pack]
    split
    · exact unpackSign_packComponents _ _ _
    · split <;> exact unpackSign_packComponents _ _ _

/-- What is packed is unpacked with its sign, if it is a number at all. -/
theorem signOf_unpack_pack (u : UnpackedFloat) :
    signOf (Float.Model.pack u).unpack = signOf u ∨
      (Float.Model.pack u).unpack = .notANumber := by
  have hsign : Sign.ofBitVec
      (@unpackSign Format.binary64 (UnpackedFloat.pack Format.binary64 u)) = signOf u := by
    rw [unpackSign_pack, Sign.ofBitVec_toBitVec]
  simp only [Float.Model.unpack, Float.Model.pack, UInt64.toBitVec_ofBitVec, UnpackedFloat.unpack,
    hsign]
  split
  · split
    · exact .inl rfl
    · exact .inr rfl
  · split
    · split <;> exact .inl rfl
    · exact .inl rfl

theorem signOf_unpack_pack_positive {u : UnpackedFloat} (h : signOf u = .positive) :
    signOf (Float.Model.pack u).unpack = .positive := by
  rcases signOf_unpack_pack u with hu | hu
  · exact hu.trans h
  · rw [hu]
    rfl

theorem signOf_roundWithAccuracy (s : Sign) (m : Nat) (e : Int) (a : Accuracy) :
    signOf (roundWithAccuracy Format.binary64 s m e a) = s := by
  simp only [roundWithAccuracy]
  split <;> rfl

theorem signOf_div {u v : UnpackedFloat} (hu : signOf u = .positive) (hv : signOf v = .positive) :
    signOf (UnpackedFloat.div Format.binary64 u v) = .positive := by
  unfold UnpackedFloat.div
  split <;> simp only [signOf] at hu hv ⊢ <;> subst_vars
  case h_11 => exact signOf_roundWithAccuracy _ _ _ _
  all_goals rfl

theorem signOf_ofNat (n : Nat) : signOf (UnpackedFloat.ofNat Format.binary64 n) = .positive := by
  simp only [UnpackedFloat.ofNat, UnpackedFloat.ofInt, UnpackedFloat.normalize]
  split
  · next h => exact absurd (Int.compare_eq_lt.mp h) (by omega)
  · rfl
  · exact signOf_roundWithAccuracy _ _ _ _

theorem signOf_ofScientific (m : Nat) (e : Int) :
    signOf (UnpackedFloat.ofScientific Format.binary64 m e) = .positive := by
  unfold UnpackedFloat.ofScientific
  split_ifs
  · rfl
  · rfl
  · rfl
  · exact signOf_roundWithAccuracy _ _ _ _
  · exact signOf_roundWithAccuracy _ _ _ _

theorem signOf_powerOfTen (e : Nat) (h : e < Float.exactlyRepresentablePowersOfTen.size) :
    signOf Float.exactlyRepresentablePowersOfTen[e].toModel.unpack = .positive := by
  have hall : (Float.exactlyRepresentablePowersOfTen.all
      fun x => signOf x.toModel.unpack matches .positive) = true := by decide +kernel
  have hsign := Array.all_eq_true.mp hall e h
  cases hs : signOf Float.exactlyRepresentablePowersOfTen[e].toModel.unpack with
  | positive => rfl
  | negative =>
    rw [hs] at hsign
    exact absurd hsign (by decide)

/-- Decimal digits denote a number without minus sign. -/
theorem signOf_decimal (m e : Nat) :
    signOf (Float.ofScientific m true e).toModel.unpack = .positive := by
  unfold Float.ofScientific
  split
  · exact signOf_unpack_pack_positive
      (signOf_div (signOf_unpack_pack_positive (signOf_ofNat _)) (signOf_powerOfTen e _))
  · exact signOf_unpack_pack_positive (signOf_ofScientific m _)

/-- The negative of a number without minus sign has no positive value. -/
theorem exactValue_neg_ne {x : Float} {q : ℚ} (hx : signOf x.toModel.unpack = .positive)
    (hq : 0 < q) : exactValue (-x) ≠ some q := by
  intro h
  obtain ⟨m, e, hm, hu, -⟩ := unpack_of_exactValue_pos h hq
  have hneg : (-x).toModel.unpack = (Float.Model.pack x.toModel.unpack.neg).unpack := rfl
  cases hparts : x.toModel.unpack with
  | notANumber =>
    have hpack : (Float.Model.pack (UnpackedFloat.neg .notANumber)).unpack = .notANumber := rfl
    rw [hneg, hparts, hpack] at hu
    exact absurd hu (by simp)
  | infinity s | zero s | finite s m e hm =>
    rw [hparts] at hx
    obtain rfl : s = .positive := hx
    rw [hparts] at hneg
    rcases signOf_unpack_pack _ with hsign | hsign
    · rw [← hneg, hu] at hsign
      exact absurd hsign (by simp [signOf, UnpackedFloat.neg])
    · rw [← hneg, hu] at hsign
      exact absurd hsign (by simp)

end Midframe
