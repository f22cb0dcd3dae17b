import Mathlib

/-!
# Arithmetic without rounding

The operations on floating point numbers round their exact results. This module follows a number
through its parts, whatever its format: a mantissa and an exponent are canonical where the mantissa
has as many bits as the format and the exponent allow. A value has only one canonical form, rounding
brings every writing of the value to it, and packing keeps it. So wherever the format represents the
exact result of a product, quotient or difference, that is what the operation gives.
-/

namespace Midframe

open Float.Model Float.Model.UnpackedFloat

variable {spec : Format}

/-! ## Canonical parts -/

/-- The mantissa has as many bits as the format leaves it at the exponent. -/
structure IsCanonical (spec : Format) (m : Nat) (e : Int) : Prop where
  /-- The mantissa is not zero. -/
  pos : 0 < m
  /-- The exponent is the one that the format asks for. -/
  target : spec.targetExponent (totalExponent m e) = e

/-- The format has room for the exponent. -/
def HasRoom (spec : Format) (e : Int) : Prop :=
  e + spec.exponentBias + spec.mantissaBitsWithoutImplicit + 1 < 2 ^ spec.exponentBits

instance (spec : Format) (e : Int) : Decidable (HasRoom spec e) :=
  inferInstanceAs (Decidable (_ < _))

theorem minExponent_eq (spec : Format) : spec.minExponent
    = 1 - (spec.exponentBias : Int) - spec.mantissaBitsWithoutImplicit := by
  have hpow : 0 < 2 ^ (spec.exponentBits - 1) := Nat.two_pow_pos _
  simp only [Format.minExponent, Format.exponentBias, Format.mantissaBits]
  push_cast [Nat.cast_sub (show 1 ≤ 2 ^ (spec.exponentBits - 1) from hpow)]
  ring

namespace IsCanonical

variable {m : Nat} {e : Int} (h : IsCanonical spec m e)
include h

theorem least : spec.minExponent ≤ e := by
  rw [← h.target]
  exact le_max_right _ _

/-- Either all bits are in use, or the exponent is the least one. -/
theorem bits : m.log2 = spec.mantissaBitsWithoutImplicit ∨
    m.log2 < spec.mantissaBitsWithoutImplicit ∧ e = spec.minExponent := by
  have htarget := h.target
  simp only [Format.targetExponent, totalExponent, Format.mantissaBits] at htarget
  omega

theorem log2_le : m.log2 ≤ spec.mantissaBitsWithoutImplicit := by
  rcases h.bits with hbits | hbits <;> omega

theorem lt_pow : m < 2 ^ (spec.mantissaBitsWithoutImplicit + 1) :=
  lt_of_lt_of_le Nat.lt_log2_self (Nat.pow_le_pow_right (by decide) (Nat.succ_le_succ h.log2_le))

end IsCanonical

/-! ## Rounding -/

theorem log2_mul_pow {m : Nat} (pos : 0 < m) (k : Nat) : (m * 2 ^ k).log2 = m.log2 + k := by
  refine (Nat.log2_eq_iff (by positivity)).mpr ⟨?_, ?_⟩
  · rw [Nat.pow_add]
    exact Nat.mul_le_mul_right _ (Nat.log2_self_le pos.ne')
  · rw [show m.log2 + k + 1 = m.log2 + 1 + k by omega, Nat.pow_add]
    exact Nat.mul_lt_mul_of_pos_right Nat.lt_log2_self (Nat.two_pow_pos k)

theorem mantissa_shiftRight (em : ExtendedMantissa) (k : Nat) :
    (em >>> k).mantissa = em.mantissa / 2 ^ k := by
  show (Nat.repeat ExtendedMantissa.shiftRightOne k em).mantissa = _
  induction k with
  | zero => simp [Nat.repeat]
  | succ k ih =>
    show (Nat.repeat ExtendedMantissa.shiftRightOne k em).mantissa / 2 = _
    rw [ih, Nat.div_div_eq_div_mul, Nat.pow_succ]

/-- Nothing is lost while only zeros are shifted out. -/
theorem exact_shiftRight (m k : Nat) :
    (⟨m * 2 ^ k, false, false⟩ : ExtendedMantissa) >>> k = ⟨m, false, false⟩ := by
  show Nat.repeat ExtendedMantissa.shiftRightOne k ⟨m * 2 ^ k, false, false⟩ = _
  induction k generalizing m with
  | zero => simp [Nat.repeat]
  | succ k ih =>
    have hstep : m * 2 ^ (k + 1) = m * 2 * 2 ^ k := by ring
    rw [hstep]
    show ExtendedMantissa.shiftRightOne (Nat.repeat _ k _) = _
    rw [ih]
    simp [ExtendedMantissa.shiftRightOne]

theorem totalExponent_mul_pow {m k : Nat} {e : Int} (pos : 0 < m) :
    totalExponent (m * 2 ^ k) e = totalExponent m (e + k) := by
  simp only [totalExponent, log2_mul_pow pos, Nat.cast_add]
  ring

theorem shiftToTargetExponent_canonical {m k : Nat} {e : Int} (h : IsCanonical spec m (e + k)) :
    shiftToTargetExponent spec (m * 2 ^ k) e .exact = (⟨m, false, false⟩, e + k) := by
  have hshift : (e + k - e).toNat = k := by omega
  simp only [shiftToTargetExponent, shiftToExponent, totalExponent_mul_pow h.pos, h.target,
    ExtendedMantissa.ofMantissaAndAccuracy, hshift, exact_shiftRight]

/-- Bits are dropped from the mantissa until it is canonical. -/
theorem roundWithAccuracy_canonical {m k : Nat} {e : Int} (s : Sign)
    (h : IsCanonical spec m (e + k)) :
    roundWithAccuracy spec s (m * 2 ^ k) e .exact = .finite s m (e + k) h.pos := by
  have hsecond : shiftToTargetExponent spec m (e + k) .exact = (⟨m, false, false⟩, e + k) := by
    have hzero : IsCanonical spec m (e + k + (0 : Nat)) := by simpa using h
    simpa using shiftToTargetExponent_canonical hzero
  have hrounded : (⟨m, false, false⟩ : ExtendedMantissa).roundedMantissa = m := rfl
  simp only [roundWithAccuracy, shiftToTargetExponent_canonical h, hrounded, hsecond]
  rw [dif_neg h.pos.ne']

/-! ## Values -/

/-- The value of a sign, a mantissa and an exponent. -/
def partsValue (s : Sign) (m : Nat) (e : Int) : ℚ := (s.apply m : ℤ) * 2 ^ e

/-- The value of an unpacked number. Infinities have none. -/
def valueOf : UnpackedFloat → Option ℚ
  | .zero _ => some 0
  | .finite s m e _ => some (partsValue s m e)
  | .infinity _ | .notANumber => none

theorem log_value_eq {m : Nat} (pos : 0 < m) (e : Int) :
    Int.log 2 ((m : ℚ) * 2 ^ e) = m.log2 + e := by
  have hpos : (0 : ℚ) < 2 ^ e := by positivity
  have hlow : (2 : ℚ) ^ (m.log2 + e) ≤ m * 2 ^ e := by
    rw [zpow_add₀ (by norm_num), zpow_natCast]
    exact mul_le_mul_of_nonneg_right (by exact_mod_cast Nat.log2_self_le pos.ne') hpos.le
  have hhigh : (m : ℚ) * 2 ^ e < 2 ^ (m.log2 + e + 1) := by
    rw [show (m.log2 : ℤ) + e + 1 = ((m.log2 + 1 : ℕ) : ℤ) + e by push_cast; ring,
      zpow_add₀ (by norm_num), zpow_natCast]
    exact mul_lt_mul_of_pos_right (by exact_mod_cast Nat.lt_log2_self) hpos
  have hvalue : (0 : ℚ) < m * 2 ^ e := by positivity
  refine le_antisymm ?_ ?_
  · exact Int.lt_add_one_iff.mp ((Int.lt_zpow_iff_log_lt (by decide) hvalue).mp hhigh)
  · exact (Int.zpow_le_iff_le_log (by decide) hvalue).mp hlow

/-- Writings of one value have their leading bit in the same place. -/
theorem totalExponent_of_value {m n : Nat} {e f : Int} (hm : 0 < m) (hn : 0 < n)
    (h : (m : ℚ) * 2 ^ e = n * 2 ^ f) : totalExponent m e = totalExponent n f := by
  have hlog := congrArg (Int.log 2) h
  rw [log_value_eq hm, log_value_eq hn] at hlog
  simp only [totalExponent]
  omega

/-- The mantissa at a smaller exponent. -/
theorem mantissa_of_value {m n k : Nat} {e : Int}
    (h : (m : ℚ) * 2 ^ e = n * 2 ^ (e + k)) : m = n * 2 ^ k := by
  rw [zpow_add₀ (by norm_num), zpow_natCast, mul_left_comm, mul_comm] at h
  have hcancel := mul_left_cancel₀ (zpow_ne_zero e (by norm_num : (2 : ℚ) ≠ 0)) h
  exact_mod_cast hcancel

variable {m : Nat} {e : Int}

/-- Rounding finds the canonical form of a value. -/
theorem round_of_value {n : Nat} {f : Int} (s : Sign) (h : IsCanonical spec m e) (pos : 0 < n)
    (hvalue : (n : ℚ) * 2 ^ f = m * 2 ^ e) :
    UnpackedFloat.round spec s n f = .finite s m e h.pos := by
  have htarget : spec.targetExponent (totalExponent n f) = e := by
    rw [totalExponent_of_value pos h.pos hvalue, h.target]
  simp only [UnpackedFloat.round, htarget, decreaseExponent]
  rcases Int.le_total e f with hle | hle
  · -- The mantissa gets more bits, and they are those of the canonical one.
    obtain ⟨k, rfl⟩ := Int.le.dest hle
    have hm : m = n * 2 ^ k := mantissa_of_value hvalue.symm
    have hshift : (e + k - e).toNat = k := by omega
    have hexp : e + (k : Int) - k = e := by omega
    have hround := roundWithAccuracy_canonical (k := 0) (e := e) s (by simpa using h)
    simp only [Nat.pow_zero, Nat.mul_one, Int.natCast_zero, Int.add_zero] at hround
    rw [hshift, hexp, Nat.shiftLeft_eq, ← hm, hround]
  · obtain ⟨k, rfl⟩ := Int.le.dest hle
    have hn : n = m * 2 ^ k := mantissa_of_value hvalue
    have hshift : (f - (f + (k : Int))).toNat = 0 := by omega
    rw [hshift, Nat.shiftLeft_zero, Int.natCast_zero, Int.sub_zero, hn,
      roundWithAccuracy_canonical s h]

/-- Where there are bits enough, rounding finds the canonical form without adding any. -/
theorem roundWithAccuracy_of_value {n : Nat} {f : Int} (s : Sign) (h : IsCanonical spec m e)
    (hle : f ≤ e) (hvalue : (n : ℚ) * 2 ^ f = m * 2 ^ e) :
    roundWithAccuracy spec s n f .exact = .finite s m e h.pos := by
  obtain ⟨k, rfl⟩ := Int.le.dest hle
  rw [mantissa_of_value hvalue, roundWithAccuracy_canonical s h]

/-! ## Packing -/

theorem toNat_implicit_append {w m : Nat} (h : m.log2 = w) (pos : 0 < m) :
    (1#1 ++ BitVec.ofNat w m).toNat = m := by
  have hlow : 2 ^ w ≤ m := h ▸ Nat.log2_self_le pos.ne'
  have hhigh : m < 2 ^ w * 2 := by
    rw [← Nat.pow_succ, ← h]
    exact Nat.lt_log2_self
  have hm : (BitVec.ofNat w m).toNat = m - 2 ^ w := by
    rw [BitVec.toNat_ofNat, Nat.mod_eq_sub_mod hlow, Nat.mod_eq_of_lt (by omega)]
  rw [BitVec.toNat_append, ← Nat.shiftLeft_add_eq_or_of_lt (BitVec.isLt _), hm]
  simp only [BitVec.toNat_ofNat, Nat.shiftLeft_eq]
  omega

theorem neg_one_ne_of_lt {w n : Nat} (h : n + 1 < 2 ^ w) : BitVec.ofNat w n ≠ -1#w := by
  intro heq
  have hnat := congrArg BitVec.toNat heq
  rw [BitVec.neg_one_eq_allOnes, BitVec.toNat_allOnes, BitVec.toNat_ofNat,
    Nat.mod_eq_of_lt (by omega)] at hnat
  omega

/-- Packing keeps what is canonical, if there is room for the exponent. -/
theorem unpack_pack_canonical (s : Sign) (h : IsCanonical spec m e) (room : HasRoom spec e) :
    UnpackedFloat.unpack spec (UnpackedFloat.pack spec (.finite s m e h.pos))
      = .finite s m e h.pos := by
  have hleast := h.least
  have hmin := minExponent_eq spec
  obtain ⟨b, hb⟩ : ∃ b : Nat, e + spec.exponentBias + spec.mantissaBitsWithoutImplicit = b :=
    ⟨_, (Int.toNat_of_nonneg (by omega)).symm⟩
  have hroom : b + 1 < 2 ^ spec.exponentBits := by
    have := room
    rw [HasRoom, hb] at this
    exact_mod_cast this
  have hbiased : (e + spec.exponentBias + spec.mantissaBitsWithoutImplicit).toNat = b := by omega
  have hbits : (BitVec.ofNat spec.exponentBits b).toNat = b := by
    rw [BitVec.toNat_ofNat, Nat.mod_eq_of_lt (by omega)]
  have hfull := neg_one_ne_of_lt hroom
  simp only [UnpackedFloat.pack, hbiased]
  rw [if_neg (by omega)]
  rcases h.bits with hlog | ⟨hlog, hexp⟩
  · have hnonzero : BitVec.ofNat spec.exponentBits b ≠ BitVec.ofNat spec.exponentBits 0 := by
      intro h0
      have hnat := congrArg BitVec.toNat h0
      rw [hbits, BitVec.toNat_ofNat, Nat.zero_mod] at hnat
      omega
    have hvalue : (b : Int) - (spec.exponentBias + spec.mantissaBitsWithoutImplicit) = e := by
      omega
    rw [if_pos (by rw [hlog, Format.mantissaBits, Nat.add_comm])]
    simp only [UnpackedFloat.unpack, unpackMantissa_packComponents, unpackExponent_packComponents,
      unpackSign_packComponents, Sign.ofBitVec_toBitVec, hfull, hnonzero, ↓reduceIte, hbits, hvalue,
      toNat_implicit_append hlog h.pos]
  · have hm : (BitVec.ofNat spec.mantissaBitsWithoutImplicit m).toNat = m := by
      rw [BitVec.toNat_ofNat, Nat.mod_eq_of_lt ((Nat.log2_lt h.pos.ne').mp hlog)]
    have hnonzero : BitVec.ofNat spec.mantissaBitsWithoutImplicit m
        ≠ BitVec.ofNat spec.mantissaBitsWithoutImplicit 0 := fun h0 => by
      have hnat := congrArg BitVec.toNat h0
      rw [hm, BitVec.toNat_ofNat, Nat.zero_mod] at hnat
      exact h.pos.ne' hnat
    have hzero : BitVec.ofNat spec.exponentBits 0 ≠ -BitVec.ofNat spec.exponentBits 1 :=
      neg_one_ne_of_lt (by omega)
    have hvalue : ((BitVec.ofNat spec.exponentBits 0).toNat : Int)
        - (spec.exponentBias + spec.mantissaBitsWithoutImplicit) + 1 = e := by
      rw [BitVec.toNat_ofNat, Nat.zero_mod]
      omega
    rw [if_neg (by rw [Format.mantissaBits]; omega)]
    simp only [UnpackedFloat.unpack, unpackMantissa_packComponents, unpackExponent_packComponents,
      unpackSign_packComponents, Sign.ofBitVec_toBitVec, hzero, hnonzero, ↓reduceIte, ↓reduceDIte,
      hm, hvalue]

/-- What is unpacked is canonical. -/
theorem canonical_of_unpack {b : BitVec spec.numBits} {s : Sign} {pos : 0 < m}
    (h : UnpackedFloat.unpack spec b = .finite s m e pos) : IsCanonical spec m e := by
  have hmin := minExponent_eq spec
  have hmant : (unpackMantissa b).toNat < 2 ^ spec.mantissaBitsWithoutImplicit := BitVec.isLt _
  refine ⟨pos, ?_⟩
  simp only [Format.targetExponent, totalExponent, Format.mantissaBits]
  simp only [UnpackedFloat.unpack] at h
  split at h
  · split at h <;> cases h
  · split at h
    · next hzero =>
      split at h
      · cases h
      · injection h with _ hm he
        have hlog : m.log2 < spec.mantissaBitsWithoutImplicit :=
          (Nat.log2_lt pos.ne').mpr (hm ▸ hmant)
        rw [hzero, BitVec.toNat_ofNat, Nat.zero_mod] at he
        omega
    · next hzero =>
      injection h with _ hm he
      have hexp : (unpackExponent b).toNat ≠ 0 := fun h0 =>
        hzero (BitVec.eq_of_toNat_eq (by rw [h0, BitVec.toNat_ofNat, Nat.zero_mod]))
      have hlog : m.log2 = spec.mantissaBitsWithoutImplicit := by
        rw [BitVec.toNat_append, ← Nat.shiftLeft_add_eq_or_of_lt (BitVec.isLt _),
          Nat.shiftLeft_eq] at hm
        simp only [BitVec.toNat_ofNat] at hm
        refine (Nat.log2_eq_iff pos.ne').mpr ⟨by omega, ?_⟩
        rw [Nat.pow_succ]
        omega
      omega

/-! ## Values that a format represents -/

/-- A format represents a value that has canonical parts, with room for the exponent. -/
inductive Represents (spec : Format) : ℚ → Prop
  /-- Zero. -/
  | zero : Represents spec 0
  /-- Any other value. -/
  | parts (s : Sign) {m : Nat} {e : Int} :
    IsCanonical spec m e → HasRoom spec e → Represents spec (partsValue s m e)

theorem abs_partsValue (s : Sign) (n : Nat) (e : Int) : |partsValue s n e| = n * 2 ^ e := by
  have hpos : (0 : ℚ) ≤ n * 2 ^ e := by positivity
  cases s <;> simp [partsValue, Sign.apply, abs_of_nonneg hpos]

theorem partsValue_pos_iff {s : Sign} (pos : 0 < m) : 0 < partsValue s m e ↔ s = .positive := by
  have hvalue : (0 : ℚ) < m * 2 ^ e := by positivity
  cases s with
  | positive => simp [partsValue, Sign.apply, hvalue]
  | negative => simp [partsValue, Sign.apply, hvalue.le]

theorem partsValue_ne_zero (s : Sign) (pos : 0 < m) : partsValue s m e ≠ 0 := by
  rw [← abs_ne_zero, abs_partsValue]
  positivity

/-- A value has only one canonical form. -/
theorem parts_of_value {s s' : Sign} {m' : Nat} {e' : Int} (h : IsCanonical spec m e)
    (h' : IsCanonical spec m' e') (heq : partsValue s m e = partsValue s' m' e') :
    s = s' ∧ m = m' ∧ e = e' := by
  have habs : (m : ℚ) * 2 ^ e = m' * 2 ^ e' := by
    rw [← abs_partsValue s, ← abs_partsValue s', heq]
  have he : e = e' := by rw [← h.target, ← h'.target, totalExponent_of_value h.pos h'.pos habs]
  subst he
  have hm : m = m' := by
    have := mul_right_cancel₀ (zpow_ne_zero e (by norm_num : (2 : ℚ) ≠ 0)) habs
    exact_mod_cast this
  have hsign : s = .positive ↔ s' = .positive := by
    rw [← partsValue_pos_iff h.pos, heq, partsValue_pos_iff h'.pos]
  refine ⟨?_, hm, rfl⟩
  cases s <;> cases s' <;> simp at hsign ⊢

/-- The value of a number whose mantissa has zeros at its end. -/
theorem partsValue_mul_pow (s : Sign) (m k : Nat) (e : Int) :
    partsValue s (m * 2 ^ k) e = partsValue s m (e + k) := by
  simp only [partsValue, zpow_add₀ (two_ne_zero (α := ℚ)), zpow_natCast]
  cases s <;> simp only [Sign.apply] <;> push_cast <;> ring

theorem partsValue_zero (s : Sign) (e : Int) : partsValue s 0 e = 0 := by
  cases s <;> simp [partsValue, Sign.apply]

/-- A format represents every value with a mantissa that fits. -/
theorem represents_partsValue (s : Sign) {n : Nat}
    (fits : n < 2 ^ (spec.mantissaBitsWithoutImplicit + 1)) (least : spec.minExponent ≤ e)
    (room : HasRoom spec e) : Represents spec (partsValue s n e) := by
  rcases Nat.eq_zero_or_pos n with rfl | pos
  · rw [partsValue_zero]
    exact .zero
  have hlog := (Nat.log2_lt pos.ne').mpr fits
  obtain ⟨t, ht⟩ : ∃ t, spec.targetExponent (totalExponent n e) = t := ⟨_, rfl⟩
  have hle : t ≤ e := by
    simp only [Format.targetExponent, totalExponent, Format.mantissaBits] at ht
    omega
  obtain ⟨k, rfl⟩ := Int.le.dest hle
  have hcanonical : IsCanonical spec (n * 2 ^ k) t :=
    ⟨Nat.mul_pos pos (Nat.two_pow_pos k), by rw [totalExponent_mul_pow pos, ht]⟩
  rw [← partsValue_mul_pow]
  refine .parts s hcanonical ?_
  simp only [HasRoom] at room ⊢
  omega

/-- A format represents every integer that fits into its mantissa, moved by a power of two. -/
theorem represents_intCast {n : Int} (fits : n.natAbs < 2 ^ (spec.mantissaBitsWithoutImplicit + 1))
    (least : spec.minExponent ≤ e) (room : HasRoom spec e) : Represents spec ((n : ℚ) * 2 ^ e) := by
  rcases Int.natAbs_eq n with hn | hn
  · have h := represents_partsValue .positive fits least room
    rwa [partsValue, Sign.apply, ← hn] at h
  · have h := represents_partsValue .negative fits least room
    rwa [partsValue, Sign.apply, ← hn] at h

/-- The value of a number after it was packed. -/
def packedValue (spec : Format) (u : UnpackedFloat) : Option ℚ :=
  valueOf (UnpackedFloat.unpack spec (UnpackedFloat.pack spec u))

/-- A value that the format represents survives packing. -/
theorem packedValue_canonical {s : Sign} (h : IsCanonical spec m e)
    (represented : Represents spec (partsValue s m e)) :
    packedValue spec (.finite s m e h.pos) = some (partsValue s m e) := by
  generalize hq : partsValue s m e = q at represented
  cases represented with
  | zero => exact absurd hq (partsValue_ne_zero s h.pos)
  | parts s' h' room =>
    obtain ⟨-, rfl, rfl⟩ := parts_of_value h h' hq
    rw [packedValue, unpack_pack_canonical s h room, valueOf, hq]

theorem packedValue_zero (spec : Format) (s : Sign) : packedValue spec (.zero s) = some 0 := by
  have hzero : BitVec.ofNat spec.exponentBits 0 ≠ -BitVec.ofNat spec.exponentBits 1 :=
    neg_one_ne_of_lt (by have := Nat.one_lt_two_pow spec.he.ne'; omega)
  have hpack : UnpackedFloat.pack spec (.zero s) = packComponents spec s 0 0 := rfl
  simp [packedValue, hpack, UnpackedFloat.unpack, hzero, valueOf]

/-- Of a value that the format represents, rounding gives the canonical form. -/
theorem exists_canonical {q : ℚ} (represented : Represents spec q) (hq : q ≠ 0) :
    ∃ s m e, IsCanonical spec m e ∧ q = partsValue s m e := by
  cases represented with
  | zero => exact absurd rfl hq
  | parts s h _ => exact ⟨s, _, _, h, rfl⟩

theorem packedValue_normalize {n : Int} {q : ℚ} (z : Sign) (represented : Represents spec q)
    (hvalue : (n : ℚ) * 2 ^ e = q) : packedValue spec (normalize spec n e z) = some q := by
  rcases eq_or_ne q 0 with rfl | hq
  · have hn : n = 0 := by
      have := (mul_eq_zero.mp hvalue).resolve_right (zpow_ne_zero e (by norm_num))
      exact_mod_cast this
    rw [hn]
    exact packedValue_zero spec z
  obtain ⟨s, m, e', h, rfl⟩ := exists_canonical represented hq
  have habs : (n.natAbs : ℚ) * 2 ^ e = m * 2 ^ e' := by
    rw [← abs_partsValue s m, ← hvalue, abs_mul, abs_of_pos (show (0 : ℚ) < 2 ^ e by positivity),
      Nat.cast_natAbs, Int.cast_abs]
  have hsign : s = .positive ↔ 0 < n := by
    rw [← partsValue_pos_iff h.pos, ← hvalue, mul_pos_iff_of_pos_right (by positivity)]
    exact_mod_cast Iff.rfl
  have hne : n ≠ 0 := by
    rintro rfl
    rw [Int.cast_zero, zero_mul] at hvalue
    exact hq hvalue.symm
  have hround := round_of_value s h (Int.natAbs_pos.mpr hne) habs
  have hnormal : normalize spec n e z = .finite s m e' h.pos := by
    cases s with
    | positive =>
      have hpos : 0 < n := hsign.mp rfl
      rw [UnpackedFloat.normalize, Int.compare_eq_gt.mpr hpos, show n.toNat = n.natAbs by omega,
        hround]
    | negative =>
      have hneg : n < 0 := by
        have : ¬ 0 < n := fun hpos => absurd (hsign.mpr hpos) (by simp)
        omega
      rw [UnpackedFloat.normalize, Int.compare_eq_lt.mpr hneg,
        show (-n).toNat = n.natAbs by omega, hround]
  rw [hnormal, packedValue_canonical h represented]

/-! ## Operations -/

/-- The parts of a finite number are canonical. -/
def HasCanonicalParts (spec : Format) (u : UnpackedFloat) : Prop :=
  ∀ s m e pos, u = .finite s m e pos → IsCanonical spec m e

variable {u v : UnpackedFloat} {p q : ℚ}

/-- The value of a number brought to a smaller exponent. -/
theorem partsValue_shiftLeft (s : Sign) (m : Nat) {e f : Int} (hle : f ≤ e) :
    partsValue s (m <<< (e - f).toNat) f = partsValue s m e := by
  obtain ⟨k, rfl⟩ := Int.le.dest hle
  have hshift : (f + k - f).toNat = k := by omega
  rw [hshift, Nat.shiftLeft_eq, partsValue_mul_pow]

/-- The number of a sign. -/
def signValue (s : Sign) : ℚ := (s.apply 1 : ℤ)

theorem signValue_neg (s : Sign) : signValue (-s) = -signValue s := by
  cases s <;> rfl

theorem signValue_mul (s t : Sign) : signValue (s * t) = signValue s * signValue t := by
  cases s <;> cases t <;> decide +kernel

theorem signValue_div (s t : Sign) : signValue (s / t) = signValue s / signValue t := by
  cases s <;> cases t <;> decide +kernel

theorem partsValue_eq (s : Sign) (m : Nat) (e : Int) :
    partsValue s m e = signValue s * (m * 2 ^ e) := by
  cases s <;> simp [partsValue, signValue, Sign.apply]

theorem partsValue_neg (s : Sign) (m : Nat) (e : Int) :
    partsValue (-s) m e = -partsValue s m e := by
  rw [partsValue_eq, partsValue_eq, signValue_neg, neg_mul]

/-- A difference that the format represents is not rounded. -/
theorem packedValue_sub (hu : HasCanonicalParts spec u) (hv : HasCanonicalParts spec v)
    (hp : valueOf u = some p) (hq : valueOf v = some q) (represented : Represents spec (p - q)) :
    packedValue spec (UnpackedFloat.sub spec u v) = some (p - q) := by
  cases u with
  | infinity _ => cases hp
  | notANumber => cases hp
  | zero s =>
    cases hp
    cases v with
    | infinity _ => cases hq
    | notANumber => cases hq
    | zero s' =>
      cases hq
      simp only [UnpackedFloat.sub, sub_self]
      split <;> exact packedValue_zero spec _
    | finite s' m' e' pos' =>
      cases hq
      rw [zero_sub, ← partsValue_neg] at represented ⊢
      exact packedValue_canonical (hv _ _ _ _ rfl) represented
  | finite s m e pos =>
    cases hp
    cases v with
    | infinity _ => cases hq
    | notANumber => cases hq
    | zero s' =>
      cases hq
      rw [sub_zero] at represented ⊢
      exact packedValue_canonical (hu _ _ _ _ rfl) represented
    | finite s' m' e' pos' =>
      cases hq
      refine packedValue_normalize .positive represented ?_
      rw [Int.cast_sub, sub_mul, ← partsValue_shiftLeft s m (min_le_left e e'),
        ← partsValue_shiftLeft s' m' (min_le_right e e')]
      rfl

/-- The exponent of a product is no smaller than the sum of the exponents. -/
theorem add_le_of_product {m₁ m₂ : Nat} {e₁ e₂ : Int} (h₁ : IsCanonical spec m₁ e₁)
    (h₂ : IsCanonical spec m₂ e₂) (h : IsCanonical spec m e)
    (hvalue : ((m₁ * m₂ : Nat) : ℚ) * 2 ^ (e₁ + e₂) = m * 2 ^ e) : e₁ + e₂ ≤ e := by
  have htarget := h.target
  rw [← totalExponent_of_value (Nat.mul_pos h₁.pos h₂.pos) h.pos hvalue] at htarget
  have hmin := minExponent_eq spec
  have hbits := spec.hm
  have hne : m₁ * m₂ ≠ 0 := (Nat.mul_pos h₁.pos h₂.pos).ne'
  have hlog₁ : m₁.log2 ≤ (m₁ * m₂).log2 := (Nat.le_log2 hne).mpr
    ((Nat.log2_self_le h₁.pos.ne').trans (Nat.le_mul_of_pos_right _ h₂.pos))
  have hlog₂ : m₂.log2 ≤ (m₁ * m₂).log2 := (Nat.le_log2 hne).mpr
    ((Nat.log2_self_le h₂.pos.ne').trans (Nat.le_mul_of_pos_left _ h₁.pos))
  simp only [Format.targetExponent, totalExponent, Format.mantissaBits] at htarget
  rcases h₁.bits with hfull | hleast
  · omega
  · rcases h₂.bits with hfull | hleast'
    · omega
    · omega

theorem partsValue_mul (s₁ s₂ : Sign) (m₁ m₂ : Nat) (e₁ e₂ : Int) :
    partsValue s₁ m₁ e₁ * partsValue s₂ m₂ e₂ = partsValue (s₁ * s₂) (m₁ * m₂) (e₁ + e₂) := by
  simp only [partsValue_eq, signValue_mul, Nat.cast_mul, zpow_add₀ (two_ne_zero (α := ℚ))]
  ring

/-- The sign of a value is that of any of its writings. -/
theorem sign_of_value {s s' : Sign} {m' : Nat} {e' : Int} (pos : 0 < m) (pos' : 0 < m')
    (heq : partsValue s m e = partsValue s' m' e') : s = s' := by
  have hsign : s = .positive ↔ s' = .positive := by
    rw [← partsValue_pos_iff pos, heq, partsValue_pos_iff pos']
  cases s <;> cases s' <;> simp at hsign ⊢

/-- A product that the format represents is not rounded. -/
theorem packedValue_mul (hu : HasCanonicalParts spec u) (hv : HasCanonicalParts spec v)
    (hp : valueOf u = some p) (hq : valueOf v = some q) (represented : Represents spec (p * q)) :
    packedValue spec (UnpackedFloat.mul spec u v) = some (p * q) := by
  cases u with
  | infinity _ => cases hp
  | notANumber => cases hp
  | zero s =>
    cases hp
    rw [zero_mul]
    cases v with
    | infinity _ => cases hq
    | notANumber => cases hq
    | zero s' => exact packedValue_zero spec _
    | finite s' m' e' pos' => exact packedValue_zero spec _
  | finite s m e pos =>
    cases hp
    cases v with
    | infinity _ => cases hq
    | notANumber => cases hq
    | zero s' =>
      cases hq
      rw [mul_zero]
      exact packedValue_zero spec _
    | finite s' m' e' pos' =>
      cases hq
      rw [partsValue_mul] at represented ⊢
      have hpos := Nat.mul_pos pos pos'
      obtain ⟨t, n, f, h, heq⟩ := exists_canonical represented (partsValue_ne_zero _ hpos)
      obtain rfl := sign_of_value hpos h.pos heq
      have habs : ((m * m' : Nat) : ℚ) * 2 ^ (e + e') = n * 2 ^ f := by
        rw [← abs_partsValue (s * s'), ← abs_partsValue (s * s') n, heq]
      have hle := add_le_of_product (hu _ _ _ _ rfl) (hv _ _ _ _ rfl) h habs
      rw [heq] at represented ⊢
      simp only [UnpackedFloat.mul, roundWithAccuracy_of_value _ h hle habs]
      exact packedValue_canonical h represented

theorem partsValue_div (s₁ s₂ : Sign) (m₁ m₂ : Nat) (e₁ e₂ : Int) :
    partsValue s₁ m₁ e₁ / partsValue s₂ m₂ e₂
      = signValue (s₁ / s₂) * (m₁ * 2 ^ e₁ / (m₂ * 2 ^ e₂)) := by
  rw [partsValue_eq, partsValue_eq, signValue_div, mul_div_mul_comm]

/-- The total exponent of a product is no larger than the sum of those of its factors. -/
theorem totalExponent_product_le {m₁ m₂ : Nat} {e₁ e₂ : Int} (pos₁ : 0 < m₁) (pos₂ : 0 < m₂) :
    totalExponent (m₁ * m₂) (e₁ + e₂) ≤ totalExponent m₁ e₁ + totalExponent m₂ e₂ := by
  have hlog : (m₁ * m₂).log2 < m₁.log2 + 1 + (m₂.log2 + 1) := by
    refine (Nat.log2_lt (Nat.mul_pos pos₁ pos₂).ne').mpr ?_
    rw [Nat.pow_add]
    exact Nat.mul_lt_mul'' Nat.lt_log2_self Nat.lt_log2_self
  simp only [totalExponent]
  omega

/-- A quotient that the format represents leaves no remainder. -/
theorem divCore_of_value {m₁ m₂ : Nat} {e₁ e₂ : Int} (pos₁ : 0 < m₁) (pos₂ : 0 < m₂)
    (h : IsCanonical spec m e)
    (hvalue : (m₁ : ℚ) * 2 ^ e₁ = ((m * m₂ : Nat) : ℚ) * 2 ^ (e + e₂)) :
    ∃ f, f ≤ e ∧ divCore spec m₁ e₁ m₂ e₂ = (m * 2 ^ (e - f).toNat, f, .exact) := by
  set f := min (e₁ - e₂) (spec.targetExponent (totalExponent m₁ e₁ - totalExponent m₂ e₂)) with hf
  have hle : f ≤ e := by
    have htotal := totalExponent_of_value pos₁ (Nat.mul_pos h.pos pos₂) hvalue
    have hproduct : totalExponent (m * m₂) (e + e₂) ≤ totalExponent m e + totalExponent m₂ e₂ :=
      totalExponent_product_le h.pos pos₂
    have htarget := h.target
    simp only [Format.targetExponent] at htarget hf
    omega
  refine ⟨f, hle, ?_⟩
  obtain ⟨k, hk⟩ := Int.le.dest hle
  obtain ⟨j, hj⟩ := Int.le.dest (show f ≤ e₁ - e₂ from min_le_left _ _)
  have hm : m₁ <<< (e₁ - e₂ - f).toNat = m * 2 ^ k * m₂ := by
    have hshift : (e₁ - e₂ - f).toNat = j := by omega
    have hexp : e₁ = f + e₂ + j := by omega
    have hexp' : e + e₂ = f + e₂ + k := by omega
    rw [hexp, hexp', zpow_add₀ (by norm_num), zpow_add₀ (by norm_num : (2 : ℚ) ≠ 0) (f + e₂) k,
      zpow_natCast, zpow_natCast] at hvalue
    have hne : (2 : ℚ) ^ (f + e₂) ≠ 0 := zpow_ne_zero _ (by norm_num)
    have hcancel : (m₁ : ℚ) * 2 ^ j = ((m * m₂ : Nat) : ℚ) * 2 ^ k := by
      refine mul_left_cancel₀ hne ?_
      linear_combination hvalue
    rw [hshift, Nat.shiftLeft_eq, Nat.mul_right_comm]
    exact_mod_cast hcancel
  have hk' : (e - f).toNat = k := by omega
  simp only [divCore, ← hf, hm, Nat.mul_div_cancel _ pos₂, Nat.mul_mod_left, accuracyOfFraction,
    hk']
  rfl

/-- A quotient that the format represents is not rounded. -/
theorem packedValue_div (hp : valueOf u = some p) (hq : valueOf v = some q) (hne : q ≠ 0)
    (represented : Represents spec (p / q)) :
    packedValue spec (UnpackedFloat.div spec u v) = some (p / q) := by
  cases v with
  | infinity _ => cases hq
  | notANumber => cases hq
  | zero s' =>
    cases hq
    exact absurd rfl hne
  | finite s' m' e' pos' =>
    cases hq
    cases u with
    | infinity _ => cases hp
    | notANumber => cases hp
    | zero s =>
      cases hp
      rw [zero_div]
      exact packedValue_zero spec _
    | finite s m e pos =>
      cases hp
      have hnonzero : partsValue s m e / partsValue s' m' e' ≠ 0 :=
        div_ne_zero (partsValue_ne_zero s pos) hne
      obtain ⟨t, n, f, h, heq⟩ := exists_canonical represented hnonzero
      have habs : (m : ℚ) * 2 ^ e / (m' * 2 ^ e') = n * 2 ^ f := by
        rw [← abs_partsValue s, ← abs_partsValue s' m', ← abs_div, heq, abs_partsValue]
      have hsign : s / s' = t := by
        rw [partsValue_div, habs, ← partsValue_eq] at heq
        exact sign_of_value h.pos h.pos heq
      have hvalue : (m : ℚ) * 2 ^ e = ((n * m' : Nat) : ℚ) * 2 ^ (f + e') := by
        rw [div_eq_iff (by positivity)] at habs
        rw [habs, zpow_add₀ (by norm_num)]
        push_cast
        ring
      obtain ⟨g, hle, hcore⟩ := divCore_of_value pos pos' h hvalue
      obtain ⟨k, rfl⟩ := Int.le.dest hle
      have hshift : (g + k - g).toNat = k := by omega
      rw [hshift] at hcore
      rw [heq] at represented ⊢
      simp only [UnpackedFloat.div, hcore, hsign, roundWithAccuracy_canonical t h]
      exact packedValue_canonical h represented

/-! ## Comparisons -/

/-- Of two canonical numbers the one with the larger exponent is larger. -/
theorem value_lt_of_exponent_lt {m' : Nat} {e' : Int} (h : IsCanonical spec m e)
    (h' : IsCanonical spec m' e') (hlt : e < e') : (m : ℚ) * 2 ^ e < m' * 2 ^ e' := by
  have hfull : m'.log2 = spec.mantissaBitsWithoutImplicit :=
    h'.bits.resolve_right fun hleast => by have := h.least; omega
  have hlow : 2 ^ spec.mantissaBitsWithoutImplicit ≤ m' :=
    hfull ▸ Nat.log2_self_le h'.pos.ne'
  calc (m : ℚ) * 2 ^ e < (2 ^ (spec.mantissaBitsWithoutImplicit + 1) : Nat) * 2 ^ e :=
        mul_lt_mul_of_pos_right (by exact_mod_cast h.lt_pow) (by positivity)
    _ = (2 ^ spec.mantissaBitsWithoutImplicit : Nat) * 2 ^ (e + 1) := by
        rw [zpow_add_one₀ (by norm_num)]
        push_cast
        ring
    _ ≤ m' * 2 ^ e' :=
        mul_le_mul (by exact_mod_cast hlow) (zpow_le_zpow_right₀ (by norm_num) (by omega))
          (by positivity) (by positivity)

theorem compare_parts {m' : Nat} {e' : Int} (h : IsCanonical spec m e)
    (h' : IsCanonical spec m' e') :
    (compare e e').then (compare m m') = compare ((m : ℚ) * 2 ^ e) (m' * 2 ^ e') := by
  rcases lt_trichotomy e e' with hlt | rfl | hlt
  · rw [compare_lt_iff_lt.mpr hlt, compare_lt_iff_lt.mpr (value_lt_of_exponent_lt h h' hlt)]
    rfl
  · have hpos : (0 : ℚ) < 2 ^ e := by positivity
    rw [compare_eq_iff_eq.mpr rfl, Ordering.then]
    rcases lt_trichotomy m m' with hlt | rfl | hlt
    · rw [compare_lt_iff_lt.mpr hlt,
        compare_lt_iff_lt.mpr (mul_lt_mul_of_pos_right (by exact_mod_cast hlt) hpos)]
    · rw [compare_eq_iff_eq.mpr rfl, compare_eq_iff_eq.mpr rfl]
    · rw [compare_gt_iff_gt.mpr hlt,
        compare_gt_iff_gt.mpr (mul_lt_mul_of_pos_right (by exact_mod_cast hlt) hpos)]
  · rw [compare_gt_iff_gt.mpr hlt, compare_gt_iff_gt.mpr (value_lt_of_exponent_lt h' h hlt)]
    rfl

theorem partsValue_positive (m : Nat) (e : Int) : partsValue .positive m e = m * 2 ^ e := by
  simp [partsValue, Sign.apply]

theorem partsValue_negative (m : Nat) (e : Int) : partsValue .negative m e = -(m * 2 ^ e) := by
  simp [partsValue, Sign.apply]

theorem partsValue_negative_lt (pos : 0 < m) : partsValue .negative m e < 0 := by
  rw [partsValue_negative, neg_lt_zero]
  positivity

theorem compare_neg_neg (a b : ℚ) : compare (-a) (-b) = (compare a b).swap := by
  rcases lt_trichotomy a b with h | rfl | h
  · rw [compare_lt_iff_lt.mpr h, compare_gt_iff_gt.mpr (neg_lt_neg h)]
    rfl
  · rw [compare_eq_iff_eq.mpr rfl, compare_eq_iff_eq.mpr rfl]
    rfl
  · rw [compare_gt_iff_gt.mpr h, compare_lt_iff_lt.mpr (neg_lt_neg h)]
    rfl

/-- Numbers are compared by their values. -/
theorem compare_of_value (hu : HasCanonicalParts spec u) (hv : HasCanonicalParts spec v)
    (hp : valueOf u = some p) (hq : valueOf v = some q) :
    UnpackedFloat.compare u v = some (compare p q) := by
  have hpositive {m : Nat} {e : Int} (pos : 0 < m) : 0 < partsValue .positive m e :=
    (partsValue_pos_iff pos).mpr rfl
  cases u with
  | infinity _ => cases hp
  | notANumber => cases hp
  | zero s =>
    cases hp
    cases v with
    | infinity _ => cases hq
    | notANumber => cases hq
    | zero s' =>
      cases hq
      exact congrArg some (compare_eq_iff_eq.mpr rfl).symm
    | finite s' m' e' pos' =>
      cases hq
      cases s' with
      | positive => exact congrArg some (compare_lt_iff_lt.mpr (hpositive pos')).symm
      | negative => exact congrArg some (compare_gt_iff_gt.mpr (partsValue_negative_lt pos')).symm
  | finite s m e pos =>
    cases hp
    cases v with
    | infinity _ => cases hq
    | notANumber => cases hq
    | zero s' =>
      cases hq
      cases s with
      | positive => exact congrArg some (compare_gt_iff_gt.mpr (hpositive pos)).symm
      | negative => exact congrArg some (compare_lt_iff_lt.mpr (partsValue_negative_lt pos)).symm
    | finite s' m' e' pos' =>
      cases hq
      have hparts := compare_parts (hu _ _ _ _ rfl) (hv _ _ _ _ rfl)
      cases s with
      | positive =>
        cases s' with
        | positive =>
          rw [partsValue_positive, partsValue_positive, ← hparts]
          rfl
        | negative =>
          have hlt := (partsValue_negative_lt (e := e') pos').trans (hpositive (e := e) pos)
          exact congrArg some (compare_gt_iff_gt.mpr hlt).symm
      | negative =>
        cases s' with
        | positive =>
          have hlt := (partsValue_negative_lt (e := e) pos).trans (hpositive (e := e') pos')
          exact congrArg some (compare_lt_iff_lt.mpr hlt).symm
        | negative =>
          rw [partsValue_negative, partsValue_negative, compare_neg_neg, ← hparts]
          rfl

/-! ## Whole parts -/

theorem roundToInt_positive (m : Nat) (e : Int) :
    roundToInt .positive m e = ((m * 2 ^ e.toNat / 2 ^ (-e).toNat : Nat) : Int) := by
  have hleft : (e - 0).toNat = e.toNat := by omega
  have hright : (0 - (e - ((e.toNat : Nat) : Int))).toNat = (-e).toNat := by omega
  simp only [roundToInt, decreaseExponent, shiftToExponent, mantissa_shiftRight,
    ExtendedMantissa.ofMantissaAndAccuracy, Sign.apply, Nat.shiftLeft_eq, hleft, hright]

theorem floor_value (m : Nat) (e : Int) :
    ⌊(m : ℚ) * 2 ^ e⌋₊ = m * 2 ^ e.toNat / 2 ^ (-e).toNat := by
  have hpow : (2 : ℚ) ^ e = 2 ^ e.toNat / 2 ^ (-e).toNat := by
    rw [eq_div_iff (by positivity), ← zpow_natCast, ← zpow_natCast, ← zpow_add₀ (by norm_num),
      show e + ((-e).toNat : Int) = (e.toNat : Int) by omega]
  rw [hpow, ← mul_div_assoc]
  exact_mod_cast Nat.floor_div_eq_div (K := ℚ) (m * 2 ^ e.toNat) (2 ^ (-e).toNat)

/-- What is not below zero is zero or has a positive sign. -/
theorem unpacked_of_nonneg (hp : valueOf u = some p) (low : 0 ≤ p) :
    (∃ s, u = .zero s ∧ p = 0) ∨
      ∃ m e, ∃ pos : 0 < m, u = .finite .positive m e pos ∧ p = m * 2 ^ e := by
  cases u with
  | infinity _ => cases hp
  | notANumber => cases hp
  | zero s =>
    cases hp
    exact .inl ⟨s, rfl, rfl⟩
  | finite s m e pos =>
    cases hp
    cases s with
    | negative => exact absurd low (not_le.mpr (partsValue_negative_lt pos))
    | positive => exact .inr ⟨m, e, pos, rfl, partsValue_positive m e⟩

/-- The whole part of a number that is no larger than a machine word can count. -/
theorem toUInt64_of_value (hp : valueOf u = some p) (low : 0 ≤ p) (high : p < 2 ^ 64) :
    u.toUInt64.toNat = ⌊p⌋₊ := by
  rcases unpacked_of_nonneg hp low with ⟨s, rfl, rfl⟩ | ⟨m, e, pos, rfl, rfl⟩
  · exact Nat.floor_zero.symm
  · have hbound : ⌊(m : ℚ) * 2 ^ e⌋₊ < 2 ^ 64 := (Nat.floor_lt' (by decide)).mpr (by
      exact_mod_cast high)
    rw [floor_value] at hbound ⊢
    simp only [UnpackedFloat.toUInt64, UnpackedFloat.toInt, roundToInt_positive,
      Int.toNat_natCast]
    rw [UInt64.ofNatClamp_eq_ofNat _ hbound, UInt64.toNat_ofNat', Nat.mod_eq_of_lt hbound]

end Midframe
