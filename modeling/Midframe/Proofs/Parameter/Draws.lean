import Mathlib
import Midframe.Parameter.Seed
import Midframe.Proofs.Scalar.Sample

/-!
# Draws

A generator holds a state of 64 bits. A draw moves the state on by an odd step and mixes it. Mixing
is reversible, since each of its parts is: a word xored with itself shifted, and a product with an
odd number. The states run through all words before they come back, so the draws of one seed differ
up to that point, and those of two seeds differ at every place.

The number that is selected by the top 24 bits of a word needs none of the bits that single
precision lacks, so that it is exact.
-/

namespace Midframe

namespace Draw

open Function

/-! ## Reversible parts -/

/-- A word xored with itself, shifted to the right, can be told again from the bits that are
left. -/
theorem xorShift_injective {k : UInt64} (pos : 0 < k.toNat % 64) :
    Injective fun z : UInt64 => z ^^^ (z >>> k) := by
  intro x y h
  have hshift : (x ^^^ y) >>> k = x ^^^ y := by
    rw [UInt64.shiftRight_xor, ← UInt64.xor_eq_zero_iff]
    have hzero : (x ^^^ (x >>> k)) ^^^ (y ^^^ (y >>> k)) = 0 := UInt64.xor_eq_zero_iff.mpr h
    rw [← hzero]
    ac_rfl
  -- The difference of the two words is not changed by a shift, which leaves it no bit at all.
  have hnat : (x ^^^ y).toNat / 2 ^ (k.toNat % 64) = (x ^^^ y).toNat := by
    rw [← Nat.shiftRight_eq_div_pow, ← UInt64.toNat_shiftRight, hshift]
  have hzero : (x ^^^ y).toNat = 0 := by
    by_contra hne
    have hlt := Nat.div_lt_self (Nat.pos_of_ne_zero hne) (Nat.one_lt_two_pow pos.ne')
    omega
  exact UInt64.xor_eq_zero_iff.mp (UInt64.toNat_inj.mp hzero)

/-- An odd factor loses nothing. -/
theorem mul_odd_injective {c : UInt64} (odd : c.toNat % 2 = 1) :
    Injective fun z : UInt64 => z * c := by
  intro x y h
  have hcoprime : Nat.gcd (2 ^ 64) c.toNat = 1 :=
    Nat.Coprime.pow_left 64 (Nat.coprime_two_left.mpr (Nat.odd_iff.mpr odd))
  have hmod : x.toNat * c.toNat ≡ y.toNat * c.toNat [MOD 2 ^ 64] := by
    have hnat := congrArg UInt64.toNat h
    rwa [UInt64.toNat_mul, UInt64.toNat_mul] at hnat
  have hcancel := Nat.ModEq.cancel_right_of_coprime hcoprime hmod
  rw [Nat.ModEq, Nat.mod_eq_of_lt x.toNat_lt, Nat.mod_eq_of_lt y.toNat_lt] at hcancel
  exact UInt64.toNat_inj.mp hcancel

theorem mix_injective : Injective mix := by
  have hfirst : Injective fun z : UInt64 => z ^^^ (z >>> 30) := xorShift_injective (by decide)
  have hsecond : Injective fun z : UInt64 => z ^^^ (z >>> 27) := xorShift_injective (by decide)
  have hthird : Injective fun z : UInt64 => z ^^^ (z >>> 31) := xorShift_injective (by decide)
  have hlow : Injective fun z : UInt64 => z * 0xbf58476d1ce4e5b9 := mul_odd_injective (by decide)
  have hhigh : Injective fun z : UInt64 => z * 0x94d049bb133111eb := mul_odd_injective (by decide)
  exact hthird.comp (hhigh.comp (hsecond.comp (hlow.comp hfirst)))

/-- Mixing permutes the words. -/
theorem mix_bijective : Bijective mix := Finite.injective_iff_bijective.mp mix_injective

/-! ## Drawing in turn -/

/-- A draw: the word, and the state that it leaves. -/
def draw (state : UInt64) : UInt64 × UInt64 := (mix (state + step), state + step)

/-- The words of a number of draws from a state. -/
def draws (state : UInt64) : Nat → List UInt64
  | 0 => []
  | n + 1 => (draw state).1 :: draws (draw state).2 n

/-- The state after a number of draws. -/
def stateAfter (seed : UInt64) (n : Nat) : UInt64 := (fun state => (draw state).2)^[n] seed

theorem ofNat_succ_mul_step (i : Nat) :
    UInt64.ofNat (i + 1) * step = UInt64.ofNat i * step + step := by
  rw [UInt64.ofNat_add, UInt64.add_mul, show UInt64.ofNat 1 * step = step from by decide]

theorem stateAfter_eq (seed : UInt64) (n : Nat) :
    stateAfter seed n = seed + UInt64.ofNat n * step := by
  induction n with
  | zero => simp [stateAfter]
  | succ n ih =>
    rw [stateAfter, iterate_succ_apply']
    show stateAfter seed n + step = _
    rw [ih, ofNat_succ_mul_step, UInt64.add_assoc]

theorem word_eq (seed : UInt64) (i : Nat) : word seed i = mix (stateAfter seed (i + 1)) := by
  rw [stateAfter_eq, word]

/-- The words that are drawn in turn are those that are told by their places. -/
theorem draws_eq (seed : UInt64) (n : Nat) : draws seed n = (List.range n).map (word seed) := by
  induction n generalizing seed with
  | zero => rfl
  | succ n ih =>
    have hnext (i : Nat) : word (seed + step) i = word seed (i + 1) := by
      simp only [word, ofNat_succ_mul_step (i + 1), UInt64.add_assoc,
        UInt64.add_comm (UInt64.ofNat (i + 1) * step)]
    have hfirst : (draw seed).1 = word seed 0 := by
      show mix (seed + step) = mix (seed + UInt64.ofNat (0 + 1) * step)
      rw [ofNat_succ_mul_step 0]
      simp
    rw [draws, List.range_succ_eq_map, List.map_cons, List.map_map, hfirst]
    refine congrArg _ ((ih _).trans (List.map_congr_left fun i _ => hnext i))

/-- The values that the weights of a name start from are drawn in turn. -/
theorem uniformValues_eq (name : String) (fanIn n : Nat) :
    (uniformValues name fanIn n).toList = (draws (seedOf name) n).map fun w =>
      signedUnit w * (1 / (Float32.ofNat (max fanIn 1)).sqrt) := by
  refine List.ext_getElem (by simp [draws_eq]) fun i hi _ => ?_
  simp [uniformValues, draws_eq]

/-! ## The period -/

theorem stateAfter_injective (seed : UInt64) :
    Injective fun w : UInt64 => stateAfter seed w.toNat := by
  intro v w h
  simp only [stateAfter_eq, UInt64.ofNat_toNat, UInt64.add_right_inj] at h
  exact mul_odd_injective (c := step) (by decide) h

/-- The states run through all words before they come back. -/
theorem existsUnique_stateAfter (seed state : UInt64) :
    ∃! n, n < 2 ^ 64 ∧ stateAfter seed n = state := by
  have hinjective := stateAfter_injective seed
  obtain ⟨w, hw⟩ := (Finite.injective_iff_bijective.mp hinjective).surjective state
  refine ⟨w.toNat, ⟨w.toNat_lt, hw⟩, fun n ⟨hn, hstate⟩ => ?_⟩
  have hnat : (UInt64.ofNat n).toNat = n := UInt64.toNat_ofNat_of_lt' hn
  have heq : UInt64.ofNat n = w := hinjective <| by
    show stateAfter seed (UInt64.ofNat n).toNat = stateAfter seed w.toNat
    rw [hnat, hstate]
    exact hw.symm
  rw [← hnat, heq]

theorem word_inj {seed : UInt64} {i j : Nat} (hi : i < 2 ^ 64) (hj : j < 2 ^ 64)
    (h : word seed i = word seed j) : i = j := by
  have hstates (n : Nat) : stateAfter seed (n + 1) = stateAfter (seed + step) n := by
    rw [stateAfter_eq, stateAfter_eq, ofNat_succ_mul_step, UInt64.add_assoc,
      UInt64.add_comm step]
  rw [word_eq, word_eq, hstates, hstates] at h
  exact (existsUnique_stateAfter _ _).unique ⟨hi, mix_injective h⟩ ⟨hj, rfl⟩

theorem nodup_draws (seed : UInt64) : (draws seed (2 ^ 64)).Nodup := by
  rw [draws_eq]
  exact List.nodup_range.map_on fun i hi j hj h =>
    word_inj (List.mem_range.mp hi) (List.mem_range.mp hj) h

/-- Different seeds never draw the same word at the same place. -/
theorem word_ne {seed other : UInt64} (h : other ≠ seed) (i : Nat) : word other i ≠ word seed i :=
  fun heq => h ((UInt64.add_left_inj _).mp (mix_injective heq))

/-! ## The selected number -/

/-- What the top 24 bits of a word count. -/
def topBits (z : UInt64) : Nat := z.toNat / 2 ^ 40

theorem topBits_lt (z : UInt64) : topBits z < 2 ^ 24 :=
  Nat.div_lt_of_lt_mul z.toNat_lt

/-- Every step on the way from a word to its number is exact. -/
structure IsExact (z : UInt64) : Prop where
  /-- The count of the top bits. -/
  count : sampleValue (z >>> 40).toFloat32 = some (topBits z : ℚ)
  /-- Its share of all counts. -/
  share : sampleValue ((z >>> 40).toFloat32 / 16777216) = some ((topBits z : ℚ) / 2 ^ 24)
  /-- The share, doubled. -/
  doubled : sampleValue ((2 : Float32) * ((z >>> 40).toFloat32 / 16777216))
    = some ((topBits z : ℚ) / 2 ^ 23)
  /-- The number. -/
  unit : sampleValue (signedUnit z) = some (((topBits z : ℚ) - 2 ^ 23) / 2 ^ 23)
  /-- The number is not below -1. -/
  low : -1 ≤ ((topBits z : ℚ) - 2 ^ 23) / 2 ^ 23
  /-- The number is below 1. -/
  high : ((topBits z : ℚ) - 2 ^ 23) / 2 ^ 23 < 1

theorem isExact (z : UInt64) : IsExact z := by
  have hlt := topBits_lt z
  have hshift : (z >>> 40).toNat = topBits z := by
    rw [UInt64.toNat_shiftRight, Nat.shiftRight_eq_div_pow]
    rfl
  have represented (n : Int) (k : Nat) (fits : n.natAbs < 2 ^ 24) (hk : k ≤ 24) :
      Represents Float.Model.Format.binary32 ((n : ℚ) / 2 ^ k) := by
    have h := represents_sample (e := -(k : Int)) fits (by omega) (by omega)
    rwa [zpow_neg, zpow_natCast, ← div_eq_mul_inv] at h
  have hcount : sampleValue (z >>> 40).toFloat32 = some (topBits z : ℚ) := by
    rw [sampleValue_toFloat32 (by rw [hshift]; exact hlt), hshift]
  have hshare : sampleValue ((z >>> 40).toFloat32 / 16777216) = some ((topBits z : ℚ) / 2 ^ 24) :=
    sampleValue_div hcount (show _ = some (2 ^ 24) by decide +kernel) (by norm_num)
      (represented (topBits z) 24 (by omega) (by omega))
  have htwo : (2 : ℚ) * ((topBits z : ℚ) / 2 ^ 24) = (topBits z : ℚ) / 2 ^ 23 := by ring
  have hdoubled : sampleValue ((2 : Float32) * ((z >>> 40).toFloat32 / 16777216))
      = some ((topBits z : ℚ) / 2 ^ 23) := by
    rw [← htwo]
    refine sampleValue_mul (show _ = some 2 by decide +kernel) hshare ?_
    rw [htwo]
    exact represented (topBits z) 23 (by omega) (by omega)
  have hone : (topBits z : ℚ) / 2 ^ 23 - 1 = ((topBits z : ℚ) - 2 ^ 23) / 2 ^ 23 := by
    rw [sub_div, div_self (by norm_num)]
  have hunit : sampleValue (signedUnit z) = some (((topBits z : ℚ) - 2 ^ 23) / 2 ^ 23) := by
    rw [← hone]
    refine sampleValue_sub hdoubled (show _ = some 1 by decide +kernel) ?_
    rw [hone]
    have h := represented (topBits z - 2 ^ 23) 23 (by omega) (by omega)
    push_cast at h
    exact h
  refine ⟨hcount, hshare, hdoubled, hunit, ?_, ?_⟩
  · rw [le_div_iff₀ (by norm_num)]
    have : (0 : ℚ) ≤ topBits z := by positivity
    linarith
  · rw [div_lt_one (by norm_num)]
    have : (topBits z : ℚ) < 2 ^ 24 := by exact_mod_cast hlt
    linarith

/-- Mixing permutes the words and the states run through all of them, so that the words that a seed
draws in turn are pairwise distinct for a whole period; different seeds draw different words at
every place. The starting values of a name are made of its draws, and the number of a word is
exact. -/
theorem full_period (seed : UInt64) :
    Bijective mix ∧
    (∀ state, ∃! n, n < 2 ^ 64 ∧ stateAfter seed n = state) ∧
    (∀ n, draws seed n = (List.range n).map (word seed)) ∧
    (draws seed (2 ^ 64)).Nodup ∧
    (∀ other, other ≠ seed → ∀ i, word other i ≠ word seed i) ∧
    (∀ name fanIn n, (uniformValues name fanIn n).toList = (draws (seedOf name) n).map fun w =>
      signedUnit w * (1 / (Float32.ofNat (max fanIn 1)).sqrt)) ∧
    ∀ z, IsExact z :=
  ⟨mix_bijective, existsUnique_stateAfter seed, draws_eq seed, nodup_draws seed,
    fun _ h => word_ne h, uniformValues_eq, isExact⟩

/-- The seed 0 draws a word only once in a period, and none at the same place as the seed 1. The
number of its first word is a little above three quarters. -/
theorem full_period_apart : (1 : UInt64) ≠ 0 ∧ (∀ i, word 1 i ≠ word 0 i) ∧
    (∀ i j, i < j → j < 2 ^ 64 → word 0 i ≠ word 0 j) ∧
    word 0 0 = 0xe220a8397b1dcdaf ∧
    sampleValue (signedUnit (word 0 0)) = some (803861 / 1048576) := by
  obtain ⟨-, -, hdraws, hnodup, hne, -, hexact⟩ := full_period 0
  have hword : word 0 0 = 0xe220a8397b1dcdaf := by decide +kernel
  refine ⟨by decide, hne 1 (by decide), fun i j hij hj heq => ?_, hword, ?_⟩
  · rw [hdraws] at hnodup
    exact Nat.ne_of_lt hij (List.inj_on_of_nodup_map hnodup
      (List.mem_range.mpr (hij.trans hj)) (List.mem_range.mpr hj) heq)
  · rw [(hexact _).unit, hword, show topBits 0xe220a8397b1dcdaf = 14819496 by decide +kernel]
    norm_num

end Draw

end Midframe
