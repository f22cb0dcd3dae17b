import Mathlib.Data.Nat.Factorization.Basic
import Midframe.Proofs.Interpolation.Bisection

/-!
# The order of the steps

The steps that fill a range of frames exist exactly for ranges whose length is a power of two, or
zero. They make every frame strictly between the ends once, each of them halfway between two frames
that are known by then. In a range of another length the left half is split again and again, until
it is as long as the largest odd divisor of the length; there is no frame in its middle.
-/

namespace Midframe

namespace MidpointStep

/-! ## Bisections -/

/-- A bisection makes the frames behind `left` up to the last but one, each of them once. -/
theorem mids_bisection_perm (left k : Nat) :
    ((bisection left k).map mid).Perm (List.range' (left + 1) (2 ^ k - 1)) := by
  induction k generalizing left with
  | zero => exact .refl _
  | succ k ih =>
    have hpos : 0 < 2 ^ k := Nat.two_pow_pos k
    have hcount : 2 ^ (k + 1) - 1 = 2 ^ k - 1 + (1 + (2 ^ k - 1)) := by
      rw [pow_succ]
      omega
    have hmiddle : left + 1 + (2 ^ k - 1) = left + 2 ^ k := by omega
    -- The frame in the middle comes first and lies between the frames of both halves.
    rw [hcount, ← List.range'_append_1, ← List.range'_append_1, hmiddle]
    simp only [bisection, List.map_cons, List.map_append]
    exact (((ih left).append (ih (left + 2 ^ k))).cons _).trans List.perm_middle.symm

/-- Every step of a bisection makes the frame halfway between two others. -/
theorem halfway_of_mem_bisection {left k : Nat} {s : MidpointStep} (h : s ∈ bisection left k) :
    s.left < s.mid ∧ s.mid - s.left = s.right - s.mid := by
  induction k generalizing left with
  | zero => cases h
  | succ k ih =>
    rcases List.mem_cons.mp h with rfl | h
    · have hpos : 0 < 2 ^ k := Nat.two_pow_pos k
      simp only [pow_succ]
      omega
    · rcases List.mem_append.mp h with h | h
      · exact ih h
      · exact ih h

/-- A frame is known behind some steps if it is one of the ends or one of these steps makes it. -/
def IsKnown (start stop : Nat) (before : List MidpointStep) (frame : Nat) : Prop :=
  frame = start ∨ frame = stop ∨ frame ∈ before.map mid

theorem IsKnown.mono {start stop start' stop' frame : Nat} {before before' : List MidpointStep}
    (h : IsKnown start stop before frame) (hstart : IsKnown start' stop' before' start)
    (hstop : IsKnown start' stop' before' stop) (hbefore : ∀ s ∈ before, s ∈ before') :
    IsKnown start' stop' before' frame := by
  rcases h with rfl | rfl | h
  · exact hstart
  · exact hstop
  · obtain ⟨s, hs, rfl⟩ := List.mem_map.mp h
    exact .inr (.inr (List.mem_map_of_mem (hbefore s hs)))

/-- Every step of a bisection reads frames that are known by then. -/
theorem isKnown_of_bisection {left k : Nat} {before behind : List MidpointStep} {s : MidpointStep}
    (h : bisection left k = before ++ s :: behind) :
    IsKnown left (left + 2 ^ k) before s.left ∧ IsKnown left (left + 2 ^ k) before s.right := by
  induction k generalizing left before behind with
  | zero => simp [bisection] at h
  | succ k ih =>
    rcases List.cons_eq_append_iff.mp h with ⟨rfl, hfirst⟩ | ⟨earlier, rfl, hrest⟩
    · obtain ⟨rfl, -⟩ := List.cons.inj hfirst
      exact ⟨.inl rfl, .inr (.inl rfl)⟩
    · -- Behind the first step the middle is known, which is an end of both halves.
      have hmiddle : IsKnown left (left + 2 ^ (k + 1))
          (⟨left, left + 2 ^ (k + 1), left + 2 ^ k⟩ :: earlier) (left + 2 ^ k) :=
        .inr (.inr List.mem_cons_self)
      have hright : left + 2 ^ k + 2 ^ k = left + 2 ^ (k + 1) := by ring
      have hsecond (between : List MidpointStep) {behind : List MidpointStep}
          (hbehind : bisection (left + 2 ^ k) k = between ++ s :: behind)
          (hbetween : ∀ q ∈ between, q ∈ earlier) :
          IsKnown left (left + 2 ^ (k + 1)) (⟨left, left + 2 ^ (k + 1), left + 2 ^ k⟩ :: earlier)
              s.left ∧
            IsKnown left (left + 2 ^ (k + 1))
              (⟨left, left + 2 ^ (k + 1), left + 2 ^ k⟩ :: earlier) s.right := by
        obtain ⟨hl, hr⟩ := ih hbehind
        have hmem (q : MidpointStep) (hq : q ∈ between) := List.mem_cons_of_mem
          (⟨left, left + 2 ^ (k + 1), left + 2 ^ k⟩ : MidpointStep) (hbetween q hq)
        exact ⟨hl.mono hmiddle (.inr (.inl hright)) hmem, hr.mono hmiddle (.inr (.inl hright)) hmem⟩
      rcases List.append_eq_append_iff.mp hrest with ⟨between, rfl, hbehind⟩ | ⟨rest, hbefore, hs⟩
      · exact hsecond between hbehind fun q hq => List.mem_append_right _ hq
      · cases rest with
        | nil => exact hsecond [] hs.symm fun q hq => absurd hq List.not_mem_nil
        | cons first rest =>
          obtain ⟨rfl, -⟩ := List.cons.inj hs
          obtain ⟨hl, hr⟩ := ih hbefore
          exact ⟨hl.mono (.inl rfl) hmiddle fun q hq => List.mem_cons_of_mem _ hq,
            hr.mono (.inl rfl) hmiddle fun q hq => List.mem_cons_of_mem _ hq⟩

end MidpointStep

/-! ## Ranges that are not filled -/

/-- A range whose length has an odd divisor beside 1 is not filled: the part at its start that is as
long as the largest such divisor has no frame in its middle. -/
theorem bisect_of_odd {m : Nat} (hodd : Odd m) (hm : 1 < m) (left j : Nat) :
    bisect left (left + 2 ^ j * m) = .error (.invalid (.oddSplit left (left + m))) := by
  obtain ⟨r, rfl⟩ := hodd
  induction j with
  | zero =>
    have hsum : ((left + (left + 2 ^ 0 * (2 * r + 1))) % 2 != 0) = true := by
      rw [bne_iff_ne]
      omega
    rw [bisect, dif_neg (by omega), hsum, if_pos rfl, pow_zero, one_mul]
  | succ j ih =>
    have hdouble : 2 ^ (j + 1) * (2 * r + 1) = 2 ^ j * (2 * r + 1) + 2 ^ j * (2 * r + 1) := by ring
    have hpos : 0 < 2 ^ j * (2 * r + 1) := Nat.mul_pos (Nat.two_pow_pos j) (Nat.succ_pos _)
    have hsum : ((left + (left + 2 ^ (j + 1) * (2 * r + 1))) % 2 != 0) = false := by
      rw [bne_eq_false_iff_eq, hdouble]
      omega
    have hmiddle : (left + (left + 2 ^ (j + 1) * (2 * r + 1))) / 2
        = left + 2 ^ j * (2 * r + 1) := by
      rw [hdouble]
      omega
    rw [bisect, dif_neg (by rw [hdouble]; omega), hsum, if_neg Bool.false_ne_true]
    simp only [hmiddle, ih]
    rfl

/-- A length is a power of two, or has an odd divisor beside 1. -/
theorem exists_power_or_odd {start stop : Nat} (h : start < stop) :
    (∃ k, stop = start + 2 ^ k) ∨ ∃ j m, stop = start + 2 ^ j * m ∧ Odd m ∧ 1 < m := by
  obtain ⟨j, m, hodd, hlength⟩ := Nat.exists_eq_two_pow_mul_odd (Nat.sub_ne_zero_of_lt h)
  have hstop : stop = start + 2 ^ j * m := by omega
  rcases Nat.lt_or_ge 1 m with hm | hm
  · exact .inr ⟨j, m, hstop, hodd, hm⟩
  · obtain rfl : m = 1 := Nat.le_antisymm hm hodd.pos
    exact .inl ⟨j, by rw [hstop, mul_one]⟩

/-! ## Ranges of frames -/

theorem interpolationOrder_self (start : Nat) : interpolationOrder start start = .ok [] := by
  rw [interpolationOrder_of_le (Nat.le_refl start), bisect, dif_pos (by omega)]

theorem interpolationOrder_odd {m : Nat} (hodd : Odd m) (hm : 1 < m) (start j : Nat) :
    interpolationOrder (start + 2 ^ j * m) start
      = .error (.invalid (.oddSplit start (start + m))) := by
  rw [interpolationOrder_of_le (Nat.le_add_right _ _), bisect_of_odd hodd hm]

theorem interpolationOrder_reversed {start stop : Nat} (h : stop < start) :
    interpolationOrder stop start = .error (.invalid (.reversedRange start stop)) := if_pos h

/-- What is known of steps that fill a range of frames. -/
theorem interpolationOrder_eq_ok {start stop : Nat} {steps : List MidpointStep} :
    interpolationOrder stop start = .ok steps ↔ (stop = start ∧ steps = []) ∨
      ∃ k, stop = start + 2 ^ k ∧ steps = MidpointStep.bisection start k := by
  constructor
  · intro h
    rcases Nat.lt_trichotomy stop start with hlt | rfl | hlt
    · rw [interpolationOrder_reversed hlt] at h
      cases h
    · rw [interpolationOrder_self] at h
      exact .inl ⟨rfl, (Except.ok.inj h).symm⟩
    · rcases exists_power_or_odd hlt with ⟨k, rfl⟩ | ⟨j, m, rfl, hodd, hm⟩
      · rw [interpolationOrder_power] at h
        exact .inr ⟨k, rfl, (Except.ok.inj h).symm⟩
      · rw [interpolationOrder_odd hodd hm] at h
        cases h
  · rintro (⟨rfl, rfl⟩ | ⟨k, rfl, rfl⟩)
    · exact interpolationOrder_self stop
    · exact interpolationOrder_power start k

open MidpointStep in
/-- There are steps that fill a range of frames exactly if its length is zero or a power of two.
They make every frame strictly between the ends, each of them once, halfway between two others, and
only from the ends and from frames that were made before. A range that ends before it starts is
refused, and so is one of any other length, for the part at its start that is as long as the largest
odd divisor of the length. -/
theorem interpolationOrder_fills (start stop : Nat) :
    ((∃ steps, interpolationOrder stop start = .ok steps) ↔
      stop = start ∨ ∃ k, stop = start + 2 ^ k) ∧
    (∀ steps, interpolationOrder stop start = .ok steps →
      (steps.map mid).Perm (List.range' (start + 1) (stop - start - 1)) ∧
      (∀ s ∈ steps, s.left < s.mid ∧ s.mid - s.left = s.right - s.mid) ∧
      ∀ before s behind, steps = before ++ s :: behind →
        IsKnown start stop before s.left ∧ IsKnown start stop before s.right) ∧
    (stop < start → interpolationOrder stop start = .error (.invalid (.reversedRange start stop))) ∧
    (start < stop → (¬ ∃ k, stop = start + 2 ^ k) → ∃ j m, stop = start + 2 ^ j * m ∧ Odd m ∧
      1 < m ∧ interpolationOrder stop start
        = .error (.invalid (.oddSplit start (start + m)))) := by
  refine ⟨?_, fun steps hsteps => ?_, interpolationOrder_reversed, fun hlt hpower => ?_⟩
  · simp only [interpolationOrder_eq_ok, exists_or, exists_and_left, and_true,
      exists_comm (α := List MidpointStep), exists_eq]
  · rcases interpolationOrder_eq_ok.mp hsteps with ⟨rfl, rfl⟩ | ⟨k, rfl, rfl⟩
    · refine ⟨by simp, nofun, fun before s behind h => ?_⟩
      simp at h
    · rw [Nat.add_sub_cancel_left]
      exact ⟨mids_bisection_perm start k, fun s => halfway_of_mem_bisection,
        fun before s behind => isKnown_of_bisection⟩
  · rcases exists_power_or_odd hlt with h | ⟨j, m, rfl, hodd, hm⟩
    · exact absurd h hpower
    · exact ⟨j, m, rfl, hodd, hm, interpolationOrder_odd hodd hm start j⟩

/-- Eight frames from the fourth one on are filled, six are not: three frames have no middle. -/
theorem interpolationOrder_fills_eight :
    (∃ steps, interpolationOrder 12 4 = .ok steps ∧
      (steps.map MidpointStep.mid).Perm [5, 6, 7, 8, 9, 10, 11] ∧
      ∀ s ∈ steps, s.left < s.mid ∧ s.mid - s.left = s.right - s.mid) ∧
    interpolationOrder 10 4 = .error (.invalid (.oddSplit 4 7)) ∧
    interpolationOrder 3 4 = .error (.invalid (.reversedRange 4 3)) := by
  obtain ⟨hok, hfills, -, -⟩ := interpolationOrder_fills 4 12
  obtain ⟨steps, hsteps⟩ := hok.mpr (.inr ⟨3, rfl⟩)
  obtain ⟨hperm, hhalfway, -⟩ := hfills steps hsteps
  have hpower : ¬ ∃ k, 10 = 4 + 2 ^ k := by
    rintro ⟨_ | _ | k, hk⟩ <;> omega
  obtain ⟨j, m, hm, ⟨r, rfl⟩, hone, hfault⟩ :=
    (interpolationOrder_fills 4 10).2.2.2 (by decide) hpower
  have hr : r = 1 := by
    match j, hm with
    | 0, hm => omega
    | 1, hm => omega
    | j + 2, hm =>
      have hfour : 2 ^ (j + 2) * (2 * r + 1) = 4 * (2 ^ j * (2 * r + 1)) := by ring
      omega
  subst hr
  exact ⟨⟨steps, hsteps, hperm, hhalfway⟩, hfault,
    (interpolationOrder_fills 4 3).2.2.1 (by decide)⟩

end Midframe
