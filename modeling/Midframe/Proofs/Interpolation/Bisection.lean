import Mathlib.Tactic.Ring
import Midframe.Interpolation

/-!
# Bisected intervals

An interval whose length is a power of two is bisected all the way down: the split of every part is
at a frame, and the steps come in pre-order, the split of a part before those of its halves. What
such a bisection makes is a complete binary tree, the frame in the middle at its root. `make` makes
the tree directly, and `foldlM_steps` says that following the list of steps over the slots of the
interval makes the same tree, with the same actions in the same order, and places it in the slots.
-/

namespace Midframe

/-! ## The steps -/

theorem isPowerOfTwo_iff {n : Nat} : isPowerOfTwo n = true ↔ ∃ k, n = 2 ^ k := by
  rw [isPowerOfTwo, beq_iff_eq, Nat.one_shiftLeft]
  constructor
  · intro h
    exact ⟨n.log2, h⟩
  · rintro ⟨k, rfl⟩
    rw [Nat.log2_two_pow]

namespace MidpointStep

/-- The steps that bisect the `2 ^ k` frames behind `left`. -/
def bisection (left : Nat) : Nat → List MidpointStep
  | 0 => []
  | k + 1 =>
    ⟨left, left + 2 ^ (k + 1), left + 2 ^ k⟩ :: (bisection left k ++ bisection (left + 2 ^ k) k)

end MidpointStep

theorem bisect_two_pow (left k : Nat) :
    bisect left (left + 2 ^ k) = .ok (MidpointStep.bisection left k) := by
  induction k generalizing left with
  | zero =>
    rw [bisect, dif_pos (by omega)]
    rfl
  | succ k ih =>
    have hpos : 0 < 2 ^ k := Nat.two_pow_pos k
    have hdouble : 2 ^ (k + 1) = 2 ^ k + 2 ^ k := by ring
    have hmiddle : (left + (left + 2 ^ (k + 1))) / 2 = left + 2 ^ k := by omega
    have hright : left + 2 ^ (k + 1) = left + 2 ^ k + 2 ^ k := by omega
    -- The ends are an even distance apart, so that the interval has a frame in its middle.
    have heven : ((left + (left + 2 ^ (k + 1))) % 2 != 0) = false := by
      rw [bne_eq_false_iff_eq]
      omega
    rw [bisect, dif_neg (by omega), heven, if_neg Bool.false_ne_true]
    simp only [hmiddle, ih]
    rw [hright, ih]
    simp only [MidpointStep.bisection, hright]
    rfl

theorem interpolationOrder_of_le {start stop : Nat} (h : start ≤ stop) :
    interpolationOrder stop start = bisect start stop := if_neg (Nat.not_lt.mpr h)

theorem interpolationOrder_power (start k : Nat) :
    interpolationOrder (start + 2 ^ k) start = .ok (MidpointStep.bisection start k) := by
  rw [interpolationOrder_of_le (Nat.le_add_right _ _), bisect_two_pow]

theorem interpolationOrder_two_pow (k : Nat) :
    interpolationOrder (2 ^ k) 0 = .ok (MidpointStep.bisection 0 k) := by
  have h := interpolationOrder_power 0 k
  rwa [Nat.zero_add] at h

/-! ## Slots that hold frames -/

namespace Interval

variable {τ : Type}

/-- A slot holds the frame. -/
def Holds (slots : Array (Option τ)) (i : Nat) (frame : τ) : Prop := slots[i]? = some (some frame)

theorem Holds.join {slots : Array (Option τ)} {i : Nat} {frame : τ} (h : Holds slots i frame) :
    slots[i]?.join = some frame := by
  rw [h]
  rfl

theorem Holds.set {slots : Array (Option τ)} {i j : Nat} {frame : τ} (h : Holds slots j frame)
    (hi : i ≤ j) (new : τ) : Holds (slots.setIfInBounds i (some new)) i new := by
  obtain ⟨hj, -⟩ := Array.getElem?_eq_some_iff.mp h
  exact Array.getElem?_setIfInBounds_self_of_lt (Nat.lt_of_le_of_lt hi hj)

theorem Holds.set_of_ne {slots : Array (Option τ)} {i j : Nat} {frame : τ} (h : Holds slots j frame)
    (hi : i ≠ j) (new : τ) : Holds (slots.setIfInBounds i (some new)) j frame :=
  (Array.getElem?_setIfInBounds_ne hi).trans h

end Interval

/-! ## The tree of an interval -/

/-- What is made for an interval of `2 ^ k` frames: nothing if its ends are neighbours, else the
frame in the middle and what is made for both halves. -/
inductive Bisected (τ : Type) : Nat → Type
  /-- The ends are neighbours. -/
  | whole : Bisected τ 0
  /-- The frame in the middle, and both halves. -/
  | halves {k : Nat} (middle : τ) (before behind : Bisected τ k) : Bisected τ (k + 1)

namespace Bisected

open Midframe.Interval

variable {τ : Type} {k : Nat}

/-- The frames of an interval behind its first one, from left to right, if `right` is the last. -/
def frames {k : Nat} : Bisected τ k → τ → List τ
  | whole, right => [right]
  | halves middle before behind, right => before.frames middle ++ behind.frames right

/-- An interval has as many frames as it is long. -/
theorem frames_length (t : Bisected τ k) (right : τ) : (t.frames right).length = 2 ^ k := by
  induction t generalizing right with
  | whole => rfl
  | halves middle before behind ihBefore ihBehind =>
    rw [frames, List.length_append, ihBefore, ihBehind]
    ring

/-- The slots of an interval that starts at `left`, with the tree placed between its ends. -/
def place {k : Nat} : Bisected τ k → Nat → Array (Option τ) → Array (Option τ)
  | whole, _, slots => slots
  | @halves _ k middle before behind, left, slots =>
    behind.place (left + 2 ^ k)
      (before.place left (slots.setIfInBounds (left + 2 ^ k) (some middle)))

/-- Nothing is placed at the ends or outside of them. -/
theorem place_getElem?_of_outside (t : Bisected τ k) {left i : Nat} {slots : Array (Option τ)}
    (h : i ≤ left ∨ left + 2 ^ k ≤ i) : (t.place left slots)[i]? = slots[i]? := by
  induction t generalizing left slots with
  | whole => rfl
  | @halves k middle before behind ihBefore ihBehind =>
    have hpos : 0 < 2 ^ k := Nat.two_pow_pos k
    have hdouble : 2 ^ (k + 1) = 2 ^ k + 2 ^ k := by ring
    rw [place, ihBehind (by omega), ihBefore (by omega),
      Array.getElem?_setIfInBounds_ne (by omega)]

theorem holds_place {t : Bisected τ k} {left i : Nat} {slots : Array (Option τ)} {frame : τ}
    (h : Holds slots i frame) (hi : i ≤ left ∨ left + 2 ^ k ≤ i) :
    Holds (t.place left slots) i frame :=
  (t.place_getElem?_of_outside hi).trans h

/-- The slots behind the first one hold the frames of the interval. -/
theorem place_frames (t : Bisected τ k) {left : Nat} {slots : Array (Option τ)} {right : τ}
    (h : Holds slots (left + 2 ^ k) right) (i : Nat) (hi : i < (t.frames right).length) :
    Holds (t.place left slots) (left + i + 1) (t.frames right)[i] := by
  induction t generalizing left slots right i with
  | whole =>
    obtain rfl : i = 0 := by simpa [frames] using hi
    exact h
  | @halves k middle before behind ihBefore ihBehind =>
    have hpos : 0 < 2 ^ k := Nat.two_pow_pos k
    have hdouble : 2 ^ (k + 1) = 2 ^ k + 2 ^ k := by ring
    have hmiddle := h.set (i := left + 2 ^ k) (by omega) middle
    have hlength := before.frames_length middle
    have hlength' := behind.frames_length right
    simp only [frames, List.length_append] at hi
    simp only [frames, place, List.getElem_append]
    split
    · next hi' =>
      -- The right half is placed behind the left one, and does not touch it.
      exact holds_place (ihBefore hmiddle i hi') (.inl (by omega))
    · next hi' =>
      have hright : Holds (before.place left (slots.setIfInBounds (left + 2 ^ k) (some middle)))
          (left + 2 ^ k + 2 ^ k) right := by
        refine holds_place (Holds.set_of_ne ?_ (by omega) middle) (.inr (by omega))
        rwa [Nat.add_assoc, ← hdouble]
      have hplace := ihBehind hright (i - (before.frames middle).length) (by omega)
      have hindex : left + 2 ^ k + (i - (before.frames middle).length) + 1 = left + i + 1 := by
        omega
      rwa [hindex] at hplace

end Bisected

/-! ## Making the tree -/

variable {m : Type → Type} [Monad m] {τ : Type}

namespace Bisected

/-- Makes the frame in the middle, and then both halves, the left one first. -/
def make (midpoint : τ → τ → m τ) : (k : Nat) → τ → τ → m (Bisected τ k)
  | 0, _, _ => return whole
  | k + 1, left, right => do
    let middle ← midpoint left right
    let before ← make midpoint k left middle
    let behind ← make midpoint k middle right
    return halves middle before behind

end Bisected

namespace Interval

open Bisected

variable [LawfulMonad m] {midpoint : τ → τ → ExceptT Fault m τ}

/-- A step between slots that hold frames makes the frame in the middle. -/
theorem step_eq {slots : Array (Option τ)} {s : MidpointStep} {a b : τ} (ha : Holds slots s.left a)
    (hb : Holds slots s.right b) :
    step midpoint slots s
      = (fun frame => slots.setIfInBounds s.mid (some frame)) <$> midpoint a b := by
  simp only [step, ha.join, hb.join, map_eq_pure_bind]

/-- The steps of a bisection make its tree and place it in the slots. -/
theorem foldlM_steps (k : Nat) {left : Nat} {slots : Array (Option τ)} {a b : τ}
    (ha : Holds slots left a) (hb : Holds slots (left + 2 ^ k) b) :
    (MidpointStep.bisection left k).foldlM (step midpoint) slots
      = (fun t => t.place left slots) <$> make midpoint k a b := by
  induction k generalizing left slots a b with
  | zero => simp only [MidpointStep.bisection, make, List.foldlM_nil, map_pure, place]
  | succ k ih =>
    have hpos : 0 < 2 ^ k := Nat.two_pow_pos k
    have hdouble : 2 ^ (k + 1) = 2 ^ k + 2 ^ k := by ring
    have hstep : step midpoint slots ⟨left, left + 2 ^ (k + 1), left + 2 ^ k⟩
        = (fun frame => slots.setIfInBounds (left + 2 ^ k) (some frame)) <$> midpoint a b :=
      step_eq ha hb
    simp only [MidpointStep.bisection, List.foldlM_cons, List.foldlM_append, hstep, make,
      map_eq_pure_bind, bind_assoc, pure_bind]
    refine bind_congr fun middle => ?_
    -- Behind the first step the middle is known; the left half keeps it and the right end.
    have hmiddle := hb.set (i := left + 2 ^ k) (by omega) middle
    rw [ih (ha.set_of_ne (by omega) middle) hmiddle]
    simp only [map_eq_pure_bind, bind_assoc, pure_bind]
    refine bind_congr fun before => ?_
    have hright : Holds (before.place left (slots.setIfInBounds (left + 2 ^ k) (some middle)))
        (left + 2 ^ k + 2 ^ k) b := by
      refine holds_place (Holds.set_of_ne ?_ (by omega) middle) (.inr (by omega))
      rwa [Nat.add_assoc, ← hdouble]
    rw [ih (holds_place hmiddle (.inr (Nat.le_refl _))) hright]
    simp only [map_eq_pure_bind, place]

end Interval

end Midframe
