import Midframe.Proofs.Interpolation.Bisection

/-!
# The course of a stream

`course` is what raising the frame rate of a stream amounts to, told without slots and lists of
steps: the first frame is read and handed on; for each further one the interval in front of it is
bisected, the frame in the middle of every part made before its halves are filled, and then its
frames are handed on from left to right. `interpolateStream_eq_course` says that a stream whose rate
is raised by a power of two takes this course, whatever the actions of the caller are and wherever
they fail: no frame is looked for that is not there.
-/

namespace Midframe

open Midframe.Interval Bisected

variable {m : Type → Type} [Monad m] {τ : Type}

/-- The intervals of `2 ^ k` frames behind a frame that was read and handed on already. Gives the
number of frames handed on. -/
def courseFrom (midpoint : τ → τ → ExceptT Fault m τ) (hand : τ → ExceptT Fault m Unit)
    (finish : m Unit) (k emitted : Nat) (left : τ) :
    List (ExceptT Fault m τ) → ExceptT Fault m Nat
  | [] => do
    ExceptT.lift finish
    return emitted
  | read :: rest => do
    let right ← read
    let tree ← Bisected.make midpoint k left right
    (tree.frames right).forM hand
    courseFrom midpoint hand finish k (emitted + 2 ^ k) right rest

/-- A stream whose frame rate is raised by `2 ^ k`. Gives the number of frames handed on. -/
def course (midpoint : τ → τ → ExceptT Fault m τ) (hand : τ → ExceptT Fault m Unit)
    (finish : m Unit) (k : Nat) : List (ExceptT Fault m τ) → ExceptT Fault m Nat
  | [] => do
    ExceptT.lift finish
    return 0
  | read :: rest => do
    let first ← read
    hand first
    courseFrom midpoint hand finish k 1 first rest

/-! ## One interval -/

namespace Interval

theorem ends_holds_left {factor : Nat} (pos : 0 < factor) (left right : τ) :
    Holds (ends factor left right) 0 left := by
  rw [Holds, ends, Array.getElem?_setIfInBounds_ne (by omega),
    Array.getElem?_setIfInBounds_self_of_lt (by simp)]

theorem ends_holds_right (factor : Nat) (left right : τ) :
    Holds (ends factor left right) factor right :=
  Array.getElem?_setIfInBounds_self_of_lt (by simp)

theorem frame_eq {slots : Array (Option τ)} {i : Nat} {frame : τ} (h : Holds slots i frame)
    (interval : Nat) : Interval.frame (m := m) slots interval i = pure frame := by
  simp only [Interval.frame, h.join]

variable [LawfulMonad m]

/-- All frames of an interval, made from its ends. -/
theorem fill_eq (midpoint : τ → τ → ExceptT Fault m τ) (k : Nat) (left right : τ) :
    fill midpoint (MidpointStep.bisection 0 k) (2 ^ k) left right
      = (fun tree => tree.place 0 (ends (2 ^ k) left right)) <$> make midpoint k left right := by
  refine foldlM_steps k (ends_holds_left (Nat.two_pow_pos k) left right) ?_
  rw [Nat.zero_add]
  exact ends_holds_right _ left right

/-- Slots that hold some frames one after the other hand these on. -/
theorem forM_frame_eq {hand : τ → ExceptT Fault m Unit} {slots : Array (Option τ)}
    {frames : List τ} {start : Nat}
    (h : ∀ (i : Nat) (hi : i < frames.length), Holds slots (start + i + 1) frames[i])
    (interval : Nat) :
    ((List.range frames.length).forM fun i => do
        hand (← Interval.frame slots interval (start + i + 1)))
      = frames.forM hand := by
  induction frames generalizing start with
  | nil => rfl
  | cons f rest ih =>
    have hfirst : Holds slots (start + 0 + 1) f := h 0 (Nat.zero_lt_succ _)
    have hrest : ∀ (i : Nat) (hi : i < rest.length),
        Holds slots (start + 1 + i + 1) rest[i] := by
      intro i hi
      have hnext := h (i + 1) (Nat.succ_lt_succ hi)
      rwa [show start + (i + 1) + 1 = start + 1 + i + 1 by omega] at hnext
    have hshift : ((List.range rest.length).forM fun i => do
          hand (← Interval.frame slots interval (start + (i + 1) + 1)))
        = rest.forM hand := by
      rw [← ih hrest]
      simp only [show ∀ i, start + (i + 1) + 1 = start + 1 + i + 1 by omega]
    simp only [List.forM_eq_forM, List.length_cons, List.range_succ_eq_map, List.forM_cons,
      List.forM_map, frame_eq hfirst, pure_bind] at hshift ⊢
    rw [hshift]

/-- The slots of an interval hand on its frames. -/
theorem emit_eq {k : Nat} (hand : τ → ExceptT Fault m Unit) (tree : Bisected τ k) (left right : τ)
    (interval : Nat) :
    emit hand (tree.place 0 (ends (2 ^ k) left right)) (2 ^ k) interval
      = (tree.frames right).forM hand := by
  have hright : Holds (ends (2 ^ k) left right) (0 + 2 ^ k) right := by
    rw [Nat.zero_add]
    exact ends_holds_right _ left right
  have hemit : ((List.range (tree.frames right).length).forM fun i => do
        hand (← Interval.frame (tree.place 0 (ends (2 ^ k) left right)) interval (0 + i + 1)))
      = (tree.frames right).forM hand := forM_frame_eq (tree.place_frames hright) interval
  simpa only [emit, tree.frames_length, Nat.zero_add] using hemit

end Interval

/-! ## The stream -/

variable (midpoint : τ → τ → ExceptT Fault m τ) (hand : τ → ExceptT Fault m Unit)
  (finish : m Unit)

/-- Factors that are no powers of two are refused before anything else is done. -/
theorem interpolateStream_of_not_power {factor : Nat} (h : ¬∃ k, factor = 2 ^ k)
    (reads : List (ExceptT Fault m τ)) :
    interpolateStream reads factor midpoint hand finish = throw (.invalid (.factor factor)) := by
  have hfactor : isPowerOfTwo factor = false := by
    rw [← Bool.not_eq_true, isPowerOfTwo_iff]
    exact h
  rw [interpolateStream, hfactor, Bool.not_false, if_pos rfl]

variable [LawfulMonad m] (k : Nat)

theorem interpolateFrom_eq_courseFrom (interval emitted : Nat) (left : τ)
    (reads : List (ExceptT Fault m τ)) :
    interpolateFrom midpoint hand finish (MidpointStep.bisection 0 k) (2 ^ k) interval emitted left
        reads
      = courseFrom midpoint hand finish k emitted left reads := by
  induction reads generalizing interval emitted left with
  | nil => rfl
  | cons read rest ih =>
    rw [interpolateFrom, courseFrom]
    refine bind_congr fun right => ?_
    rw [fill_eq, map_eq_pure_bind, bind_assoc]
    refine bind_congr fun tree => ?_
    rw [pure_bind, emit_eq]
    refine bind_congr fun _ => ?_
    -- The next interval starts with the last slot of this one, which holds the frame just read.
    have hlast : Holds (tree.place 0 (ends (2 ^ k) left right)) (2 ^ k) right :=
      holds_place (ends_holds_right _ left right) (.inr (by omega))
    simp only [hlast.join, ih]

/-- A stream whose frame rate is raised by a power of two takes its course. -/
theorem interpolateStream_eq_course (reads : List (ExceptT Fault m τ)) :
    interpolateStream reads (2 ^ k) midpoint hand finish
      = course midpoint hand finish k reads := by
  have hfactor : isPowerOfTwo (2 ^ k) = true := isPowerOfTwo_iff.mpr ⟨k, rfl⟩
  have horder : settled (m := m) (interpolationOrder (2 ^ k) 0)
      = pure (MidpointStep.bisection 0 k) := by
    rw [interpolationOrder_two_pow]
    rfl
  rw [interpolateStream, hfactor, Bool.not_true, if_neg Bool.false_ne_true, horder, pure_bind]
  cases reads with
  | nil => rfl
  | cons read rest => simp only [course, interpolateFrom_eq_courseFrom]

end Midframe
