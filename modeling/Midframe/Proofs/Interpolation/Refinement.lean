import Midframe.Proofs.Interpolation.Sequence

/-!
# The frames of a refined sequence

Every interval that is halved `k` times gets `2 ^ k` frames, the last of which is its right end; so
the frames that a sequence is made from are found again at the multiples of `2 ^ k`. What holds of
them, and of every frame made from two such frames, holds of all frames.
-/

namespace Midframe

variable {τ : Type} {midpoint : τ → τ → Except Fault τ} {k : Nat}

theorem refined_cons_eq_ok {first : τ} {rest frames : List τ} :
    refined midpoint k (first :: rest) = .ok frames ↔
      ∃ behind, betweenAll midpoint k first rest = .ok behind ∧ first :: behind = frames := by
  rw [refined, bind_eq_ok]
  simp only [pure_eq_ok]

theorem length_of_between {left right : τ} {frames : List τ}
    (h : between midpoint k left right = .ok frames) : frames.length = 2 ^ k := by
  induction k generalizing left right frames with
  | zero =>
    obtain rfl := Except.ok.inj h
    rfl
  | succ k ih =>
    obtain ⟨middle, before, behind, -, hbefore, hbehind, rfl⟩ := between_succ_eq_ok.mp h
    rw [List.length_append, ih hbefore, ih hbehind]
    ring

theorem length_of_betweenAll {left : τ} {rest frames : List τ}
    (h : betweenAll midpoint k left rest = .ok frames) :
    frames.length = rest.length * 2 ^ k := by
  induction rest generalizing left frames with
  | nil =>
    obtain rfl := Except.ok.inj h
    simp
  | cons right rest ih =>
    obtain ⟨before, behind, hbefore, hbehind, rfl⟩ := betweenAll_cons_eq_ok.mp h
    rw [List.length_append, length_of_between hbefore, ih hbehind, List.length_cons]
    ring

/-- The right end of an interval is the last of its frames. -/
theorem getElem?_of_betweenAll {left : τ} {rest frames : List τ}
    (h : betweenAll midpoint k left rest = .ok frames) {i : Nat} (hi : i < rest.length) :
    frames[i * 2 ^ k + (2 ^ k - 1)]? = some rest[i] := by
  induction rest generalizing left frames i with
  | nil => cases hi
  | cons right rest ih =>
    obtain ⟨before, behind, hbefore, hbehind, rfl⟩ := betweenAll_cons_eq_ok.mp h
    have hlength := length_of_between hbefore
    cases i with
    | zero =>
      have hlast := getLast?_of_between hbefore
      have hpos := Nat.two_pow_pos k
      rw [Nat.zero_mul, Nat.zero_add, List.getElem?_append_left (by omega), ← hlength,
        ← List.getLast?_eq_getElem?, hlast]
      rfl
    | succ i =>
      have hindex : (i + 1) * 2 ^ k + (2 ^ k - 1) = before.length + (i * 2 ^ k + (2 ^ k - 1)) := by
        rw [hlength]
        ring
      rw [hindex, List.getElem?_append_right (Nat.le_add_right _ _), Nat.add_sub_cancel_left,
        ih hbehind (Nat.lt_of_succ_lt_succ hi)]
      rfl

theorem length_of_refined {frames result : List τ} (h : refined midpoint k frames = .ok result)
    (ne : frames ≠ []) : result.length = (frames.length - 1) * 2 ^ k + 1 := by
  cases frames with
  | nil => exact absurd rfl ne
  | cons first rest =>
    obtain ⟨behind, hbehind, rfl⟩ := refined_cons_eq_ok.mp h
    rw [List.length_cons, length_of_betweenAll hbehind, List.length_cons, Nat.add_sub_cancel]

/-- The frames that a sequence is made from are found at the multiples of the factor. -/
theorem getElem?_of_refined {frames result : List τ} (h : refined midpoint k frames = .ok result)
    {i : Nat} (hi : i < frames.length) : result[i * 2 ^ k]? = some frames[i] := by
  cases frames with
  | nil => cases hi
  | cons first rest =>
    obtain ⟨behind, hbehind, rfl⟩ := refined_cons_eq_ok.mp h
    cases i with
    | zero =>
      rw [Nat.zero_mul]
      rfl
    | succ i =>
      have hpos := Nat.two_pow_pos k
      have hindex : (i + 1) * 2 ^ k = i * 2 ^ k + (2 ^ k - 1) + 1 := by
        rw [Nat.succ_mul]
        omega
      rw [hindex, List.getElem?_cons_succ,
        getElem?_of_betweenAll hbehind (Nat.lt_of_succ_lt_succ hi)]
      rfl

section Invariant

variable {p : τ → Prop}
  (made : ∀ left right middle, p left → midpoint left right = .ok middle → p middle)

include made

theorem forall_of_between {left right : τ} {frames : List τ} (hleft : p left) (hright : p right)
    (h : between midpoint k left right = .ok frames) : ∀ frame ∈ frames, p frame := by
  induction k generalizing left right frames with
  | zero =>
    obtain rfl := Except.ok.inj h
    exact List.forall_mem_singleton.mpr hright
  | succ k ih =>
    obtain ⟨middle, before, behind, hmiddle, hbefore, hbehind, rfl⟩ := between_succ_eq_ok.mp h
    have hp := made left right middle hleft hmiddle
    exact List.forall_mem_append.mpr ⟨ih hleft hp hbefore, ih hp hright hbehind⟩

theorem forall_of_betweenAll {left : τ} {rest frames : List τ} (hleft : p left)
    (hrest : ∀ frame ∈ rest, p frame) (h : betweenAll midpoint k left rest = .ok frames) :
    ∀ frame ∈ frames, p frame := by
  induction rest generalizing left frames with
  | nil =>
    obtain rfl := Except.ok.inj h
    nofun
  | cons right rest ih =>
    obtain ⟨hright, hrest⟩ := List.forall_mem_cons.mp hrest
    obtain ⟨before, behind, hbefore, hbehind, rfl⟩ := betweenAll_cons_eq_ok.mp h
    exact List.forall_mem_append.mpr
      ⟨forall_of_between made hleft hright hbefore, ih hright hrest hbehind⟩

/-- What holds of the frames of a sequence, and of whatever is made from them, holds of all frames
between them. -/
theorem forall_of_refined {frames result : List τ} (hframes : ∀ frame ∈ frames, p frame)
    (h : refined midpoint k frames = .ok result) : ∀ frame ∈ result, p frame := by
  cases frames with
  | nil =>
    obtain rfl := Except.ok.inj h
    nofun
  | cons first rest =>
    obtain ⟨hfirst, hrest⟩ := List.forall_mem_cons.mp hframes
    obtain ⟨behind, hbehind, rfl⟩ := refined_cons_eq_ok.mp h
    exact List.forall_mem_cons.mpr ⟨hfirst, forall_of_betweenAll made hfirst hrest hbehind⟩

end Invariant

end Midframe
