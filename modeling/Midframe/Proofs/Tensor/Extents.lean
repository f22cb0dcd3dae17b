import Midframe.Proofs.Outcome
import Midframe.Layer
import Midframe.Pyramid.Flow

/-!
# Extents of results

What an array operation does to the shape of its input depends on nothing but that shape, and so
does whether it succeeds. For every operation there is one equation or equivalence that says so.
-/

namespace Midframe

/-! ## Borders -/

/-- Padding of an array of this shape succeeds: nothing is added, or there is enough to read. -/
def Border.Fits (border : Border) (p : Padding) (s : Shape) : Prop :=
  p.isZero = true ∨ border.check p s = .ok ()

theorem Border.fits_zeros (p : Padding) (s : Shape) : Border.zeros.Fits p s := .inr rfl

theorem Border.fits_replicate {p : Padding} {s : Shape} (height : 0 < s.height)
    (width : 0 < s.width) : Border.replicate.Fits p s := by
  refine .inr ?_
  simp only [Border.check]
  rw [if_neg (by simp; omega)]

/-- Mirror images reach far enough exactly if they are of fewer rows and columns than there are. -/
theorem Border.fits_reflect {p : Padding} {s : Shape} : Border.reflect.Fits p s ↔
    p.isZero = true ∨ (max p.top p.bottom < s.height ∧ max p.left p.right < s.width) := by
  unfold Border.Fits
  refine or_congr_right ?_
  simp only [Border.check]
  split
  · next h =>
    simp only [Bool.or_eq_true, decide_eq_true_eq] at h
    constructor
    · intro h'
      cases h'
    · intro h'
      omega
  · next h =>
    simp only [Bool.or_eq_true, decide_eq_true_eq] at h
    constructor
    · intro _
      omega
    · intro _
      rfl

theorem Shape.padded_of_isZero {s : Shape} {p : Padding} (h : p.isZero = true) :
    s.padded p = s := by
  simp only [Padding.isZero, Bool.and_eq_true, beq_iff_eq] at h
  simp [Shape.padded, Shape.resized, h]

theorem Shape.add_eq_ok {s t u : Shape} : s.add t = .ok u ↔ s = u ∧ t = u := by
  unfold Shape.add
  by_cases h : s = t
  · rw [if_pos (beq_iff_eq.mpr h), h]
    simp
  · rw [if_neg (by simpa using h)]
    constructor
    · intro h'
      cases h'
    · rintro ⟨hs, ht⟩
      exact absurd (hs.trans ht.symm) h

theorem Shape.crop_eq_ok {s : Shape} {height width : Nat} (hheight : height ≤ s.height)
    (hwidth : width ≤ s.width) : s.crop height width = .ok (s.resized height width) := by
  unfold Shape.crop
  rw [if_neg (by simp; omega)]

namespace Tensor

variable {α : Type}

/-! ## Building and combining -/

@[simp] theorem shape_ofFn (s : Shape) (f : Nat → Nat → Nat → Nat → α) : (ofFn s f).shape = s := rfl

@[simp] theorem shape_prelu [Scalar α] (t : Tensor α) (slope : α) :
    (t.prelu slope).shape = t.shape := rfl

/-- The extents of a sum. -/
theorem add_shape (a b : Tensor Float32) : (a.add b).map shape = a.shape.add b.shape := by
  unfold add Shape.add
  by_cases h : a.shape = b.shape
  · rw [dif_pos h, if_pos (beq_iff_eq.mpr h)]
    rfl
  · rw [dif_neg h, if_neg (by simpa using h)]
    rfl

/-- The extents of leading rows and columns. -/
theorem crop_shape [Scalar α] (t : Tensor α) (height width : Nat) :
    (t.crop height width).map shape = t.shape.crop height width := by
  unfold crop Shape.crop
  split
  · rfl
  · split
    · next h =>
      simp only [Bool.and_eq_true, beq_iff_eq] at h
      show Except.ok t.shape = .ok (t.shape.resized height width)
      rw [h.1, h.2]
      rfl
    · rfl

theorem exists_crop [Scalar α] {t : Tensor α} {height width : Nat}
    (hheight : height ≤ t.shape.height) (hwidth : width ≤ t.shape.width) :
    ∃ r, t.crop height width = .ok r ∧ r.shape = t.shape.resized height width :=
  map_eq_ok.mp ((t.crop_shape height width).trans (Shape.crop_eq_ok hheight hwidth))

/-- The extents of a padded array. -/
theorem pad_shape [Scalar α] (t : Tensor α) (p : Padding) (border : Border) (s : Shape) :
    (t.pad p border).map shape = .ok s ↔ t.shape.padded p = s ∧ border.Fits p t.shape := by
  unfold pad Border.Fits
  by_cases hzero : p.isZero = true
  · rw [if_pos hzero]
    simp [hzero, Shape.padded_of_isZero hzero]
  · rw [if_neg hzero]
    cases hcheck : border.check p t.shape with
    | error e => simp [hzero]
    | ok u => simp

end Tensor

/-! ## Resampling -/

/-- Scaling of an array of this shape succeeds: the scale is a positive number, and something is
left. -/
def Shape.Scalable (s : Shape) (scale : Float) : Prop :=
  (Scalar.isFinite scale && Scalar.lt Scalar.zero scale) = true ∧
    0 < (s.scaled scale).height ∧ 0 < (s.scaled scale).width

namespace Tensor

/-- The extents of a scaled array. -/
theorem resize_shape (t : Tensor Float32) (scale : Float) (filter : Filter) (s : Shape) :
    (t.resize scale filter).map shape = .ok s ↔
      t.shape.scaled scale = s ∧ t.shape.Scalable scale := by
  unfold resize Shape.Scalable
  cases hscale : Scalar.isFinite scale && Scalar.lt Scalar.zero scale with
  | false => simp
  | true =>
    by_cases hempty : (t.shape.scaled scale).height = 0 ∨ (t.shape.scaled scale).width = 0
    · have hif : ((t.shape.scaled scale).height == 0 || (t.shape.scaled scale).width == 0) = true :=
        by simpa using hempty
      simp only [Bool.not_true, Bool.false_eq_true, ↓reduceIte, hif, map_eq_ok]
      constructor
      · rintro ⟨_, h, -⟩
        cases h
      · rintro ⟨-, -, h⟩
        omega
    · have hif :
          ((t.shape.scaled scale).height == 0 || (t.shape.scaled scale).width == 0) = false :=
        by simpa using hempty
      simp only [Bool.not_true, Bool.false_eq_true, ↓reduceIte, hif, map_eq_ok]
      constructor
      · rintro ⟨y, h, hs⟩
        cases h
        exact ⟨hs, trivial, by omega, by omega⟩
      · rintro ⟨h, -⟩
        exact ⟨_, rfl, h⟩

/-- The extents of an expanded array. -/
theorem expand_shape (t : Tensor Float32) (s : Shape) :
    t.expand.map shape = .ok s ↔ t.shape.doubled = s ∧ 0 < t.shape.height ∧ 0 < t.shape.width := by
  unfold expand
  by_cases hempty : t.shape.height = 0 ∨ t.shape.width = 0
  · rw [if_pos (by simpa using hempty)]
    constructor
    · intro h
      cases h
    · rintro ⟨-, h⟩
      omega
  · rw [if_neg (by simpa using hempty)]
    simp only [map_eq_ok]
    constructor
    · rintro ⟨y, h, hs⟩
      cases h
      exact ⟨hs, by omega, by omega⟩
    · rintro ⟨h, -⟩
      exact ⟨_, rfl, h⟩

/-- Shuffling, where the channels of a cell can be counted. -/
theorem shuffle_of_le {α : Type} [Scalar α] (t : Tensor α) {r : Nat} (h : r * r ≤ maxCount) :
    t.shuffle r = if r == 0 || t.shape.channels % (r * r) != 0 then
        .error (.shuffleChannels t.shape.channels)
      else .ok (ofFn (t.shape.shuffled r) fun n c y x =>
        t.get n (c * (r * r) + y % r * r + x % r) (y / r) (x / r)) := by
  rw [shuffle, checkedCount_of_le h]
  rfl

theorem shuffle_of_lt {α : Type} [Scalar α] (t : Tensor α) {r : Nat} (h : maxCount < r * r) :
    t.shuffle r = .error .overflow := by
  rw [shuffle, checkedCount_of_lt h]
  rfl

/-- The extents of a shuffled array. -/
theorem shuffle_shape (t : Tensor Float32) :
    (t.shuffle 2).map shape = if t.shape.channels % 4 != 0 then
      .error (.shuffleChannels t.shape.channels) else .ok (t.shape.shuffled 2) := by
  rw [shuffle_of_le t (by decide)]
  by_cases h : t.shape.channels % 4 = 0
  · simp [h, Except.map]
  · simp [h, Except.map]

end Tensor

/-! ## Convolutions -/

namespace Convolution

/-- The kernels have as many columns as rows. -/
def IsSquare (c : Convolution) : Prop := c.weight.shape.width = c.kernel

/-- What the inference through a convolution requires and gives. -/
theorem outputShape_eq_ok {c : Convolution} {s t : Shape} : c.outputShape s = .ok t ↔
    s.channels = c.inputs ∧ ∃ height width, c.windows.count? s.height c.kernel = some height ∧
      c.windows.count? s.width c.kernel = some width ∧ ⟨s.batch, c.outputs, height, width⟩ = t := by
  unfold outputShape
  by_cases hchannels : s.channels = c.inputs
  · rw [if_neg (by simpa using hchannels)]
    cases c.windows.count? s.height c.kernel with
    | none => simp
    | some height =>
      cases c.windows.count? s.width c.kernel with
      | none => simp
      | some width => simp [hchannels]
  · rw [if_pos (by simpa using hchannels)]
    simp [hchannels]

/-- The extents of a convolved array. -/
theorem forward_shape {c : Convolution} (square : c.IsSquare) (t : Tensor Float32) (s : Shape) :
    (c.forward t).map Tensor.shape = .ok s ↔ c.outputShape t.shape = .ok s ∧
      c.windows.border.Fits (Padding.uniform c.windows.padding) t.shape := by
  have hbias :
      (((c.bias.map (·.toArray)).map (·.size)).any (· != c.weight.shape.batch)) = false := by
    cases c.bias <;> simp
  have hpad := t.pad_shape (Padding.uniform c.windows.padding) c.windows.border
    (t.shape.padded (Padding.uniform c.windows.padding))
  simp only [true_and] at hpad
  unfold forward Tensor.convolve outputShape
  by_cases hchannels : c.weight.shape.channels = t.shape.channels
  · rw [square]
    simp only [hbias, inputs, kernel, outputs, hchannels, bne_self_eq_false, Bool.false_eq_true,
      ↓reduceIte]
    cases c.windows.count? t.shape.height c.weight.shape.height with
    | none => simp
    | some height =>
      cases c.windows.count? t.shape.width c.weight.shape.height with
      | none => simp
      | some width =>
        cases hp : t.pad (Padding.uniform c.windows.padding) c.windows.border with
        | error e =>
          rw [hp] at hpad
          simp [← hpad]
        | ok padded =>
          have hfits : c.windows.border.Fits (Padding.uniform c.windows.padding) t.shape := by
            have := (t.pad_shape (Padding.uniform c.windows.padding) c.windows.border padded.shape)
            rw [hp] at this
            exact (this.mp rfl).2
          simp [hfits]
  · have hother : (t.shape.channels != c.inputs) = true := by simpa [inputs] using Ne.symm hchannels
    rw [if_pos (by simpa using hchannels), if_pos hother]
    simp

end Convolution

end Midframe
