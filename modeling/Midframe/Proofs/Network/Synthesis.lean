import Mathlib.Tactic.Linarith
import Mathlib.Tactic.Ring
import Midframe.Proofs.Network.Sound
import Midframe.Proofs.Scalar.Rational
import Midframe.Proofs.Tensor.Borders

/-!
# What synthesis computes

In exact arithmetic, a sample of a synthesized frame is a sum over the windows around its position
in both frames, positions beyond the edges standing for the nearest one within: every sample of a
window counts by the product of its vertical and its horizontal weight. The sum is divided by the
sum of all weights, unless that is nearly zero. So where it is not, two frames of one constant value
come out unchanged, whatever the kernels are.
-/

namespace Midframe

namespace Tensor

/-! ## Frames in front of the filters -/

section Frames

variable {α : Type} [Scalar α]

variable {t : Tensor α}

/-- Repeated edges. -/
theorem pad_replicate (hheight : 0 < t.shape.height) (hwidth : 0 < t.shape.width) (p : Padding) :
    ∃ u, t.pad p .replicate = .ok u ∧ u.Tabulates (t.shape.padded p) fun n c y x =>
      t.get n c (clampedIndex t.shape.height (y - p.top))
        (clampedIndex t.shape.width (x - p.left)) := by
  have hadmits : Border.replicate.Admits p t.shape := .inr ⟨hheight, hwidth⟩
  obtain ⟨u, hu, htable⟩ := pad_of_admits hadmits
  refine ⟨u, hu, htable.congr fun n c y x _ _ _ _ => ?_⟩
  simp only [getBeyond, Border.resolve?_replicate]

/-- A channel of ones behind the others. -/
theorem concatChannels_ones (t : Tensor α) :
    ∃ u, concatChannels [t, replicate { t.shape with channels := 1 } Scalar.one] = .ok u ∧
      u.Tabulates { t.shape with channels := t.shape.channels + 1 } fun n c y x =>
        if c < t.shape.channels then t.get n c y x else Scalar.one := by
  refine ⟨_, if_pos ?_, rfl, ?_⟩
  · simp [replicate]
  intro n c y x hn (hc : c < t.shape.channels + 1) hy hx
  refine (get_ofFn _ hn hc hy hx).trans ?_
  simp only [getFromParts]
  split
  · rfl
  · rw [if_pos (by simp only [replicate]; omega)]
    exact get_replicate _ hn (by simp only; omega) hy hx

/-- A frame as it is filtered by `2 * r + 1` taps. -/
theorem synthesisFrame_odd (hheight : 0 < t.shape.height) (hwidth : 0 < t.shape.width) (r : Nat) :
    ∃ u, t.synthesisFrame (2 * r + 1) = .ok u ∧
      u.Tabulates ⟨t.shape.batch, t.shape.channels + 1, t.shape.height + 2 * r,
          t.shape.width + 2 * r⟩ fun n c y x =>
        if c < t.shape.channels then t.get n c (clampedIndex t.shape.height (y - r))
          (clampedIndex t.shape.width (x - r))
        else Scalar.one := by
  have hhalf : (2 * r + 1) / 2 = r := by omega
  obtain ⟨v, hv, hshape, hsamples⟩ := t.concatChannels_ones
  obtain ⟨u, hu, htable⟩ := pad_replicate (t := v) (by rw [hshape]; exact hheight)
    (by rw [hshape]; exact hwidth) (Padding.uniform r)
  refine ⟨u, bind_eq_ok.mpr ⟨v, hv, by rw [hhalf]; exact hu⟩, ?_⟩
  have hpadded : v.shape.padded (Padding.uniform r) = ⟨t.shape.batch, t.shape.channels + 1,
      t.shape.height + 2 * r, t.shape.width + 2 * r⟩ := by
    rw [hshape]
    simp only [Shape.padded, Shape.resized, Padding.uniform, Shape.mk.injEq, true_and]
    omega
  refine ⟨htable.shape.trans hpadded, fun hn hc hy hx => ?_⟩
  rw [← hpadded] at hn hc hy hx
  rw [htable.get hn hc hy hx, hshape]
  rw [hpadded] at hn hc
  exact hsamples hn hc (clampedIndex_lt hheight _) (clampedIndex_lt hwidth _)

/-- Filters that fit a frame. -/
theorem separableFilter_of_fits {vertical horizontal : Tensor α}
    (hpair : vertical.shape = horizontal.shape) (hchannels : 0 < vertical.shape.channels)
    (hbatch : t.shape.batch = vertical.shape.batch)
    (hheight : t.shape.height = vertical.shape.height + (vertical.shape.channels - 1))
    (hwidth : t.shape.width = vertical.shape.width + (vertical.shape.channels - 1)) :
    ∃ u, t.separableFilter vertical horizontal = .ok u ∧
      u.Tabulates { vertical.shape with channels := t.shape.channels }
        (t.filteredSample vertical horizontal) := by
  have hwindow : ¬(vertical.shape.channels == 0 || t.shape.batch != vertical.shape.batch
      || t.shape.height != vertical.shape.height + (vertical.shape.channels - 1)
      || t.shape.width != vertical.shape.width + (vertical.shape.channels - 1)) = true := by
    simp [hbatch, hheight, hwidth, Nat.ne_of_gt hchannels]
  exact ⟨_, (if_neg (by simpa using hpair)).trans (if_neg hwindow), tabulates_ofFn _ _⟩

theorem Tabulates.add {a b : Tensor α} {s : Shape} {f g : Nat → Nat → Nat → Nat → α}
    (ha : a.Tabulates s f) (hb : b.Tabulates s g) :
    ∃ u, a.add b = .ok u ∧ u.Tabulates s fun n c y x => f n c y x + g n c y x := by
  obtain ⟨u, hu⟩ : ∃ u, a.add b = .ok u := ⟨_, dif_pos (ha.shape.trans hb.shape.symm)⟩
  obtain ⟨-, hshape, hget⟩ := add_eq_ok.mp hu
  rw [ha.shape] at hshape hget
  refine ⟨u, hu, hshape, fun hn hc hy hx => ?_⟩
  rw [hget _ _ _ _ hn hc hy hx, ha.get hn hc hy hx, hb.get hn hc hy hx]

theorem Tabulates.divideByNormalizer {n c height width : Nat} {f : Nat → Nat → Nat → Nat → α}
    (h : t.Tabulates ⟨n, c + 1, height, width⟩ f) (hc : 0 < c) :
    ∃ u, t.divideByNormalizer = .ok u ∧ u.Tabulates ⟨n, c, height, width⟩ fun n k y x =>
      f n k y x / normalizerOf (f n c y x) := by
  have hlarge : ¬t.shape.channels < 2 := by
    rw [h.shape]
    exact Nat.not_lt.mpr (Nat.succ_le_succ hc)
  refine ⟨_, if_neg hlarge, ?_⟩
  rw [h.shape]
  refine ⟨rfl, ?_⟩
  intro m k y x hm (hk : k < c) hy hx
  refine (get_ofFn _ hm hk hy hx).trans ?_
  have hlast : c + 1 - 1 = c := rfl
  rw [h.get hm (Nat.lt_succ_of_lt hk) hy hx, hlast, h.get hm (Nat.lt_succ_self c) hy hx]

end Frames

/-! ## Filters in exact arithmetic -/

/-- What the taps of a pair of kernels see around a position, summed by the products of their
weights there. -/
def windowSum (vertical horizontal : Tensor ℚ) (taps n y x : Nat) (f : Nat → Nat → ℚ) : ℚ :=
  ∑ i ∈ Finset.range taps, ∑ j ∈ Finset.range taps,
    vertical.get n i y x * horizontal.get n j y x * f i j

theorem windowSum_const (vertical horizontal : Tensor ℚ) (taps n y x : Nat) (v : ℚ) :
    windowSum vertical horizontal taps n y x (fun _ _ => v)
      = windowSum vertical horizontal taps n y x (fun _ _ => 1) * v := by
  simp only [windowSum, Finset.sum_mul, mul_one]

theorem windowSum_congr {vertical horizontal : Tensor ℚ} {taps n y x : Nat} {f g : Nat → Nat → ℚ}
    (h : ∀ i < taps, ∀ j < taps, f i j = g i j) :
    windowSum vertical horizontal taps n y x f = windowSum vertical horizontal taps n y x g := by
  refine Finset.sum_congr rfl fun i hi => Finset.sum_congr rfl fun j hj => ?_
  rw [h i (Finset.mem_range.mp hi) j (Finset.mem_range.mp hj)]

theorem filteredSample_eq (t vertical horizontal : Tensor ℚ) (n c y x : Nat) :
    t.filteredSample vertical horizontal n c y x =
      windowSum vertical horizontal vertical.shape.channels n y x
        fun i j => t.get n c (y + i) (x + j) := by
  have hrow (i : Nat) : Nat.fold vertical.shape.channels (fun j _ (acc : ℚ) =>
        acc + t.get n c (y + i) (x + j) * horizontal.get n j y x) 0
      = ∑ j ∈ Finset.range vertical.shape.channels,
          t.get n c (y + i) (x + j) * horizontal.get n j y x := fold_add_eq_sum _ _
  show Nat.fold vertical.shape.channels (fun i _ (acc : ℚ) => acc +
      Nat.fold vertical.shape.channels (fun j _ (acc : ℚ) =>
        acc + t.get n c (y + i) (x + j) * horizontal.get n j y x) 0 * vertical.get n i y x) 0 = _
  simp only [hrow]
  rw [fold_add_eq_sum]
  refine Finset.sum_congr rfl fun i _ => ?_
  rw [Finset.sum_mul]
  refine Finset.sum_congr rfl fun j _ => ?_
  ring

/-- What the window of `2 * r + 1` rows and columns around a position holds, edges repeated. -/
def window (t : Tensor ℚ) (r n c y x i j : Nat) : ℚ :=
  t.get n c (clampedIndex t.shape.height (y + i - r)) (clampedIndex t.shape.width (x + j - r))

/-- A prepared frame behind its filter: the windows of the frame in its own channels, the sum of
all weights in the last one. -/
theorem filter_synthesisFrame {t vertical horizontal : Tensor ℚ} {n c height width r : Nat}
    (ht : t.shape = ⟨n, c, height, width⟩) (hheight : 0 < height) (hwidth : 0 < width)
    (hvertical : vertical.shape = ⟨n, 2 * r + 1, height, width⟩)
    (hhorizontal : horizontal.shape = ⟨n, 2 * r + 1, height, width⟩) :
    ∃ framed u, t.synthesisFrame (2 * r + 1) = .ok framed ∧
      framed.separableFilter vertical horizontal = .ok u ∧
      u.Tabulates ⟨n, c + 1, height, width⟩ fun n k y x =>
        windowSum vertical horizontal (2 * r + 1) n y x
          fun i j => if k < c then t.window r n k y x i j else 1 := by
  obtain ⟨framed, hframed, htable⟩ := synthesisFrame_odd (t := t) (by rw [ht]; exact hheight)
    (by rw [ht]; exact hwidth) r
  rw [ht] at htable
  obtain ⟨u, hu, hfiltered⟩ := separableFilter_of_fits (t := framed)
    (hvertical.trans hhorizontal.symm) (by rw [hvertical]; exact Nat.succ_pos _)
    (by rw [htable.shape, hvertical]) (by rw [htable.shape, hvertical]; rfl)
    (by rw [htable.shape, hvertical]; rfl)
  rw [hvertical, htable.shape] at hfiltered
  refine ⟨framed, u, hframed, hu, hfiltered.shape, fun {m k y x} hm hk hy hx => ?_⟩
  rw [hfiltered.get hm hk hy hx, filteredSample_eq, hvertical]
  refine windowSum_congr fun i hi j hj => ?_
  rw [htable.get hm hk (Nat.add_lt_add_of_lt_of_le hy (Nat.le_of_lt_succ hi))
    (Nat.add_lt_add_of_lt_of_le hx (Nat.le_of_lt_succ hj)), window, ht]
  simp only [Nat.cast_add]
  rfl

end Tensor

/-! ## Both frames -/

namespace Heads

/-- What the windows in the first and in the second frame hold, summed by the products of their
weights. -/
def windowSum (kernels : Heads (Tensor ℚ)) (taps n y x : Nat) (f g : Nat → Nat → ℚ) : ℚ :=
  Tensor.windowSum kernels.verticalOne kernels.horizontalOne taps n y x f +
    Tensor.windowSum kernels.verticalTwo kernels.horizontalTwo taps n y x g

/-- The sum of all weights at a position. -/
def weight (kernels : Heads (Tensor ℚ)) (taps n y x : Nat) : ℚ :=
  kernels.windowSum taps n y x (fun _ _ => 1) fun _ _ => 1

theorem windowSum_const (kernels : Heads (Tensor ℚ)) (taps n y x : Nat) (v : ℚ) :
    kernels.windowSum taps n y x (fun _ _ => v) (fun _ _ => v) = kernels.weight taps n y x * v := by
  simp only [weight, windowSum, Tensor.windowSum_const _ _ _ _ _ _ v, add_mul]

end Heads

theorem Tensor.normalizerOf_rat (v : ℚ) :
    normalizerOf v = if 1 / 100 ≤ |v| then v else 1 := by
  have hfloor : (Scalar.ratio 1 100 : ℚ) = 1 / 100 := by
    rw [Scalar.ratio_rat]
    norm_num
  unfold normalizerOf
  by_cases h : 1 / 100 ≤ |v|
  · rw [if_pos h, if_neg (by rw [Scalar.isWithin_rat, hfloor]; exact not_lt.mpr h)]
  · rw [if_neg h, if_pos (by rw [Scalar.isWithin_rat, hfloor]; exact not_le.mp h)]
    rfl

namespace Network

variable {one two : Tensor ℚ} {kernels : Heads (Tensor ℚ)} {n c height width : Nat}

/-- The synthesized frame of two frames of at least one channel, row and column, by kernels of
`2 * r + 1` taps. -/
theorem synthesize_rational (r : Nat) (hone : one.shape = ⟨n, c, height, width⟩)
    (htwo : two.shape = ⟨n, c, height, width⟩)
    (hkernels : kernels.Forall fun k => k.shape = ⟨n, 2 * r + 1, height, width⟩)
    (hc : 0 < c) (hheight : 0 < height) (hwidth : 0 < width) :
    ∃ framedOne framedTwo out, one.synthesisFrame (2 * r + 1) = .ok framedOne ∧
      two.synthesisFrame (2 * r + 1) = .ok framedTwo ∧
      synthesize framedOne framedTwo kernels = .ok out ∧ out.shape = ⟨n, c, height, width⟩ ∧
      (∀ m k y x, m < n → k < c → y < height → x < width → out.get m k y x =
        if 1 / 100 ≤ |kernels.weight (2 * r + 1) m y x| then
          kernels.windowSum (2 * r + 1) m y x (one.window r m k y x) (two.window r m k y x) /
            kernels.weight (2 * r + 1) m y x
        else kernels.windowSum (2 * r + 1) m y x (one.window r m k y x) (two.window r m k y x)) ∧
      ∀ v : Nat → Nat → ℚ, (∀ m k y x, m < n → k < c → y < height → x < width →
          one.get m k y x = v m k ∧ two.get m k y x = v m k) →
        ∀ m k y x, m < n → k < c → y < height → x < width →
          1 / 100 ≤ |kernels.weight (2 * r + 1) m y x| → out.get m k y x = v m k := by
  obtain ⟨framedOne, a, hframedOne, ha, hta⟩ := Tensor.filter_synthesisFrame hone hheight hwidth
    hkernels.verticalOne hkernels.horizontalOne
  obtain ⟨framedTwo, b, hframedTwo, hb, htb⟩ := Tensor.filter_synthesisFrame htwo hheight hwidth
    hkernels.verticalTwo hkernels.horizontalTwo
  obtain ⟨s, hs, hts⟩ := hta.add htb
  obtain ⟨out, hout, htout⟩ := hts.divideByNormalizer hc
  have hget (m k y x : Nat) (hm : m < n) (hk : k < c) (hy : y < height) (hx : x < width) :
      out.get m k y x = if 1 / 100 ≤ |kernels.weight (2 * r + 1) m y x| then
          kernels.windowSum (2 * r + 1) m y x (one.window r m k y x) (two.window r m k y x) /
            kernels.weight (2 * r + 1) m y x
        else kernels.windowSum (2 * r + 1) m y x (one.window r m k y x) (two.window r m k y x) := by
    rw [htout.get hm hk hy hx]
    simp only [hk, ↓reduceIte, Nat.lt_irrefl, Tensor.normalizerOf_rat]
    show _ / (if 1 / 100 ≤ |kernels.weight (2 * r + 1) m y x| then
      kernels.weight (2 * r + 1) m y x else 1) = _
    split
    · rfl
    · exact div_one _
  refine ⟨framedOne, framedTwo, out, hframedOne, hframedTwo, ?_, htout.shape, hget, ?_⟩
  · exact bind_eq_ok.mpr ⟨a, ha, bind_eq_ok.mpr ⟨b, hb, bind_eq_ok.mpr ⟨s, hs, hout⟩⟩⟩
  · intro v hconst m k y x hm hk hy hx hweight
    have hwindows : one.window r m k y x = (fun _ _ => v m k) ∧
        two.window r m k y x = fun _ _ => v m k := by
      have hclamped (i j : Int) := hconst m k (clampedIndex height i) (clampedIndex width j) hm hk
        (clampedIndex_lt hheight i) (clampedIndex_lt hwidth j)
      constructor <;> funext i j
      · rw [Tensor.window, hone]
        exact (hclamped _ _).1
      · rw [Tensor.window, htwo]
        exact (hclamped _ _).2
    have hne : kernels.weight (2 * r + 1) m y x ≠ 0 := by
      rintro hzero
      rw [hzero, abs_zero] at hweight
      norm_num at hweight
    rw [hget m k y x hm hk hy hx, if_pos hweight, hwindows.1, hwindows.2, Heads.windowSum_const,
      mul_div_cancel_left₀ _ hne]

/-- A single row of two columns, the first of which sees itself twice. -/
theorem synthesize_rational_row : ∃ framedOne framedTwo out,
    (Tensor.ofFn ⟨1, 1, 1, 2⟩ fun _ _ _ x => (x : ℚ)).synthesisFrame 3 = .ok framedOne ∧
    (Tensor.replicate ⟨1, 1, 1, 2⟩ (0 : ℚ)).synthesisFrame 3 = .ok framedTwo ∧
    synthesize framedOne framedTwo (.replicate (.replicate ⟨1, 3, 1, 2⟩ 1)) = .ok out ∧
    out.get 0 0 0 0 = 1 / 6 := by
  have hshape : (Tensor.ofFn ⟨1, 1, 1, 2⟩ fun _ _ _ x => (x : ℚ)).shape = ⟨1, 1, 1, 2⟩ := rfl
  have hzeros : (Tensor.replicate ⟨1, 1, 1, 2⟩ (0 : ℚ)).shape = ⟨1, 1, 1, 2⟩ := rfl
  have hkernels : (Heads.replicate (Tensor.replicate ⟨1, 3, 1, 2⟩ (1 : ℚ))).Forall
      fun k => k.shape = ⟨1, 2 * 1 + 1, 1, 2⟩ := ⟨rfl, rfl, rfl, rfl⟩
  obtain ⟨framedOne, framedTwo, out, hone, htwo, hout, -, hget, -⟩ :=
    synthesize_rational 1 hshape hzeros hkernels Nat.one_pos Nat.one_pos Nat.two_pos
  refine ⟨framedOne, framedTwo, out, hone, htwo, hout, ?_⟩
  rw [hget 0 0 0 0 Nat.one_pos Nat.one_pos Nat.one_pos Nat.two_pos]
  decide +kernel

end Network

end Midframe
