import Mathlib.Analysis.Convex.Combination
import Midframe.Proofs.Scalar.Dyadic
import Midframe.Proofs.Scalar.Rational
import Midframe.Proofs.Tensor.Borders

/-!
# What resampling computes

In exact arithmetic, every sample of a scaled or expanded array is a mean of the samples of its
channel. Its row and its column each come with weights that are not negative and are one in sum, so
it lies between any bounds of the channel. Along an axis that is scaled, the coordinate of an output
sample never passes the last input sample by half a step: the whole part of the coordinate is an
index without being held back.
-/

namespace Midframe

/-! ## Means -/

/-- Weights of the samples of an axis: not negative, and one in sum. -/
structure IsWeighting (n : Nat) (weight : Nat → ℚ) : Prop where
  nonneg : ∀ i < n, 0 ≤ weight i
  sum : ∑ i ∈ Finset.range n, weight i = 1

/-- What is computed of the samples of an axis is their mean by some weights. -/
def IsMean (n : Nat) (g : (Nat → ℚ) → ℚ) : Prop :=
  ∃ weight, IsWeighting n weight ∧ ∀ f, g f = ∑ i ∈ Finset.range n, weight i * f i

variable {n : Nat}

/-- A mean lies between the bounds of what it is the mean of. -/
theorem IsWeighting.sum_mem_Icc {weight f : Nat → ℚ} {lo hi : ℚ} (h : IsWeighting n weight)
    (hf : ∀ i < n, f i ∈ Set.Icc lo hi) :
    ∑ i ∈ Finset.range n, weight i * f i ∈ Set.Icc lo hi := by
  have hconvex : Convex ℚ (Set.Icc lo hi) := convex_Icc lo hi
  simp only [← smul_eq_mul]
  exact hconvex.sum_mem (fun i hi => h.nonneg i (Finset.mem_range.mp hi)) h.sum
    fun i hi => hf i (Finset.mem_range.mp hi)

theorem isMean_single {k : Nat} (h : k < n) : IsMean n fun f => f k := by
  refine ⟨fun i => if i = k then 1 else 0, ⟨fun i _ => ?_, ?_⟩, fun f => ?_⟩
  · show (0 : ℚ) ≤ if i = k then 1 else 0
    split
    · exact zero_le_one
    · exact le_refl 0
  · rw [Finset.sum_ite_eq', if_pos (Finset.mem_range.mpr h)]
  · simp only [ite_mul, one_mul, zero_mul]
    rw [Finset.sum_ite_eq', if_pos (Finset.mem_range.mpr h)]

/-- Two means, mixed. -/
theorem IsMean.mix {g h : (Nat → ℚ) → ℚ} (hg : IsMean n g) (hh : IsMean n h) {a b : ℚ} (ha : 0 ≤ a)
    (hb : 0 ≤ b) (hab : a + b = 1) : IsMean n fun f => g f * a + h f * b := by
  obtain ⟨u, hu, hgu⟩ := hg
  obtain ⟨v, hv, hhv⟩ := hh
  refine ⟨fun i => u i * a + v i * b, ⟨fun i hi => ?_, ?_⟩, fun f => ?_⟩
  · exact add_nonneg (mul_nonneg (hu.nonneg i hi) ha) (mul_nonneg (hv.nonneg i hi) hb)
  · rw [Finset.sum_add_distrib, ← Finset.sum_mul, ← Finset.sum_mul, hu.sum, hv.sum, one_mul,
      one_mul, hab]
  · simp only [hgu, hhv, Finset.sum_mul, ← Finset.sum_add_distrib]
    exact Finset.sum_congr rfl fun i _ => by ring

theorem IsMean.congr {g g' : (Nat → ℚ) → ℚ} (h : IsMean n g) (hg : ∀ f, g' f = g f) :
    IsMean n g' := by
  obtain ⟨weight, hweight, hsum⟩ := h
  exact ⟨weight, hweight, fun f => (hg f).trans (hsum f)⟩

/-- Rows and columns may be summed in either order. -/
theorem IsMean.comm {m : Nat} {g h : (Nat → ℚ) → ℚ} (hg : IsMean m g) (hh : IsMean n h)
    (f : Nat → Nat → ℚ) : (h fun j => g fun i => f i j) = g fun i => h (f i) := by
  obtain ⟨u, -, hgu⟩ := hg
  obtain ⟨v, -, hhv⟩ := hh
  simp only [hgu, hhv, Finset.mul_sum]
  rw [Finset.sum_comm]
  exact Finset.sum_congr rfl fun i _ => Finset.sum_congr rfl fun j _ => by ring

/-! ## Taps -/

theorem scaledExtent_le (n : Nat) (scale : ℚ) : scaledExtent n scale ≤ ⌊n * scale⌋₊ :=
  Nat.min_le_left _ _

namespace Tap

/-- The samples of a tap are those of the axis, if it has any. -/
theorem ofIndex_lt {α ω : Type} [Scalar α] [Scalar ω] [Widening α ω] (filter : Filter) (scale : ω)
    (d : Nat) (h : 0 < n) : (ofIndex filter scale n d : Tap α).low < n ∧
      (ofIndex filter scale n d : Tap α).high < n :=
  ⟨Nat.lt_of_le_pred h (ofIndex_low_le ..), Nat.lt_of_le_pred h (ofIndex_high_le ..)⟩

/-- The coordinate of the centre of output sample `d`, counted from the edge of the axis. -/
def centre (scale : ℚ) (d : Nat) : ℚ := (d + 1 / 2) / scale

/-- The coordinate of output sample `d`, counted from the centre of the first input sample. -/
def coordinate (scale : ℚ) (d : Nat) : ℚ := max 0 (centre scale d - 1 / 2)

/-- A tap that blends neighbouring samples of an axis, or reads the last one alone. The sample
behind never gets the whole share. -/
structure IsBetween (tap : Tap ℚ) (n : Nat) : Prop where
  low_lt : tap.low < n
  low_le_high : tap.low ≤ tap.high
  high_le : tap.high ≤ min (tap.low + 1) (n - 1)
  nonneg : 0 ≤ tap.fraction
  lt_one : tap.fraction < 1

theorem IsBetween.high_lt {tap : Tap ℚ} (h : tap.IsBetween n) : tap.high < n := by
  have hlow := h.low_lt
  have hhigh := h.high_le
  omega

theorem coordinate_mono {scale : ℚ} (hscale : 0 < scale) {d d' : Nat} (h : d ≤ d') :
    coordinate scale d ≤ coordinate scale d' := by
  have hd : (d : ℚ) ≤ d' := Nat.cast_le.mpr h
  unfold coordinate centre
  gcongr

section Exact

variable {scale : ℚ} {d : Nat} (hscale : 0 < scale) (hd : d < ⌊n * scale⌋₊)
include hscale hd

/-- The extent is rounded down, so that the last centre lies within the axis. -/
theorem centre_lt : centre scale d < n := by
  have hn : (0 : ℚ) ≤ n * scale := by positivity
  have hle : ((d + 1 : Nat) : ℚ) ≤ n * scale := (Nat.cast_le.mpr hd).trans (Nat.floor_le hn)
  push_cast at hle
  rw [centre, div_lt_iff₀ hscale]
  linarith

theorem floor_centre_lt : ⌊centre scale d⌋₊ < n :=
  (Nat.floor_lt (div_nonneg (by positivity) hscale.le)).mpr (centre_lt hscale hd)

theorem coordinate_lt : coordinate scale d < n := by
  have hlt := centre_lt hscale hd
  have hpos : 0 < centre scale d := div_pos (by positivity) hscale
  exact max_lt (hpos.trans hlt) (by linarith)

theorem floor_coordinate_lt : ⌊coordinate scale d⌋₊ < n :=
  (Nat.floor_lt (le_max_left _ _)).mpr (coordinate_lt hscale hd)

/-- The nearest sample is the one in whose cell the centre lies. -/
theorem ofIndex_nearest (bound : n ≤ 2 ^ 64) :
    (ofIndex .nearest scale n d : Tap ℚ) = ⟨⌊centre scale d⌋₊, ⌊centre scale d⌋₊, 0⟩ := by
  have htruncate : Scalar.truncate (centre scale d) = ⌊centre scale d⌋₊ :=
    Scalar.truncate_rat (centre_lt hscale hd) bound
  show (⟨min (Scalar.truncate (centre scale d)) (n - 1),
    min (Scalar.truncate (centre scale d)) (n - 1), 0⟩ : Tap ℚ) = _
  rw [htruncate, Nat.min_eq_left (Nat.le_sub_one_of_lt (floor_centre_lt hscale hd))]

/-- The coordinate lies between the two samples that are blended, or behind the last one. -/
theorem ofIndex_bilinear (bound : n ≤ 2 ^ 64) :
    (ofIndex .bilinear scale n d : Tap ℚ) = ⟨⌊coordinate scale d⌋₊,
      min (⌊coordinate scale d⌋₊ + 1) (n - 1), coordinate scale d - ⌊coordinate scale d⌋₊⟩ := by
  have hcoordinate : Scalar.nonnegative (centre scale d - Scalar.half) = coordinate scale d :=
    Scalar.nonnegative_rat _
  have htruncate : Scalar.truncate (coordinate scale d) = ⌊coordinate scale d⌋₊ :=
    Scalar.truncate_rat (coordinate_lt hscale hd) bound
  show (⟨min (Scalar.truncate (Scalar.nonnegative (centre scale d - Scalar.half))) (n - 1),
    min (min (Scalar.truncate (Scalar.nonnegative (centre scale d - Scalar.half))) (n - 1) + 1)
      (n - 1),
    Scalar.nonnegative (centre scale d - Scalar.half) - ((min (Scalar.truncate
      (Scalar.nonnegative (centre scale d - Scalar.half))) (n - 1) : Nat) : ℚ)⟩ : Tap ℚ) = _
  rw [hcoordinate, htruncate,
    Nat.min_eq_left (Nat.le_sub_one_of_lt (floor_coordinate_lt hscale hd))]

/-- Under both filters the samples of a tap are neighbours on the axis. -/
theorem isBetween_ofIndex (bound : n ≤ 2 ^ 64) (filter : Filter) :
    (ofIndex filter scale n d : Tap ℚ).IsBetween n := by
  cases filter with
  | nearest =>
    have hlt := floor_centre_lt hscale hd
    rw [ofIndex_nearest hscale hd bound]
    exact ⟨hlt, le_refl _, le_min (Nat.le_succ _) (Nat.le_sub_one_of_lt hlt), le_refl _, one_pos⟩
  | bilinear =>
    have hlt := floor_coordinate_lt hscale hd
    have hfloor : (⌊coordinate scale d⌋₊ : ℚ) ≤ coordinate scale d :=
      Nat.floor_le (le_max_left _ _)
    have hnext := Nat.lt_floor_add_one (coordinate scale d)
    rw [ofIndex_bilinear hscale hd bound]
    exact ⟨hlt, le_min (Nat.le_succ _) (Nat.le_sub_one_of_lt hlt), le_refl _, sub_nonneg.mpr hfloor,
      by linarith⟩

end Exact

theorem IsBetween.isMean_blend {tap : Tap ℚ} (h : tap.IsBetween n) :
    IsMean n fun f => tap.blend (f tap.low) (f tap.high) :=
  (isMean_single h.low_lt).mix (isMean_single h.high_lt) (sub_nonneg.mpr h.lt_one.le) h.nonneg
    (sub_add_cancel 1 tap.fraction)

end Tap

namespace Tensor

/-! ## Expanded axes -/

/-- Even positions weigh three samples by 1, 6 and 1, odd ones weigh two alike. -/
theorem isMean_expandedSample {i : Nat} (hi : i < n * 2) : IsMean n (expandedSample n i) := by
  have hprevious : IsMean n fun f => f (i / 2 - 1) := isMean_single (by omega)
  have hhere : IsMean n fun f => f (i / 2) := isMean_single (by omega)
  have hnext : IsMean n fun f => f (min (i / 2 + 1) (n - 1)) := isMean_single (by omega)
  rcases Nat.mod_two_eq_zero_or_one i with hmod | hmod
  · -- The two samples behind are mixed by 6 and 1, and outweigh the one in front by 7 to 1.
    have hbehind := hhere.mix hnext (a := 6 / 7) (b := 1 / 7) (by norm_num) (by norm_num)
      (by norm_num)
    refine (hprevious.mix hbehind (a := 1 / 8) (b := 7 / 8) (by norm_num) (by norm_num)
      (by norm_num)).congr fun f => ?_
    simp only [expandedSample, hmod, Scalar.ratio_rat]
    show (f _ + (6 : Nat) * f _ + f _) * ((1 : Nat) / (8 : Nat)) = _
    push_cast
    ring
  · refine (hhere.mix hnext (a := 1 / 2) (b := 1 / 2) (by norm_num) (by norm_num)
      (by norm_num)).congr fun f => ?_
    simp only [expandedSample, hmod, Scalar.half, Scalar.ratio_rat]
    show (f _ + f _) * ((1 : Nat) / (2 : Nat)) = _
    push_cast
    ring

/-! ## Samples -/

section Samples

variable {α ω : Type} [Scalar α] [Scalar ω] [Widening α ω] {t r : Tensor α} {n c y x : Nat}

theorem get_resample (t : Tensor α) (scale : ω) (filter : Filter) (hn : n < t.shape.batch)
    (hc : c < t.shape.channels) (hy : y < (t.shape.scaled scale).height)
    (hx : x < (t.shape.scaled scale).width) :
    (t.resample scale filter).get n c y x = t.getBlended n c
      (Tap.ofIndex filter scale t.shape.height y) (Tap.ofIndex filter scale t.shape.width x) := by
  refine (get_ofFn (s := t.shape.scaled scale) _ hn hc hy hx).trans ?_
  simp only [Array.getElem?_ofFn, hy, hx, ↓reduceDIte]

/-- An array is expanded along its rows, and then along its columns. -/
theorem tabulates_of_expand (h : t.expand = .ok r) : 0 < t.shape.height ∧ 0 < t.shape.width ∧
    r.Tabulates t.shape.doubled fun n c y x => expandedSample t.shape.width x fun j =>
      expandedSample t.shape.height y fun i => t.get n c i j := by
  unfold expand at h
  split at h
  · cases h
  · next hempty =>
    simp only [Bool.or_eq_true, beq_iff_eq, not_or] at hempty
    cases h
    refine ⟨Nat.pos_of_ne_zero hempty.1, Nat.pos_of_ne_zero hempty.2,
      (tabulates_ofFn t.shape.doubled _).congr fun n c y x hn hc hy hx => ?_⟩
    -- The columns are expanded from the array whose rows already are.
    refine expandedSample_congr hx fun j hj => ?_
    exact get_ofFn _ hn hc hy (Nat.lt_of_le_pred (Nat.pos_of_ne_zero hempty.2) hj)

end Samples

/-! ## Averages -/

/-- Every sample of `r` is a mean of the samples of its channel of `t`. The weights of the rows and
of the columns are those of its position, whatever the samples are. -/
structure Averages (r t : Tensor ℚ) : Prop where
  batch : r.shape.batch = t.shape.batch
  channels : r.shape.channels = t.shape.channels
  samples : ∀ y < r.shape.height, ∀ x < r.shape.width, ∃ rows columns,
    IsWeighting t.shape.height rows ∧ IsWeighting t.shape.width columns ∧
      ∀ n < t.shape.batch, ∀ c < t.shape.channels, r.get n c y x =
        ∑ i ∈ Finset.range t.shape.height, ∑ j ∈ Finset.range t.shape.width,
          rows i * columns j * t.get n c i j

variable {t r : Tensor ℚ}

theorem averages_of_isMean {s : Shape} {g h : Nat → (Nat → ℚ) → ℚ} (batch : s.batch = t.shape.batch)
    (channels : s.channels = t.shape.channels) (hg : ∀ y < s.height, IsMean t.shape.height (g y))
    (hh : ∀ x < s.width, IsMean t.shape.width (h x))
    (htable : r.Tabulates s fun n c y x => g y fun i => h x fun j => t.get n c i j) :
    r.Averages t := by
  refine ⟨htable.shape ▸ batch, htable.shape ▸ channels, ?_⟩
  rw [htable.shape]
  intro y hy x hx
  obtain ⟨rows, hrows, hg⟩ := hg y hy
  obtain ⟨columns, hcolumns, hh⟩ := hh x hx
  refine ⟨rows, columns, hrows, hcolumns, fun n hn c hc => ?_⟩
  simp only [htable.get (batch ▸ hn) (channels ▸ hc) hy hx, hg, hh, Finset.mul_sum, mul_assoc]

/-- The samples of an average lie between the bounds of their channel. -/
theorem Averages.mem_Icc (h : r.Averages t) {n c y x : Nat} (hn : n < t.shape.batch)
    (hc : c < t.shape.channels) (hy : y < r.shape.height) (hx : x < r.shape.width) {lo hi : ℚ}
    (hbounds : ∀ i < t.shape.height, ∀ j < t.shape.width, t.get n c i j ∈ Set.Icc lo hi) :
    r.get n c y x ∈ Set.Icc lo hi := by
  obtain ⟨rows, columns, hrows, hcolumns, hget⟩ := h.samples y hy x hx
  rw [hget n hn c hc]
  simp only [mul_assoc, ← Finset.mul_sum]
  exact hrows.sum_mem_Icc fun i hi => hcolumns.sum_mem_Icc (hbounds i hi)

/-- A channel of one value keeps it. -/
theorem Averages.eq_of_const (h : r.Averages t) {n c y x : Nat} (hn : n < t.shape.batch)
    (hc : c < t.shape.channels) (hy : y < r.shape.height) (hx : x < r.shape.width) {v : ℚ}
    (hv : ∀ i < t.shape.height, ∀ j < t.shape.width, t.get n c i j = v) : r.get n c y x = v := by
  have hmem : r.get n c y x ∈ Set.Icc v v := h.mem_Icc hn hc hy hx fun i hi j hj => by
    rw [hv i hi j hj]
    exact ⟨le_refl v, le_refl v⟩
  exact le_antisymm hmem.2 hmem.1

/-- Where no row has a share in a blend of rows, it need not be looked at. -/
theorem getBlended_rat (t : Tensor ℚ) (n c : Nat) (row column : Tap ℚ) :
    t.getBlended n c row column = row.blend
      (column.blend (t.get n c row.low column.low) (t.get n c row.low column.high))
      (column.blend (t.get n c row.high column.low) (t.get n c row.high column.high)) := by
  unfold getBlended
  simp only
  split
  · next hzero =>
    have hfraction : row.fraction = 0 := beq_iff_eq.mp hzero
    show _ = _ * (1 - row.fraction) + _ * row.fraction
    rw [hfraction, sub_zero, mul_one, mul_zero, add_zero]
  · rfl

theorem averages_resample {scale : ℚ} (hscale : 0 < scale) (hheight : t.shape.height ≤ 2 ^ 64)
    (hwidth : t.shape.width ≤ 2 ^ 64) (filter : Filter) : (t.resample scale filter).Averages t := by
  have htap {n d : Nat} (bound : n ≤ 2 ^ 64) (hd : d < scaledExtent n scale) :=
    (Tap.isBetween_ofIndex hscale (hd.trans_le (scaledExtent_le n scale)) bound filter).isMean_blend
  refine averages_of_isMean (s := t.shape.scaled scale) rfl rfl (fun y hy => htap hheight hy)
    (fun x hx => htap hwidth hx) ⟨rfl, fun hn hc hy hx => ?_⟩
  rw [get_resample t scale filter hn hc hy hx, getBlended_rat]

theorem averages_expand (h : t.expand = .ok r) : r.Averages t := by
  obtain ⟨-, -, htable⟩ := tabulates_of_expand h
  refine averages_of_isMean (s := t.shape.doubled) rfl rfl (fun y hy => isMean_expandedSample hy)
    (fun x hx => isMean_expandedSample hx) (htable.congr fun n c y x _ _ hy hx => ?_)
  exact (isMean_expandedSample hy).comm (isMean_expandedSample hx) _

/-! ## Reads -/

/-- An array that is scaled has rows and columns to read. -/
theorem eq_resample_of_resize {t r : Tensor Float32} {scale : Float} {filter : Filter}
    (h : t.resize scale filter = .ok r) :
    0 < t.shape.height ∧ 0 < t.shape.width ∧ r = t.resample scale filter := by
  have hpos {n : Nat} (hn : scaledExtent n scale ≠ 0) : 0 < n :=
    Nat.pos_of_ne_zero fun h0 => hn (h0 ▸ scaledExtent_zero scale)
  unfold resize at h
  extract_lets s at h
  split_ifs at h with hscale hempty
  simp only [Bool.or_eq_true, beq_iff_eq, not_or] at hempty
  cases h
  exact ⟨hpos hempty.1, hpos hempty.2, rfl⟩

open Tap in
/-- In exact arithmetic, the taps of all samples of a scaled axis are indices of it without being
held back at the last one: those of the nearest filter, and those of the bilinear one, which lie
next to each other and do not go back. The extents are those that a machine word counts. All samples
of scaled and of expanded arrays are averages, and so lie between the bounds of their channel; a
channel of one value keeps it. In the precision that runs, too, an array that is scaled or expanded
is read only where it has rows and columns. -/
theorem resampling_averages :
    (∀ (scale : ℚ) (n d : Nat), 0 < scale → n ≤ 2 ^ 64 → d < ⌊n * scale⌋₊ →
      ⌊centre scale d⌋₊ ≤ n - 1 ∧
      (ofIndex .nearest scale n d : Tap ℚ) = ⟨⌊centre scale d⌋₊, ⌊centre scale d⌋₊, 0⟩ ∧
      ⌊coordinate scale d⌋₊ ≤ n - 1 ∧
      (ofIndex .bilinear scale n d : Tap ℚ).low = ⌊coordinate scale d⌋₊ ∧
      (ofIndex .bilinear scale n d : Tap ℚ).IsBetween n ∧
      ∀ d' ≤ d, (ofIndex .bilinear scale n d' : Tap ℚ).low
        ≤ (ofIndex .bilinear scale n d : Tap ℚ).low) ∧
    (∀ t r : Tensor ℚ, ((∃ (scale : ℚ) (filter : Filter), 0 < scale ∧ t.shape.height ≤ 2 ^ 64 ∧
        t.shape.width ≤ 2 ^ 64 ∧ r = t.resample scale filter) ∨ t.expand = .ok r) →
      r.Averages t ∧ ∀ n < t.shape.batch, ∀ c < t.shape.channels, ∀ y < r.shape.height,
        ∀ x < r.shape.width,
          (∀ lo hi, (∀ i < t.shape.height, ∀ j < t.shape.width,
              lo ≤ t.get n c i j ∧ t.get n c i j ≤ hi) →
            lo ≤ r.get n c y x ∧ r.get n c y x ≤ hi) ∧
          ∀ v, (∀ i < t.shape.height, ∀ j < t.shape.width, t.get n c i j = v) →
            r.get n c y x = v) ∧
    (∀ (t r : Tensor Float32) (scale : Float) (filter : Filter), t.resize scale filter = .ok r →
      ∀ y < r.shape.height, ∀ x < r.shape.width, ∃ row column : Tap Float32,
        (row.low < t.shape.height ∧ row.high < t.shape.height) ∧
        (column.low < t.shape.width ∧ column.high < t.shape.width) ∧
        ∀ n < t.shape.batch, ∀ c < t.shape.channels,
          r.get n c y x = t.getBlended n c row column) ∧
    ∀ t r : Tensor Float32, t.expand = .ok r → ∀ n < t.shape.batch, ∀ c < t.shape.channels,
      ∀ y < r.shape.height, ∀ x < r.shape.width, ∀ f : Nat → Nat → Float32,
        (∀ i < t.shape.height, ∀ j < t.shape.width, f i j = t.get n c i j) →
        r.get n c y x = expandedSample t.shape.width x fun j =>
          expandedSample t.shape.height y fun i => f i j := by
  refine ⟨fun scale n d hscale bound hd => ?_, fun t r h => ?_, fun t r scale filter h => ?_,
    fun t r h n hn c hc y hy x hx f hf => ?_⟩
  · refine ⟨Nat.le_sub_one_of_lt (floor_centre_lt hscale hd), ofIndex_nearest hscale hd bound,
      Nat.le_sub_one_of_lt (floor_coordinate_lt hscale hd),
      by rw [ofIndex_bilinear hscale hd bound],
      isBetween_ofIndex hscale hd bound .bilinear, fun d' hle => ?_⟩
    rw [ofIndex_bilinear hscale (hle.trans_lt hd) bound, ofIndex_bilinear hscale hd bound]
    exact Nat.floor_mono (coordinate_mono hscale hle)
  · have haverages : r.Averages t := by
      rcases h with ⟨scale, filter, hscale, hheight, hwidth, rfl⟩ | h
      · exact averages_resample hscale hheight hwidth filter
      · exact averages_expand h
    refine ⟨haverages, fun n hn c hc y hy x hx => ⟨fun lo hi hbounds => ?_, fun v hv => ?_⟩⟩
    · exact haverages.mem_Icc hn hc hy hx hbounds
    · exact haverages.eq_of_const hn hc hy hx hv
  · obtain ⟨hheight, hwidth, rfl⟩ := eq_resample_of_resize h
    intro y hy x hx
    exact ⟨ofIndex filter scale t.shape.height y, ofIndex filter scale t.shape.width x,
      ofIndex_lt filter scale y hheight, ofIndex_lt filter scale x hwidth,
      fun n hn c hc => get_resample t scale filter hn hc hy hx⟩
  · obtain ⟨hheight, hwidth, htable⟩ := tabulates_of_expand h
    rw [htable.shape] at hy hx
    rw [htable.get hn hc hy hx]
    refine expandedSample_congr hx fun j hj => expandedSample_congr hy fun i hi => ?_
    exact (hf i (Nat.lt_of_le_pred hheight hi) j (Nat.lt_of_le_pred hwidth hj)).symm

/-- A row of two samples, half as wide again and twice as wide, and a single sample doubled. -/
theorem resampling_averages_row :
    (Tap.ofIndex .bilinear (3 / 2 : ℚ) 2 2 : Tap ℚ).IsBetween 2 ∧
    (0 ≤ ((ofFn ⟨1, 1, 1, 2⟩ fun _ _ _ x => (x : ℚ)).resample (3 / 2 : ℚ) .bilinear).get 0 0 0 2 ∧
      ((ofFn ⟨1, 1, 1, 2⟩ fun _ _ _ x => (x : ℚ)).resample (3 / 2 : ℚ) .bilinear).get 0 0 0 2
        ≤ 1) ∧
    (∃ r, (replicate ⟨1, 1, 1, 2⟩ (5 : ℚ)).expand = .ok r ∧ r.get 0 0 1 3 = 5) ∧
    (∃ r, (replicate ⟨1, 1, 1, 1⟩ (1 : Float32)).resize 2 .nearest = .ok r ∧
      ∃ row column : Tap Float32, row.high < 1 ∧ column.high < 1 ∧
        r.get 0 0 1 1 = (replicate ⟨1, 1, 1, 1⟩ (1 : Float32)).getBlended 0 0 row column) ∧
    ∃ r, (replicate ⟨1, 1, 1, 1⟩ (1 : Float32)).expand = .ok r ∧
      r.get 0 0 1 1 = expandedSample 1 1 fun _ => expandedSample 1 1 fun _ => 1 := by
  obtain ⟨htaps, haverages, hreads, hexpand⟩ := resampling_averages
  refine ⟨?_, ?_, ⟨_, rfl, ?_⟩, ?_, _, rfl, ?_⟩
  · have hd : 2 < ⌊((2 : Nat) : ℚ) * (3 / 2)⌋₊ := by norm_num
    exact (htaps (3 / 2) 2 2 (by norm_num) (by decide) hd).2.2.2.2.1
  · have h := haverages (ofFn ⟨1, 1, 1, 2⟩ fun _ _ _ x => (x : ℚ)) _
      (.inl ⟨3 / 2, .bilinear, by norm_num, by decide, by decide, rfl⟩)
    exact (h.2 0 (by decide) 0 (by decide) 0 (by decide +kernel) 2 (by decide +kernel)).1 0 1
      (by decide +kernel)
  · have h := haverages (replicate ⟨1, 1, 1, 2⟩ (5 : ℚ)) _ (.inr rfl)
    exact (h.2 0 (by decide) 0 (by decide) 1 (by decide) 3 (by decide)).2 5 (by decide +kernel)
  · obtain ⟨r, hr, hshape⟩ := map_eq_ok.mp (((replicate ⟨1, 1, 1, 1⟩ (1 : Float32)).resize_shape 2
      .nearest ⟨1, 1, 2, 2⟩).mpr ⟨by decide +kernel, by decide +kernel, by decide +kernel,
      by decide +kernel⟩)
    obtain ⟨row, column, hrow, hcolumn, hget⟩ := hreads _ r 2 .nearest hr 1
      (by rw [hshape]; decide) 1 (by rw [hshape]; decide)
    exact ⟨r, hr, row, column, hrow.2, hcolumn.2, hget 0 (by decide) 0 (by decide)⟩
  · exact hexpand (replicate ⟨1, 1, 1, 1⟩ (1 : Float32)) _ rfl 0 (by decide) 0 (by decide) 1
      (by decide) 1 (by decide) (fun _ _ => 1) (by decide +kernel)

end Tensor

end Midframe
