import Mathlib.Tactic.FieldSimp
import Midframe.Proofs.Network.Entries
import Midframe.Proofs.Scalar.Rational
import Midframe.Proofs.Tensor.Sweep

/-!
# Joint statistics

The statistics of a pair of frames are put together from those of each frame. In exact arithmetic
they are the mean and the variance of all samples of both frames taken together: the squares of the
distances from a mean differ from those of the distances from any other number by what the mean is
off. Samples that are shifted by their joint mean cancel out, whatever they are divided by.
-/

namespace Midframe

theorem sum_range_mul (a b : Nat) (f : Nat → ℚ) : ∑ k ∈ Finset.range (a * b), f k =
    ∑ i ∈ Finset.range a, ∑ j ∈ Finset.range b, f (i * b + j) := by
  induction a with
  | zero => rw [Nat.zero_mul, Finset.sum_range_zero, Finset.sum_range_zero]
  | succ a ih =>
    calc ∑ k ∈ Finset.range ((a + 1) * b), f k
        = ∑ k ∈ Finset.range (a * b), f k + ∑ j ∈ Finset.range b, f (a * b + j) := by
          rw [Nat.succ_mul, Finset.sum_range_add]
      _ = ∑ i ∈ Finset.range (a + 1), ∑ j ∈ Finset.range b, f (i * b + j) := by
          rw [ih, Finset.sum_range_succ]

theorem foldl_add_eq_sum (l : List ℚ) (f : ℚ → ℚ) : l.foldl (fun acc v => acc + f v) 0 =
    ∑ k ∈ Finset.range l.length, f (l.getD k 0) := by
  -- From the end of the list: the loop adds the last value to the sum of those before it.
  induction l using List.reverseRecOn with
  | nil => rfl
  | append_singleton l v ih =>
    rw [List.foldl_append, List.length_append, List.length_singleton, Finset.sum_range_succ]
    have hlast : (l ++ [v]).getD l.length 0 = v := by simp
    have hrest : ∀ k ∈ Finset.range l.length, f ((l ++ [v]).getD k 0) = f (l.getD k 0) := by
      intro k hk
      rw [List.getD_append _ _ _ _ (Finset.mem_range.mp hk)]
    rw [Finset.sum_congr rfl hrest, hlast, ← ih]
    rfl

namespace Tensor

variable {t one two : Tensor ℚ} {b : Nat}

/-! ## Sums over an entry -/

/-- The number of samples of an entry. -/
def entrySize (t : Tensor ℚ) : Nat := t.shape.channels * t.shape.height * t.shape.width

/-- A function of the samples of entry `n`, summed over all of them. -/
def entrySum (t : Tensor ℚ) (n : Nat) (f : ℚ → ℚ) : ℚ :=
  ∑ c ∈ Finset.range t.shape.channels, ∑ y ∈ Finset.range t.shape.height,
    ∑ x ∈ Finset.range t.shape.width, f (t.get n c y x)

theorem entrySum_congr {u : Tensor ℚ} {f g : ℚ → ℚ} (hshape : u.shape = t.shape)
    (h : ∀ c y x, c < t.shape.channels → y < t.shape.height → x < t.shape.width →
      f (u.get b c y x) = g (t.get b c y x)) : u.entrySum b f = t.entrySum b g := by
  unfold entrySum
  rw [hshape]
  refine Finset.sum_congr rfl fun c hc => Finset.sum_congr rfl fun y hy =>
    Finset.sum_congr rfl fun x hx => ?_
  exact h c y x (Finset.mem_range.mp hc) (Finset.mem_range.mp hy) (Finset.mem_range.mp hx)

theorem foldl_entrySamples (hb : b < t.shape.batch) (f : ℚ → ℚ) :
    (t.entrySamples b).foldl (fun acc v => acc + f v) 0 = t.entrySum b f := by
  rw [foldl_add_eq_sum, length_entrySamples hb, sum_range_mul, sum_range_mul]
  refine Finset.sum_congr rfl fun c hc => Finset.sum_congr rfl fun y hy =>
    Finset.sum_congr rfl fun x hx => ?_
  have hc := Finset.mem_range.mp hc
  have hy := Finset.mem_range.mp hy
  have hx := Finset.mem_range.mp hx
  have hoffset : (c * t.shape.height + y) * t.shape.width + x = t.shape.offset 0 c y x := by
    simp only [Shape.offset, Nat.zero_mul, Nat.zero_add]
  have hlt : t.shape.offset 0 c y x < (t.entrySamples b).length := by
    rw [length_entrySamples hb, ← hoffset]
    exact mul_add_lt_mul (mul_add_lt_mul hc hy) hx
  rw [hoffset, List.getD_eq_getElem _ _ hlt, getElem_entrySamples hb hc hy hx hlt]

theorem entrySum_affine (t : Tensor ℚ) (b : Nat) (f : ℚ → ℚ) (p q : ℚ) :
    t.entrySum b (fun v => f v + (p * v + q)) =
      t.entrySum b f + (p * t.entrySum b id + t.entrySize * q) := by
  simp only [entrySum, entrySize, Finset.sum_add_distrib, Finset.mul_sum, Finset.sum_const,
    Finset.card_range, nsmul_eq_mul, id_eq]
  push_cast
  ring

theorem entrySum_shifted (t : Tensor ℚ) (b : Nat) (m d : ℚ) :
    t.entrySum b (fun v => (v - m) / d) = (t.entrySum b id - t.entrySize * m) / d := by
  have hform (v : ℚ) : (v - m) / d = 0 + (1 / d * v + -m / d) := by ring
  have hzero : t.entrySum b (fun _ => 0) = 0 := by simp [entrySum]
  simp only [hform]
  rw [t.entrySum_affine b (fun _ => 0), hzero]
  ring

theorem entrySum_distances (t : Tensor ℚ) (b : Nat) (m : ℚ) :
    t.entrySum b (fun v => (v - m) * (v - m)) =
      t.entrySum b (fun v => v * v) + (-2 * m * t.entrySum b id + t.entrySize * (m * m)) := by
  have hform (v : ℚ) : (v - m) * (v - m) = v * v + (-2 * m * v + m * m) := by ring
  simp only [hform]
  exact t.entrySum_affine b (fun v => v * v) (-2 * m) (m * m)

/-! ## Moments -/

/-- The mean of the samples of entry `n`. -/
def entryMean (t : Tensor ℚ) (n : Nat) : ℚ := t.entrySum n id / t.entrySize

theorem moments_entrySamples (hb : b < t.shape.batch) (hsize : 0 < t.entrySize) :
    (moments (t.entrySamples b) : ℚ × ℚ) = (t.entryMean b,
      t.entrySum b (fun v => (v - t.entryMean b) * (v - t.entryMean b)) / t.entrySize) := by
  have hlength : (t.entrySamples b).length = t.entrySize := length_entrySamples hb
  have hnonempty : ¬(t.entrySamples b).isEmpty = true := by
    rw [List.isEmpty_iff_length_eq_zero, hlength]
    exact Nat.ne_of_gt hsize
  have hmean : (t.entrySamples b).foldl (fun acc v => acc + v) 0 / ((t.entrySamples b).length : ℚ)
      = t.entryMean b := by
    rw [hlength, t.foldl_entrySamples hb fun v => v]
    rfl
  -- The second loop squares the distances from what the first one gave; `m` stands for it.
  have hvariance (m : ℚ) : (t.entrySamples b).foldl (fun acc v => acc + (v - m) * (v - m)) 0 /
      ((t.entrySamples b).length : ℚ)
        = t.entrySum b (fun v => (v - m) * (v - m)) / t.entrySize := by
    rw [hlength, t.foldl_entrySamples hb fun v => (v - m) * (v - m)]
  rw [← hvariance, ← hmean]
  exact if_neg hnonempty

/-- The variance of an entry and the distance of its mean from another number make up the mean
square of the distances from that number. -/
theorem variance_add_sq (t : Tensor ℚ) (b : Nat) (hsize : 0 < t.entrySize) (m : ℚ) :
    t.entrySum b (fun v => (v - t.entryMean b) * (v - t.entryMean b)) / t.entrySize +
        (m - t.entryMean b) * (m - t.entryMean b) =
      t.entrySum b (fun v => (v - m) * (v - m)) / t.entrySize := by
  have hcount : (t.entrySize : ℚ) ≠ 0 := Nat.cast_ne_zero.mpr (Nat.ne_of_gt hsize)
  rw [entrySum_distances, entrySum_distances, entryMean]
  field_simp
  ring

/-! ## Both frames -/

/-- A function of the samples of entry `n` of both frames, summed over all of them. -/
def poolSum (one two : Tensor ℚ) (n : Nat) (f : ℚ → ℚ) : ℚ := one.entrySum n f + two.entrySum n f

/-- The mean of the samples of entry `n` of both frames. -/
def poolMean (one two : Tensor ℚ) (n : Nat) : ℚ :=
  poolSum one two n id / (one.entrySize + two.entrySize)

/-- The mean square of their distances from it. -/
def poolVariance (one two : Tensor ℚ) (n : Nat) : ℚ :=
  poolSum one two n (fun v => (v - poolMean one two n) ^ 2) / (one.entrySize + two.entrySize)

theorem entrySize_eq (hshape : one.shape = two.shape) : two.entrySize = one.entrySize := by
  unfold entrySize
  rw [hshape]

theorem jointMoments_eq_pool (hshape : one.shape = two.shape) (hsize : 0 < one.entrySize)
    (hb : b < one.shape.batch) :
    (jointMoments one two b : ℚ × ℚ) = (poolMean one two b, poolVariance one two b) := by
  have hcount : (one.entrySize : ℚ) ≠ 0 := Nat.cast_ne_zero.mpr (Nat.ne_of_gt hsize)
  have hsame := entrySize_eq hshape
  have hmean : (1 / 2 : ℚ) * (one.entryMean b + two.entryMean b) = poolMean one two b := by
    rw [entryMean, entryMean, poolMean, poolSum, hsame]
    field_simp
    ring
  rw [jointMoments, moments_entrySamples hb hsize,
    moments_entrySamples (hshape ▸ hb) (hsame ▸ hsize), joinMoments]
  have hhalf : (Scalar.half : ℚ) = 1 / 2 := by norm_num [Scalar.half, Scalar.ratio_rat]
  simp only [hhalf, hmean]
  -- Each frame's share of the joint variance is its mean square around the mean of the pool.
  rw [one.variance_add_sq b hsize, two.variance_add_sq b (hsame ▸ hsize), poolVariance, poolSum,
    hsame]
  congr 1
  simp only [pow_two]
  field_simp
  ring

/-! ## Normalized frames -/

section Pair

variable {α ω : Type} [Scalar α] [Scalar ω] [Widening α ω] {one two : Tensor α}
  {p : Tensor α × Tensor α} {b : Nat}

theorem shape_of_normalizePairBy {divisor : ω → α} (h : normalizePairBy divisor one two = .ok p) :
    one.shape = two.shape := by
  by_contra hdiffer
  rw [normalizePairBy_eq, if_pos (bne_iff_ne.mpr hdiffer)] at h
  cases h

theorem standardize_tabulates (t : Tensor α) (mean scale : Nat → α) :
    (t.standardize mean scale).Tabulates t.shape fun n c y x =>
      (t.get n c y x - mean n) / scale n :=
  tabulates_ofFn _ _

theorem normalizePairBy_of_shape (divisor : ω → α) (hshape : one.shape = two.shape) :
    ∃ p, normalizePairBy divisor one two = .ok p ∧
      (p.1.Tabulates one.shape fun n c y x => (one.get n c y x - (statistics divisor one two n).1) /
        (statistics divisor one two n).2) ∧
      p.2.Tabulates one.shape fun n c y x => (two.get n c y x - (statistics divisor one two n).1) /
        (statistics divisor one two n).2 := by
  rw [normalizePairBy_eq, if_neg (by simpa using hshape)]
  refine ⟨_, rfl, ?_, ?_⟩
  · dsimp only
    refine (standardize_tabulates one _ _).congr fun n c y x hn _ _ _ => ?_
    rw [getD_ofFn (statistics divisor one two) hn]
  · dsimp only
    rw [hshape]
    refine (standardize_tabulates two _ _).congr fun n c y x hn _ _ _ => ?_
    rw [getD_ofFn (statistics divisor one two) hn]

/-- An entry of the normalized frames is what comes of the entry alone. -/
theorem entry_normalizePairBy {divisor : ω → α} (h : normalizePairBy divisor one two = .ok p)
    (hb : b < one.shape.batch) : normalizePairBy divisor (one.entry b) (two.entry b) =
      .ok (p.1.entry b, p.2.entry b) := by
  have hone := isEntry_entry one b
  have htwo := isEntry_entry two b
  rw [← shape_of_normalizePairBy h] at htwo
  obtain ⟨q, hq, hfirst, hsecond⟩ := (h ▸ hone.normalizePairBy htwo hb divisor).exists_of_ok
  rw [hq, ← hfirst.eq_entry, ← hsecond.eq_entry]

end Pair

theorem joinMoments_comm (m m' : ℚ × ℚ) : joinMoments m m' = joinMoments m' m := by
  simp only [joinMoments, add_comm]

theorem normalizePairBy_swap (divisor : ℚ → ℚ) {p : Tensor ℚ × Tensor ℚ}
    (h : normalizePairBy divisor one two = .ok p) :
    normalizePairBy divisor two one = .ok p.swap := by
  have hshape := shape_of_normalizePairBy h
  obtain ⟨q, hq, hone, htwo⟩ := normalizePairBy_of_shape divisor hshape
  obtain ⟨q', hq', htwo', hone'⟩ := normalizePairBy_of_shape divisor hshape.symm
  obtain rfl := Except.ok.inj (hq.symm.trans h)
  have hstatistics (n : Nat) : statistics divisor two one n = statistics divisor one two n := by
    simp only [statistics, jointMoments, joinMoments_comm (moments (two.entrySamples n))]
  simp only [hstatistics] at htwo' hone'
  rw [← hshape] at htwo' hone'
  rw [hq']
  exact congrArg Except.ok (Prod.ext (htwo'.unique htwo) (hone'.unique hone))

theorem poolSum_normalized (hshape : one.shape = two.shape) (hsize : 0 < one.entrySize) (b : Nat)
    (d : ℚ) : one.entrySum b (fun v => (v - poolMean one two b) / d) +
      two.entrySum b (fun v => (v - poolMean one two b) / d) = 0 := by
  have hcount : (one.entrySize : ℚ) ≠ 0 := Nat.cast_ne_zero.mpr (Nat.ne_of_gt hsize)
  have hcancels : (one.entrySum b id - one.entrySize * poolMean one two b) +
      (two.entrySum b id - one.entrySize * poolMean one two b) = 0 := by
    rw [poolMean, poolSum, entrySize_eq hshape]
    field_simp
    ring
  rw [entrySum_shifted, entrySum_shifted, entrySize_eq hshape, ← add_div, hcancels, zero_div]

/-- In exact arithmetic, the statistics that a pair of frames is normalized by are the mean and the
variance of all samples of both frames in an entry. So the samples of an entry sum up to zero when
they are normalized, whatever divides them; an entry of the result depends on that entry of the
frames only; and frames in the other order are normalized in the other order. -/
theorem normalizePairBy_pools (divisor : ℚ → ℚ) (hshape : one.shape = two.shape)
    (hsize : 1 ≤ one.shape.channels * one.shape.height * one.shape.width) :
    (∀ b < one.shape.batch,
      (jointMoments one two b : ℚ × ℚ) = (poolMean one two b, poolVariance one two b)) ∧
    ∃ p, normalizePairBy divisor one two = .ok p ∧ p.1.shape = one.shape ∧
      p.2.shape = one.shape ∧
      (∀ b c y x, b < one.shape.batch → c < one.shape.channels → y < one.shape.height →
        x < one.shape.width →
          p.1.get b c y x =
            (one.get b c y x - poolMean one two b) / divisor (poolVariance one two b) ∧
          p.2.get b c y x =
            (two.get b c y x - poolMean one two b) / divisor (poolVariance one two b)) ∧
      (∀ b < one.shape.batch, poolSum p.1 p.2 b id = 0) ∧
      (∀ one' two' p', normalizePairBy divisor one' two' = .ok p' → ∀ b < one.shape.batch,
        b < one'.shape.batch → one'.entry b = one.entry b → two'.entry b = two.entry b →
          p'.1.entry b = p.1.entry b ∧ p'.2.entry b = p.2.entry b) ∧
      normalizePairBy divisor two one = .ok p.swap := by
  have hmoments (b : Nat) (hb : b < one.shape.batch) :
      (jointMoments one two b : ℚ × ℚ) = (poolMean one two b, poolVariance one two b) :=
    jointMoments_eq_pool hshape hsize hb
  obtain ⟨p, hp, hone, htwo⟩ := normalizePairBy_of_shape divisor hshape
  have hget (b c y x : Nat) (hb : b < one.shape.batch) (hc : c < one.shape.channels)
      (hy : y < one.shape.height) (hx : x < one.shape.width) :
      p.1.get b c y x = (one.get b c y x - poolMean one two b) / divisor (poolVariance one two b) ∧
      p.2.get b c y x =
        (two.get b c y x - poolMean one two b) / divisor (poolVariance one two b) := by
    have hstatistics : statistics divisor one two b =
        (poolMean one two b, divisor (poolVariance one two b)) := by
      simp only [statistics, hmoments b hb]
      rfl
    rw [hone.get hb hc hy hx, htwo.get hb hc hy hx, hstatistics]
    exact ⟨rfl, rfl⟩
  refine ⟨hmoments, p, hp, hone.shape, htwo.shape, hget, fun b hb => ?_, ?_,
    normalizePairBy_swap divisor hp⟩
  · have hfirst : p.1.entrySum b id = one.entrySum b fun v =>
        (v - poolMean one two b) / divisor (poolVariance one two b) :=
      entrySum_congr hone.shape fun c y x hc hy hx => (hget b c y x hb hc hy hx).1
    have hsecond : p.2.entrySum b id = two.entrySum b fun v =>
        (v - poolMean one two b) / divisor (poolVariance one two b) :=
      entrySum_congr (htwo.shape.trans hshape) fun c y x hc hy hx =>
        (hget b c y x hb (hshape ▸ hc) (hshape ▸ hy) (hshape ▸ hx)).2
    rw [poolSum, hfirst, hsecond]
    exact poolSum_normalized hshape hsize b _
  · -- Both entries are what normalizing that entry alone gives.
    intro one' two' p' hp' b hb hb' hentry hentry'
    have hsame := entry_normalizePairBy hp' hb'
    rw [hentry, hentry', entry_normalizePairBy hp hb] at hsame
    obtain ⟨hfirst, hsecond⟩ := Prod.mk.inj (Except.ok.inj hsame)
    exact ⟨hfirst.symm, hsecond.symm⟩

/-- Two entries of two samples; the second frame is the same everywhere. -/
theorem normalizePairBy_pools_row : ∃ (one two : Tensor ℚ) (p : Tensor ℚ × Tensor ℚ),
    one = ofFn ⟨2, 1, 1, 2⟩ (fun n _ _ x => ((10 * n + x : Nat) : ℚ)) ∧
    two = replicate ⟨2, 1, 1, 2⟩ 3 ∧
    (jointMoments one two 0 : ℚ × ℚ) = (7 / 4, 27 / 16) ∧
    normalizePairBy (fun _ => 2) one two = .ok p ∧ p.1.get 0 0 0 0 = -7 / 8 ∧
    poolSum p.1 p.2 1 id = 0 ∧ normalizePairBy (fun _ => 2) two one = .ok p.swap := by
  obtain ⟨hmoments, p, hp, -, -, hget, hsum, -, hswap⟩ := normalizePairBy_pools (fun _ => 2)
    (show (ofFn ⟨2, 1, 1, 2⟩ fun n _ _ x => ((10 * n + x : Nat) : ℚ)).shape =
      (replicate ⟨2, 1, 1, 2⟩ (3 : ℚ)).shape from rfl) (by decide)
  refine ⟨_, _, p, rfl, rfl, (hmoments 0 (by decide)).trans ?_, hp, ?_, hsum 1 (by decide), hswap⟩
  · decide +kernel
  · rw [(hget 0 0 0 0 (by decide) (by decide) (by decide) (by decide)).1]
    decide +kernel

end Tensor

end Midframe
