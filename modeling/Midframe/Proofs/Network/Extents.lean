import Midframe.Proofs.Network.Sound

/-!
# Extents around the pyramid

What happens to the shapes of two frames before they reach the encoder and behind the heads: the
features of both have their rows and columns, the frames prepared for synthesis are larger by what
the kernels reach, and filtering cuts that off again.
-/

namespace Midframe

namespace Tensor

/-- Two batches joined along their channels. -/
theorem concatChannels_pair_shape (a b : Tensor Float32)
    (h : { b.shape with channels := a.shape.channels } = a.shape) :
    (concatChannels [a, b]).map shape
      = .ok { a.shape with channels := a.shape.channels + b.shape.channels } := by
  unfold concatChannels
  simp only [List.all_cons, List.all_nil, h, beq_self_eq_true, Bool.and_self, ↓reduceIte,
    List.map_cons, List.map_nil, total, Nat.add_zero]
  rfl

/-- Frames prepared for synthesis. -/
theorem synthesisFrame_shape {t : Tensor Float32} (spatial : t.shape.IsSpatial) (k : Nat) :
    (t.synthesisFrame k).map shape = .ok ⟨t.shape.batch, t.shape.channels + 1,
      t.shape.height + k / 2 + k / 2, t.shape.width + k / 2 + k / 2⟩ := by
  unfold synthesisFrame
  obtain ⟨u, hu, hus⟩ := map_eq_ok.mp (concatChannels_pair_shape t
    (replicate { t.shape with channels := 1 } (Scalar.one : Float32)) rfl)
  obtain ⟨v, hv, hvs⟩ := map_eq_ok.mp ((u.pad_shape (Padding.uniform (k / 2)) .replicate
    (u.shape.padded (Padding.uniform (k / 2)))).mpr
      ⟨rfl, Border.fits_replicate (hus ▸ spatial.1) (hus ▸ spatial.2)⟩)
  rw [map_eq_ok]
  refine ⟨v, bind_eq_ok.mpr ⟨u, hu, hv⟩, ?_⟩
  rw [hvs, hus]
  rfl

theorem normalizePair_shape {one two : Tensor Float32} (h : one.shape = two.shape) :
    ∃ a b, normalizePair one two = .ok (a, b) ∧ a.shape = one.shape ∧ b.shape = one.shape := by
  unfold normalizePair normalizePairBy
  rw [if_neg (by simpa using h)]
  exact ⟨_, _, rfl, rfl, h.symm⟩

/-- A separable filter succeeds exactly if the two kernels are alike and leave as many positions as
they have. -/
theorem separableFilter_shape (t vertical horizontal : Tensor Float32) (s : Shape) :
    (t.separableFilter vertical horizontal).map shape = .ok s ↔
      vertical.shape = horizontal.shape ∧ vertical.shape.channels ≠ 0 ∧
      t.shape.batch = vertical.shape.batch ∧
      t.shape.height = vertical.shape.height + (vertical.shape.channels - 1) ∧
      t.shape.width = vertical.shape.width + (vertical.shape.channels - 1) ∧
      ⟨vertical.shape.batch, t.shape.channels, vertical.shape.height, vertical.shape.width⟩
        = s := by
  unfold separableFilter
  by_cases hpair : vertical.shape = horizontal.shape
  · rw [if_neg (by simpa using hpair)]
    by_cases hfits : vertical.shape.channels ≠ 0 ∧ t.shape.batch = vertical.shape.batch ∧
        t.shape.height = vertical.shape.height + (vertical.shape.channels - 1) ∧
        t.shape.width = vertical.shape.width + (vertical.shape.channels - 1)
    · obtain ⟨hc, hb, hh, hw⟩ := hfits
      rw [if_neg (by simp [hc, hb, hh, hw])]
      simp only [map_eq_ok, Except.ok.injEq, exists_eq_left', shape_ofFn]
      exact ⟨fun h => ⟨hpair, hc, hb, hh, hw, h⟩, fun h => h.2.2.2.2.2⟩
    · rw [if_pos (by
        simp only [Bool.or_eq_true, beq_iff_eq, bne_iff_ne, ne_eq]
        by_contra hnone
        simp only [not_or, Decidable.not_not] at hnone
        exact hfits ⟨hnone.1.1.1, hnone.1.1.2, hnone.1.2, hnone.2⟩)]
      simp only [map_eq_ok]
      constructor
      · rintro ⟨_, h, -⟩
        cases h
      · rintro ⟨-, hc, hb, hh, hw, -⟩
        exact absurd ⟨hc, hb, hh, hw⟩ hfits
  · rw [if_pos (by simpa using hpair)]
    simp [hpair]

theorem divideByNormalizer_shape (t : Tensor Float32) (s : Shape) :
    t.divideByNormalizer.map shape = .ok s ↔
      2 ≤ t.shape.channels ∧ { t.shape with channels := t.shape.channels - 1 } = s := by
  unfold divideByNormalizer
  by_cases h : t.shape.channels < 2
  · rw [if_pos h]
    simp only [map_eq_ok]
    constructor
    · rintro ⟨_, h, -⟩
      cases h
    · rintro ⟨h, -⟩
      omega
  · rw [if_neg h]
    simp only [map_eq_ok, Except.ok.injEq, exists_eq_left', shape_ofFn]
    exact ⟨fun h' => ⟨by omega, h'⟩, fun h' => h'.2⟩

end Tensor

namespace Network

/-- The features of two frames of one shape. -/
theorem features_shape {net : Network} (sound : net.IsSound) {one two : Tensor Float32}
    (h : one.shape = two.shape) (channels : one.shape.channels = 3)
    (spatial : one.shape.IsSpatial) :
    (net.features one two).map Tensor.shape = .ok ⟨one.shape.batch, 2 * net.input.outputs,
      one.shape.height, one.shape.width⟩ := by
  have hshape : net.input.form.weight.shape
      = (Convolution.blank 3 net.input.outputs 3 ⟨1, 1, .zeros⟩ true).form.weight.shape :=
    congrArg (fun c => c.weight.shape) sound.input
  have hweight : net.input.weight.shape = ⟨net.input.outputs, 3, 3, 3⟩ := hshape
  have hwindows : net.input.windows = ⟨1, 1, .zeros⟩ :=
    congrArg Convolution.windows sound.input
  have hcount {n : Nat} (hn : 0 < n) : (⟨1, 1, .zeros⟩ : Windows).count? n 3 = some n := by
    unfold Windows.count?
    rw [if_neg (by simp; omega)]
    simp only [Nat.div_one]
    congr 1
    omega
  have hinput (x : Tensor Float32) (hx : x.shape = one.shape) :
      ∃ y, net.input.forward x = .ok y ∧
        y.shape = ⟨one.shape.batch, net.input.outputs, one.shape.height, one.shape.width⟩ := by
    have hsquare : net.input.IsSquare := by
      unfold Convolution.IsSquare Convolution.kernel
      rw [hweight]
    refine map_eq_ok.mp ((Convolution.forward_shape hsquare x _).mpr ⟨?_, ?_⟩)
    · refine Convolution.outputShape_eq_ok.mpr ⟨?_, one.shape.height, one.shape.width, ?_, ?_, ?_⟩
      · rw [hx, channels, Convolution.inputs, hweight]
      · rw [hx, hwindows, Convolution.kernel, hweight, hcount spatial.1]
      · rw [hx, hwindows, Convolution.kernel, hweight, hcount spatial.2]
      · rw [hx]
    · rw [hwindows]
      exact Border.fits_zeros _ _
  obtain ⟨a, b, hnormal, ha, hb⟩ := Tensor.normalizePair_shape h
  obtain ⟨c, hc, hcs⟩ := hinput a ha
  obtain ⟨d, hd, hds⟩ := hinput b hb
  obtain ⟨e, he, hes⟩ := map_eq_ok.mp (Tensor.concatChannels_pair_shape c d (by rw [hcs, hds]))
  rw [map_eq_ok]
  refine ⟨e, ?_, ?_⟩
  · unfold features
    simp only [bind_eq_ok]
    exact ⟨(a, b), hnormal, c, hc, d, hd, he⟩
  · rw [hes, hcs, hds]
    simp only [Shape.mk.injEq, true_and, and_true]
    omega

/-- Synthesis from kernels of one shape. -/
theorem synthesize_shape {one two : Tensor Float32} (h : two.shape = one.shape)
    {kernels : Heads (Tensor Float32)} {k : Shape} (alike : kernels.Forall fun t => t.shape = k)
    (s : Shape) :
    (synthesize one two kernels).map Tensor.shape = .ok s ↔
      k.channels ≠ 0 ∧ one.shape.batch = k.batch ∧
      one.shape.height = k.height + (k.channels - 1) ∧
      one.shape.width = k.width + (k.channels - 1) ∧ 2 ≤ one.shape.channels ∧
      ⟨k.batch, one.shape.channels - 1, k.height, k.width⟩ = s := by
  obtain ⟨hone, hone', htwo, htwo'⟩ := alike
  unfold synthesize
  simp only [map_eq_ok, bind_eq_ok]
  constructor
  · rintro ⟨y, ⟨a, ha, b, hb, c, hc, hy⟩, rfl⟩
    obtain ⟨-, hchannels, hbatch, hheight, hwidth, has⟩ :=
      (one.separableFilter_shape _ _ _).mp (map_eq_ok.mpr ⟨a, ha, rfl⟩)
    obtain ⟨hac, -⟩ := Shape.add_eq_ok.mp ((a.add_shape b).symm.trans
      (map_eq_ok.mpr ⟨c, hc, rfl⟩))
    obtain ⟨htwo, hys⟩ := (c.divideByNormalizer_shape _).mp (map_eq_ok.mpr ⟨y, hy, rfl⟩)
    rw [hone] at hchannels hbatch hheight hwidth has
    rw [← hac, ← has] at htwo hys
    exact ⟨hchannels, hbatch, hheight, hwidth, htwo, hys⟩
  · rintro ⟨hchannels, hbatch, hheight, hwidth, hnormal, rfl⟩
    obtain ⟨a, ha, has⟩ := map_eq_ok.mp ((one.separableFilter_shape kernels.verticalOne
      kernels.horizontalOne _).mpr ⟨hone.trans hone'.symm, by rwa [hone], by rwa [hone],
        by rwa [hone], by rwa [hone], rfl⟩)
    obtain ⟨b, hb, hbs⟩ := map_eq_ok.mp ((two.separableFilter_shape kernels.verticalTwo
      kernels.horizontalTwo _).mpr ⟨htwo.trans htwo'.symm, by rwa [htwo], by rwa [h, htwo],
        by rwa [h, htwo], by rwa [h, htwo], rfl⟩)
    have halike : b.shape = a.shape := by rw [has, hbs, hone, htwo, h]
    obtain ⟨c, hc, hcs⟩ := map_eq_ok.mp ((a.add_shape b).trans (Shape.add_eq_ok.mpr ⟨rfl, halike⟩))
    rw [has, hone] at hcs
    obtain ⟨y, hy, hys⟩ := map_eq_ok.mp ((c.divideByNormalizer_shape _).mpr
      ⟨by rw [hcs]; exact hnormal, rfl⟩)
    rw [hcs] at hys
    exact ⟨y, ⟨a, ha, b, hb, c, hc, hy⟩, hys⟩

end Network

end Midframe
