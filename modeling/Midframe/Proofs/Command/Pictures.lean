import Midframe.Network.Estimate
import Midframe.Proofs.Network.Course
import Midframe.Proofs.Picture.Quantization

/-!
# Pictures in files

An image that is read as a picture can be written again. An estimated picture has three planes and
the extents of the pictures it was made from, and so it can be written as well.
-/

namespace Midframe

/-- An image that can be stored: it has pixels, and not too many rows and columns. -/
structure Image.IsStorable (i : Image) : Prop where
  /-- There are pixels. -/
  filled : i.isEmpty = false
  /-- There are not too many columns. -/
  width : i.width ≤ maxImageExtent
  /-- There are not too many rows. -/
  height : i.height ≤ maxImageExtent

namespace Picture

/-- A picture whose image can be stored. -/
structure IsStorable (p : Picture) : Prop where
  /-- It has the three planes of colours. -/
  planes : p.planes = 3
  /-- There are columns. -/
  columns : p.width ≠ 0
  /-- There are rows. -/
  rows : p.height ≠ 0
  /-- There are not too many columns. -/
  width : p.width ≤ maxImageExtent
  /-- There are not too many rows. -/
  height : p.height ≤ maxImageExtent

/-- A picture that can be stored has an image, which is not empty. -/
theorem IsStorable.exists_image {p : Picture} (h : p.IsStorable) :
    ∃ i, p.toImage = .ok i ∧ i.isEmpty = false := by
  obtain ⟨i, hi⟩ := Picture.exists_image h.planes h.width h.height
  have himage := toImage_eq_ok hi
  refine ⟨i, hi, ?_⟩
  simp [Image.isEmpty, himage.width.1, himage.height.1, h.columns, h.rows]

theorem ofImage_isStorable {i : Image} (h : i.IsStorable) : (ofImage i).IsStorable := by
  have hfilled := h.filled
  simp only [Image.isEmpty, Bool.or_eq_false_iff, beq_eq_false_iff_ne] at hfilled
  exact ⟨rfl, hfilled.1, hfilled.2, h.width, h.height⟩

end Picture

namespace Network

/-- The result of a pass has three channels. -/
theorem forward_channels {net : Network} {one two y : Tensor Float32}
    (h : net.forward one two = .ok y) : y.shape.channels = 3 := by
  obtain ⟨hcheck, st, hst, rfl⟩ := forward_eq_ok.mp h
  obtain ⟨-, hchannels, -, hspatial, -⟩ := checkFrames_eq_ok.mp hcheck
  obtain ⟨framedOne, framedTwo, hframed, -, hy⟩ := hst.output
  -- Filtering keeps the channels of the frame, and dividing takes off the one of the normalizer.
  have hframedOne : framedOne.shape.channels = 4 := by
    obtain ⟨f, hf, hshape⟩ :=
      map_eq_ok.mp (Tensor.synthesisFrame_shape hspatial net.config.kernelSize)
    obtain rfl : f = framedOne := Except.ok.inj (hf.symm.trans hframed)
    rw [hshape, hchannels]
  unfold synthesize at hy
  simp only [bind_eq_ok] at hy
  obtain ⟨a, ha, b, -, c, hc, hy⟩ := hy
  obtain ⟨-, -, -, -, -, ha⟩ :=
    (Tensor.separableFilter_shape _ _ _ _).mp (map_eq_ok.mpr ⟨a, ha, rfl⟩)
  obtain ⟨hac, -⟩ := Shape.add_eq_ok.mp ((a.add_shape b).symm.trans (map_eq_ok.mpr ⟨c, hc, rfl⟩))
  obtain ⟨-, hy⟩ := (c.divideByNormalizer_shape _).mp (map_eq_ok.mpr ⟨_, hy, rfl⟩)
  rw [← hy, ← hac, ← ha, hframedOne]

/-- A picture that is estimated from pictures that can be stored can be stored itself. -/
theorem estimate_isStorable {net : Network} {one two middle : Picture} (h : one.IsStorable)
    (hmiddle : net.estimate one two = .ok middle) : middle.IsStorable := by
  unfold estimate at hmiddle
  simp only [bind_eq_ok, pure_eq_ok] at hmiddle
  obtain ⟨-, -, _, -, _, -, out, hout, rfl⟩ := hmiddle
  have hplanes : out.shape.channels = 3 := forward_channels hout
  exact ⟨hplanes, h.columns, h.rows, h.width, h.height⟩

end Network

end Midframe
