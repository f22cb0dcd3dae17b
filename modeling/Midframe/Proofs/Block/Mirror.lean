import Midframe.Proofs.Block.Regular

/-!
# What inference leaves out

Shape inference checks channel counts and kernels. Of all that a pass needs besides, only the reach
of mirror images is not settled by it: where there are rows and columns to start from, a compiled
block leaves some at every layer, its scales are positive numbers and its projection meets its own
channel count. So a block applied to a batch does what is inferred exactly if every mirror image
that it takes fits into what it is taken of.
-/

namespace Midframe

theorem Windows.count?_pos {w : Windows} {n kernel m : Nat} (h : w.count? n kernel = some m) :
    0 < m := by
  simp only [Windows.count?] at h
  split at h
  · cases h
  · cases h
    exact Nat.succ_pos _

namespace Layer

/-- A mirror image that the layer takes of a batch of this shape reaches far enough. -/
def MirrorFits : Layer → Shape → Prop
  | evenize border, s =>
    border = .reflect → border.Fits (Padding.trailing (s.height % 2) (s.width % 2)) s
  | conv c, s =>
    c.windows.border = .reflect →
      c.windows.border.Fits (Padding.uniform c.windows.padding) s
  | _, _ => True

/-- All mirror images that a chain takes reach far enough. -/
def ChainMirrorsFit : List Layer → Shape → Prop
  | [], _ => True
  | layer :: layers, s =>
    layer.MirrorFits s ∧ ∀ t, layer.outputShape s = .ok t → ChainMirrorsFit layers t

end Layer

theorem Border.fits_iff {border : Border} {p : Padding} {s : Shape} (spatial : s.IsSpatial) :
    border.Fits p s ↔ (border = .reflect → border.Fits p s) := by
  cases border with
  | zeros => simp [Border.fits_zeros]
  | replicate => simp [Border.fits_replicate spatial.1 spatial.2]
  | reflect => simp

namespace Layer

variable {layer : Layer} {layers : List Layer} {s t : Shape}

theorem readable_iff (regular : layer.IsRegular) (spatial : s.IsSpatial) :
    layer.Readable s ↔ layer.MirrorFits s := by
  cases layer with
  | evenize border => exact Border.fits_iff spatial
  | conv c => exact Border.fits_iff spatial
  | up algorithm => cases algorithm <;> simp [Readable, MirrorFits, spatial]
  | prelu initial slope => rfl
  | resample scale => exact regular.elim

/-- A layer leaves rows and columns. -/
theorem outputShape_isSpatial (regular : layer.IsRegular) (spatial : s.IsSpatial)
    (h : layer.outputShape s = .ok t) : t.IsSpatial := by
  obtain ⟨hh, hw⟩ := spatial
  cases layer with
  | evenize border =>
    cases h
    exact ⟨by simp only [Shape.evenized, Shape.resized]; omega,
      by simp only [Shape.evenized, Shape.resized]; omega⟩
  | conv c =>
    obtain ⟨-, height, width, hheight, hwidth, rfl⟩ := Convolution.outputShape_eq_ok.mp h
    exact ⟨Windows.count?_pos hheight, Windows.count?_pos hwidth⟩
  | up algorithm =>
    cases algorithm with
    | shuffle =>
      simp only [outputShape] at h
      split at h
      · cases h
      · cases h
        exact ⟨by simp only [Shape.shuffled]; omega, by simp only [Shape.shuffled]; omega⟩
    | _ =>
      cases h
      exact ⟨by simp only [Shape.doubled, Shape.resized]; omega,
        by simp only [Shape.doubled, Shape.resized]; omega⟩
  | prelu initial slope =>
    cases h
    exact ⟨hh, hw⟩
  | resample scale => exact regular.elim

/-- A layer keeps the number of batch entries. -/
theorem outputShape_batch (h : layer.outputShape s = .ok t) : t.batch = s.batch := by
  cases layer with
  | conv c =>
    obtain ⟨-, _, _, -, -, rfl⟩ := Convolution.outputShape_eq_ok.mp h
    rfl
  | up algorithm =>
    cases algorithm with
    | shuffle =>
      simp only [outputShape] at h
      split at h
      · cases h
      · cases h
        rfl
    | _ => cases h; rfl
  | _ => cases h; rfl

theorem chainReadable_iff (regular : ∀ layer ∈ layers, layer.IsRegular) (spatial : s.IsSpatial) :
    ChainReadable layers s ↔ ChainMirrorsFit layers s := by
  induction layers generalizing s with
  | nil => rfl
  | cons layer layers ih =>
    have hlayer := regular layer List.mem_cons_self
    refine and_congr (readable_iff hlayer spatial)
      (forall_congr' fun t => forall_congr' fun h => ?_)
    exact ih (fun l hl => regular l (List.mem_cons_of_mem _ hl))
      (outputShape_isSpatial hlayer spatial h)

theorem chain_isSpatial (regular : ∀ layer ∈ layers, layer.IsRegular) (spatial : s.IsSpatial)
    (h : layers.foldlM (fun s (layer : Layer) => layer.outputShape s) s = .ok t) :
    t.IsSpatial := by
  induction layers generalizing s with
  | nil =>
    cases h
    exact spatial
  | cons layer layers ih =>
    rw [List.foldlM_cons, bind_eq_ok] at h
    obtain ⟨u, hu, h⟩ := h
    exact ih (fun l hl => regular l (List.mem_cons_of_mem _ hl))
      (outputShape_isSpatial (regular layer List.mem_cons_self) spatial hu) h

theorem chain_batch
    (h : layers.foldlM (fun s (layer : Layer) => layer.outputShape s) s = .ok t) :
    t.batch = s.batch := by
  induction layers generalizing s with
  | nil =>
    cases h
    rfl
  | cons layer layers ih =>
    rw [List.foldlM_cons, bind_eq_ok] at h
    obtain ⟨u, hu, h⟩ := h
    exact (ih h).trans (outputShape_batch hu)

theorem start_mem_trail (layers : List Layer) (s : Shape) : s ∈ trail layers s := by
  cases layers <;> exact List.mem_cons_self

theorem end_mem_trail
    (h : layers.foldlM (fun s (layer : Layer) => layer.outputShape s) s = .ok t) :
    t ∈ trail layers s := by
  induction layers generalizing s with
  | nil =>
    cases h
    exact List.mem_cons_self
  | cons layer layers ih =>
    rw [List.foldlM_cons, bind_eq_ok] at h
    obtain ⟨u, hu, h⟩ := h
    simp only [trail, hu]
    exact List.mem_cons_of_mem _ (ih h)

end Layer

namespace Block

variable {b : Block} {s t : Shape}

/-- All mirror images that a block takes of a batch of this shape reach far enough. -/
structure MirrorsFit (b : Block) (s : Shape) : Prop where
  /-- That of the extension to even extents. -/
  evenize : b.evenize = some .reflect →
    Border.reflect.Fits (Padding.trailing (s.height % 2) (s.width % 2)) s
  /-- Those of the main chain. -/
  main : Layer.ChainMirrorsFit b.main (b.evenShape s)

theorem evenShape_isSpatial (b : Block) (spatial : s.IsSpatial) : (b.evenShape s).IsSpatial := by
  obtain ⟨hh, hw⟩ := spatial
  unfold evenShape
  split
  · exact ⟨by simp only [Shape.evenized, Shape.resized]; omega,
      by simp only [Shape.evenized, Shape.resized]; omega⟩
  · exact ⟨hh, hw⟩

/-- A block leaves rows and columns. -/
theorem outputShape_isSpatial (regular : b.IsRegular) (spatial : s.IsSpatial)
    (h : b.outputShape s = .ok t) : t.IsSpatial :=
  Layer.chain_isSpatial regular.main (b.evenShape_isSpatial spatial)
    ((b.outputShape_eq_ok s t).mp h).1

theorem evenShape_batch (b : Block) (s : Shape) : (b.evenShape s).batch = s.batch := by
  unfold evenShape
  split <;> rfl

/-- A block keeps the number of batch entries. -/
theorem outputShape_batch (h : b.outputShape s = .ok t) : t.batch = s.batch :=
  (Layer.chain_batch ((b.outputShape_eq_ok s t).mp h).1).trans (b.evenShape_batch s)

theorem end_mem_trail (h : b.outputShape s = .ok t) : t ∈ b.trail s :=
  Layer.end_mem_trail ((b.outputShape_eq_ok s t).mp h).1

theorem shortcut_readable (regular : b.IsRegular) (spatial : s.IsSpatial)
    (exact : ∀ u ∈ b.trail s, u.IsExact) (h : b.outputShape s = .ok t) {sc : Shortcut}
    (hsc : b.shortcut = some sc) : sc.Readable (b.evenShape s) := by
  obtain ⟨hchain, hskip⟩ := (b.outputShape_eq_ok s t).mp h
  have hout := outputShape_isSpatial regular spatial h
  have hexact := exact t (end_mem_trail h)
  have hstart := exact (b.evenShape s) (Layer.start_mem_trail _ _)
  have hheight : (sc.resampled (b.evenShape s)).height = t.height := by
    rw [← hskip sc hsc]
    unfold Shortcut.projected
    cases sc.projection <;> rfl
  have hwidth : (sc.resampled (b.evenShape s)).width = t.width := by
    rw [← hskip sc hsc]
    unfold Shortcut.projected
    cases sc.projection <;> rfl
  have hspatial : (sc.resampled (b.evenShape s)).IsSpatial :=
    ⟨hheight ▸ hout.1, hwidth ▸ hout.2⟩
  refine ⟨fun scale hscale => ?_, fun c hc => ⟨?_, hspatial⟩⟩
  · have hscaled : sc.resampled (b.evenShape s) = (b.evenShape s).scaled scale := by
      simp only [Shortcut.resampled, hscale]
    rw [hscaled] at hheight hspatial
    refine ⟨positive_of_scaledExtent hstart.1 hspatial.1 ?_, hspatial⟩
    have hle : (scaledExtent (b.evenShape s).height scale) ≤ 2 ^ 53 := hheight.trans_le hexact.1
    unfold maxCount
    omega
  · obtain ⟨hinputs, houtputs⟩ := regular.projection sc c hsc hc
    have hchannels : t.channels = b.outputs := by
      rw [← houtputs, ← hskip sc hsc]
      simp only [Shortcut.projected, hc]
    rw [sc.resampled_channels, hinputs]
    exact (regular.carries _ _ hchain).mpr hchannels

/-- Where inference gives a shape, only mirror images can keep a block from being applied. -/
theorem readable_iff (regular : b.IsRegular) (spatial : s.IsSpatial)
    (exact : ∀ u ∈ b.trail s, u.IsExact) (h : b.outputShape s = .ok t) :
    b.Readable s ↔ b.MirrorsFit s := by
  have hmain := Layer.chainReadable_iff regular.main (b.evenShape_isSpatial spatial)
  constructor
  · intro hread
    exact ⟨fun heven => hread.evenize _ heven, hmain.mp hread.main⟩
  · intro hfits
    refine ⟨fun border hborder => ?_, hmain.mpr hfits.main,
      fun sc hsc => shortcut_readable regular spatial exact h hsc⟩
    exact (Border.fits_iff spatial).mpr fun hreflect => by
      subst hreflect
      exact hfits.evenize hborder

end Block

end Midframe
