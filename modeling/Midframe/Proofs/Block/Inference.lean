import Midframe.Block
import Midframe.Proofs.Scalar.Dyadic
import Midframe.Proofs.Tensor.Extents

/-!
# Shape inference through blocks

The shape of a result is computed a second time, without samples. For a layer, a chain of layers, a
shortcut and a block, the pass over a batch succeeds with a result of shape `t` exactly if shape
inference gives `t` and the batch is readable: mirror images reach far enough, nothing empty is
repeated or resampled, and a projection meets its own channel count. The extents must be exact as
double precision numbers, since doubling goes through those.
-/

namespace Midframe

/-- Both spatial extents are exact as double precision numbers. -/
def Shape.IsExact (s : Shape) : Prop := s.height ≤ 2 ^ 53 ∧ s.width ≤ 2 ^ 53

instance (s : Shape) : Decidable s.IsExact := inferInstanceAs (Decidable (_ ∧ _))

/-- There are rows and columns. -/
def Shape.IsSpatial (s : Shape) : Prop := 0 < s.height ∧ 0 < s.width

theorem Shape.scaled_two {s : Shape} (exact : s.IsExact) : s.scaled (2 : Float) = s.doubled := by
  unfold Shape.scaled Shape.doubled
  rw [scaledExtent_two exact.1, scaledExtent_two exact.2]

theorem Shape.scalable_two {s : Shape} (exact : s.IsExact) : s.Scalable 2 ↔ s.IsSpatial := by
  have hvalid : (Scalar.isFinite (2 : Float) && Scalar.lt Scalar.zero (2 : Float)) = true := by
    decide +kernel
  unfold Shape.Scalable Shape.IsSpatial
  rw [Shape.scaled_two exact]
  simp [hvalid, Shape.doubled, Shape.resized]

/-! ## Layers -/

namespace Layer

/-- The kernels of a convolution have as many columns as rows. -/
def IsSquare : Layer → Prop
  | conv c => c.IsSquare
  | _ => True

/-- What the layer reads of a batch of this shape is there. -/
def Readable : Layer → Shape → Prop
  | evenize border, s => border.Fits (Padding.trailing (s.height % 2) (s.width % 2)) s
  | conv c, s => c.windows.border.Fits (Padding.uniform c.windows.padding) s
  | up .shuffle, _ => True
  | up _, s => s.IsSpatial
  | prelu .., _ => True
  | resample scale, s => s.Scalable scale

/-- A layer takes a batch to a batch of shape `t` exactly if it is inferred to and the batch is
readable. -/
theorem forward_shape {layer : Layer} (square : layer.IsSquare) {x : Tensor Float32}
    (exact : x.shape.IsExact) (t : Shape) :
    (layer.forward x).map Tensor.shape = .ok t ↔
      layer.outputShape x.shape = .ok t ∧ layer.Readable x.shape := by
  cases layer with
  | evenize border =>
    have hpadded : x.shape.padded (Padding.trailing (x.shape.height % 2) (x.shape.width % 2))
        = x.shape.evenized := rfl
    show (x.pad _ border).map Tensor.shape = .ok t ↔ _
    rw [Tensor.pad_shape, hpadded]
    simp [outputShape, Readable]
  | conv c => exact c.forward_shape square x t
  | up algorithm =>
    have hresize (filter : Filter) : (x.resize 2 filter).map Tensor.shape = .ok t ↔
        Except.ok x.shape.doubled = (.ok t : Except Fault Shape) ∧ x.shape.IsSpatial := by
      rw [Tensor.resize_shape, Shape.scaled_two exact, Shape.scalable_two exact]
      simp
    cases algorithm with
    | nearest => exact hresize .nearest
    | bilinear => exact hresize .bilinear
    | pyramid =>
      show x.expand.map Tensor.shape = .ok t ↔ _
      rw [Tensor.expand_shape]
      simp [outputShape, Readable, Shape.IsSpatial]
    | shuffle =>
      show (x.shuffle 2).map Tensor.shape = .ok t ↔ _
      rw [Tensor.shuffle_shape]
      simp [outputShape, Readable]
  | prelu initial slope => simp [forward, outputShape, Readable]
  | resample scale =>
    show (x.resize scale .bilinear).map Tensor.shape = .ok t ↔ _
    rw [Tensor.resize_shape]
    simp [outputShape, Readable]

/-! ## Chains of layers -/

/-- The shapes that a chain of layers meets, the last one included. -/
def trail : List Layer → Shape → List Shape
  | [], s => [s]
  | layer :: layers, s => s :: match layer.outputShape s with
    | .ok t => trail layers t
    | .error _ => []

/-- Every layer of a chain can read what those in front of it leave. -/
def ChainReadable : List Layer → Shape → Prop
  | [], _ => True
  | layer :: layers, s =>
    layer.Readable s ∧ ∀ t, layer.outputShape s = .ok t → ChainReadable layers t

theorem chain_forward_shape {layers : List Layer} (square : ∀ layer ∈ layers, layer.IsSquare)
    {x : Tensor Float32} (exact : ∀ s ∈ trail layers x.shape, s.IsExact) (t : Shape) :
    (layers.foldlM (fun x (layer : Layer) => layer.forward x) x).map Tensor.shape = .ok t ↔
      layers.foldlM (fun s (layer : Layer) => layer.outputShape s) x.shape = .ok t ∧
        ChainReadable layers x.shape := by
  induction layers generalizing x with
  | nil => simp [ChainReadable]
  | cons layer layers ih =>
    have hhead := forward_shape (square layer List.mem_cons_self) (x := x)
      (exact x.shape (by simp [trail]))
    simp only [map_eq_ok] at hhead ih
    have hexact (s : Shape) (hs : layer.outputShape x.shape = .ok s) :
        ∀ u ∈ trail layers s, u.IsExact := fun u hu =>
      exact u (by simp only [trail, hs]; exact List.mem_cons_of_mem _ hu)
    simp only [List.foldlM_cons, map_eq_ok, bind_eq_ok, ChainReadable]
    constructor
    · rintro ⟨z, ⟨y, hy, hz⟩, rfl⟩
      obtain ⟨hinfer, hread⟩ := (hhead y.shape).mp ⟨y, hy, rfl⟩
      obtain ⟨hrest, hreads⟩ := (ih (fun l hl => square l (List.mem_cons_of_mem _ hl))
        (hexact _ hinfer)).mp ⟨z, hz, rfl⟩
      refine ⟨⟨y.shape, hinfer, hrest⟩, hread, fun s hs => ?_⟩
      rw [hinfer] at hs
      cases hs
      exact hreads
    · rintro ⟨⟨s, hinfer, hrest⟩, hread, hreads⟩
      obtain ⟨y, hy, rfl⟩ := (hhead s).mpr ⟨hinfer, hread⟩
      obtain ⟨z, hz, rfl⟩ := (ih (fun l hl => square l (List.mem_cons_of_mem _ hl))
        (hexact _ hinfer)).mpr ⟨hrest, hreads _ hinfer⟩
      exact ⟨z, ⟨y, hy, hz⟩, rfl⟩

end Layer

/-! ## Shortcuts -/

/-- The kernels are single samples, taken at every position. -/
structure Convolution.IsPointwise (c : Convolution) : Prop where
  /-- One row. -/
  height : c.weight.shape.height = 1
  /-- One column. -/
  width : c.weight.shape.width = 1
  /-- A window at every position, and nothing around them. -/
  windows : c.windows = ⟨1, 0, .zeros⟩

theorem Convolution.IsPointwise.isSquare {c : Convolution} (h : c.IsPointwise) : c.IsSquare :=
  h.width.trans h.height.symm

/-- There is a window of one sample for every sample. -/
theorem Windows.count?_pointwise (n : Nat) :
    (⟨1, 0, .zeros⟩ : Windows).count? n 1 = if 0 < n then some n else none := by
  unfold Windows.count?
  by_cases h : 0 < n
  · rw [if_neg (by simp; omega), if_pos h]
    simp only [Nat.mul_zero, Nat.add_zero, Nat.div_one]
    congr 1
    omega
  · rw [if_pos (by simp; omega), if_neg h]

/-- A projection keeps the spatial extents. -/
theorem Convolution.IsPointwise.outputShape {c : Convolution} (h : c.IsPointwise) (s t : Shape) :
    c.outputShape s = .ok t ↔
      { s with channels := c.outputs } = t ∧ s.channels = c.inputs ∧ s.IsSpatial := by
  have hkernel : c.kernel = 1 := h.height
  unfold Convolution.outputShape Shape.IsSpatial
  rw [hkernel, h.windows, Windows.count?_pointwise, Windows.count?_pointwise]
  by_cases hchannels : s.channels = c.inputs
  · by_cases hh : 0 < s.height
    · by_cases hw : 0 < s.width
      · simp [hchannels, hh, hw]
      · simp [hchannels, hh, hw]
    · simp [hchannels, hh]
  · simp [hchannels]

namespace Shortcut

/-- The projection works on single samples. -/
def IsPointwise (sc : Shortcut) : Prop := ∀ c, sc.projection = some c → c.IsPointwise

/-- The shape behind the scaling. -/
def resampled (sc : Shortcut) (s : Shape) : Shape :=
  match sc.scale with
  | some scale => s.scaled scale
  | none => s

theorem resampled_channels (sc : Shortcut) (s : Shape) :
    (sc.resampled s).channels = s.channels := by
  unfold resampled
  cases sc.scale <;> rfl

/-- The shape behind the projection. -/
def projected (sc : Shortcut) (s : Shape) : Shape :=
  match sc.projection with
  | some c => { s with channels := c.outputs }
  | none => s

/-- What the shortcut reads of a batch of this shape is there. -/
structure Readable (sc : Shortcut) (s : Shape) : Prop where
  /-- The batch can be scaled. -/
  scale : ∀ scale, sc.scale = some scale → s.Scalable scale
  /-- The projection takes as many channels as there are, at some positions. -/
  projection : ∀ c, sc.projection = some c →
    (sc.resampled s).channels = c.inputs ∧ (sc.resampled s).IsSpatial

/-- The inference through a shortcut always gives a shape. -/
theorem outputShape_eq (sc : Shortcut) (s : Shape) :
    sc.outputShape s = .ok (sc.projected (sc.resampled s)) := by
  unfold outputShape projected resampled
  cases sc.scale with
  | none => cases sc.projection <;> rfl
  | some scale => cases sc.projection <;> rfl

/-- The first step of a shortcut. -/
theorem resample_shape (sc : Shortcut) (x : Tensor Float32) (u : Shape) :
    (∃ y, (match sc.scale with
      | some scale => (Layer.resample scale).forward x
      | none => .ok x) = .ok y ∧ y.shape = u) ↔
    sc.resampled x.shape = u ∧ ∀ scale, sc.scale = some scale → x.shape.Scalable scale := by
  unfold resampled
  cases sc.scale with
  | none => simp
  | some scale =>
    have hresize := x.resize_shape scale .bilinear u
    simp only [map_eq_ok] at hresize
    simpa [Layer.forward] using hresize

/-- The second step of a shortcut. -/
theorem project_shape {sc : Shortcut} (pointwise : sc.IsPointwise) (y : Tensor Float32)
    (t : Shape) :
    (∃ z, (match sc.projection with
      | some c => c.forward y
      | none => .ok y) = .ok z ∧ z.shape = t) ↔
    sc.projected y.shape = t ∧
      ∀ c, sc.projection = some c → y.shape.channels = c.inputs ∧ y.shape.IsSpatial := by
  unfold projected
  cases hprojection : sc.projection with
  | none => simp
  | some c =>
    have hc := pointwise c hprojection
    have hforward := Convolution.forward_shape hc.isSquare y t
    rw [hc.outputShape, hc.windows] at hforward
    simp only [map_eq_ok, Border.fits_zeros, and_true] at hforward
    simpa using hforward

/-- A shortcut takes a batch to a batch of shape `t` exactly if it is inferred to and the batch is
readable. -/
theorem forward_shape {sc : Shortcut} (pointwise : sc.IsPointwise) (x : Tensor Float32)
    (t : Shape) :
    (sc.forward x).map Tensor.shape = .ok t ↔
      sc.outputShape x.shape = .ok t ∧ sc.Readable x.shape := by
  have hforward : sc.forward x = (match sc.scale with
      | some scale => (Layer.resample scale).forward x
      | none => .ok x) >>= fun y => match sc.projection with
        | some c => c.forward y
        | none => .ok y := by
    unfold forward
    cases sc.scale with
    | none => cases sc.projection <;> rfl
    | some scale => cases sc.projection <;> rfl
  simp only [hforward, outputShape_eq, map_eq_ok, bind_eq_ok, Except.ok.injEq]
  constructor
  · rintro ⟨z, ⟨y, hy, hz⟩, ht⟩
    obtain ⟨hu, hscale⟩ := (sc.resample_shape x y.shape).mp ⟨y, hy, rfl⟩
    obtain ⟨ht, hprojection⟩ := (project_shape pointwise y t).mp ⟨z, hz, ht⟩
    rw [← hu] at ht hprojection
    exact ⟨ht, hscale, hprojection⟩
  · rintro ⟨ht, hscale, hprojection⟩
    obtain ⟨y, hy, hu⟩ := (sc.resample_shape x _).mpr ⟨rfl, hscale⟩
    rw [← hu] at ht hprojection
    obtain ⟨z, hz, ht⟩ := (project_shape pointwise y t).mpr ⟨ht, hprojection⟩
    exact ⟨z, ⟨y, hy, hz⟩, ht⟩

end Shortcut

/-! ## Blocks -/

namespace Block

/-- Convolutions have square kernels, and the shortcut projects single samples. -/
structure IsSound (b : Block) : Prop where
  /-- The kernels of the main chain are square. -/
  square : ∀ layer ∈ b.main, layer.IsSquare
  /-- The projection of the shortcut works on single samples. -/
  pointwise : ∀ sc, b.shortcut = some sc → sc.IsPointwise

/-- The shape that the main chain and the shortcut start from. -/
def evenShape (b : Block) (s : Shape) : Shape := if b.evenize.isSome then s.evenized else s

/-- The shapes that a block meets, its result included. -/
def trail (b : Block) (s : Shape) : List Shape := Layer.trail b.main (b.evenShape s)

/-- What the block reads of a batch of this shape is there. -/
structure Readable (b : Block) (s : Shape) : Prop where
  /-- The batch can be extended to even extents. -/
  evenize : ∀ border, b.evenize = some border →
    border.Fits (Padding.trailing (s.height % 2) (s.width % 2)) s
  /-- The layers of the main chain can read it. -/
  main : Layer.ChainReadable b.main (b.evenShape s)
  /-- The shortcut can read it. -/
  shortcut : ∀ sc, b.shortcut = some sc → sc.Readable (b.evenShape s)

theorem evenized_shape (b : Block) (x : Tensor Float32) (s : Shape) :
    (b.evenized x).map Tensor.shape = .ok s ↔ b.evenShape x.shape = s ∧
      ∀ border, b.evenize = some border →
        border.Fits (Padding.trailing (x.shape.height % 2) (x.shape.width % 2)) x.shape := by
  unfold evenized evenShape
  cases b.evenize with
  | none => simp
  | some border =>
    have hpadded : x.shape.padded (Padding.trailing (x.shape.height % 2) (x.shape.width % 2))
        = x.shape.evenized := rfl
    have hpad := x.pad_shape (Padding.trailing (x.shape.height % 2) (x.shape.width % 2)) border s
    rw [hpadded] at hpad
    simpa [Tensor.padToEven] using hpad

/-- The inference through a block, step by step. -/
theorem outputShape_eq_ok (b : Block) (s t : Shape) : b.outputShape s = .ok t ↔
    b.main.foldlM (fun s (layer : Layer) => layer.outputShape s) (b.evenShape s) = .ok t ∧
      ∀ sc, b.shortcut = some sc → sc.projected (sc.resampled (b.evenShape s)) = t := by
  have heven : (if b.evenize.isSome then s.evenized else s) = b.evenShape s := rfl
  unfold outputShape
  simp only [heven, bind_eq_ok]
  cases b.shortcut with
  | none => simp
  | some sc =>
    simp only [Shortcut.outputShape_eq, Option.some.injEq, forall_eq', bind_eq_ok,
      Except.ok.injEq, exists_eq_left']
    constructor
    · rintro ⟨out, hout, h⟩
      split at h
      · next heq =>
        cases h
        exact ⟨hout, beq_iff_eq.mp heq⟩
      · cases h
    · rintro ⟨hout, heq⟩
      exact ⟨t, hout, by rw [if_pos (beq_iff_eq.mpr heq)]; rfl⟩

/-- A block takes a batch to a batch of shape `t` exactly if it is inferred to and the batch is
readable. -/
theorem forward_shape {b : Block} (sound : b.IsSound) {x : Tensor Float32}
    (exact : ∀ s ∈ b.trail x.shape, s.IsExact) (t : Shape) :
    (b.forward x).map Tensor.shape = .ok t ↔
      b.outputShape x.shape = .ok t ∧ b.Readable x.shape := by
  have hmain {y : Tensor Float32} (hy : y.shape = b.evenShape x.shape) (u : Shape) :=
    Layer.chain_forward_shape sound.square (x := y) (by rw [hy]; exact exact) u
  simp only [map_eq_ok] at hmain
  rw [outputShape_eq_ok]
  unfold forward
  simp only [map_eq_ok, bind_eq_ok]
  constructor
  · rintro ⟨z, ⟨y, hy, out, hout, hz⟩, rfl⟩
    obtain ⟨hys, heven⟩ := (b.evenized_shape x y.shape).mp (map_eq_ok.mpr ⟨y, hy, rfl⟩)
    obtain ⟨hchain, hread⟩ := (hmain hys.symm out.shape).mp ⟨out, hout, rfl⟩
    rw [← hys] at hchain hread
    cases hsc : b.shortcut with
    | none =>
      rw [hsc, pure_eq_ok] at hz
      subst hz
      refine ⟨⟨hchain, fun sc h => ?_⟩, heven, hread, fun sc h => ?_⟩
      · cases h
      · rw [hsc] at h
        cases h
    | some sc =>
      rw [hsc] at hz
      simp only [bind_eq_ok, mapError_eq_ok] at hz
      obtain ⟨skip, hskip, hz⟩ := hz
      obtain ⟨houts, hskips⟩ := Shape.add_eq_ok.mp ((out.add_shape skip).symm.trans
        (map_eq_ok.mpr ⟨z, hz, rfl⟩))
      obtain ⟨hinfer, hscread⟩ := (Shortcut.forward_shape (sound.pointwise sc hsc) y skip.shape).mp
        (map_eq_ok.mpr ⟨skip, hskip, rfl⟩)
      rw [Shortcut.outputShape_eq, Except.ok.injEq, ← hys, hskips] at hinfer
      rw [houts] at hchain
      refine ⟨⟨hchain, fun sc' h => ?_⟩, heven, hread, fun sc' h => ?_⟩
      · cases h
        exact hinfer
      · rw [hsc] at h
        cases h
        rw [hys]
        exact hscread
  · rintro ⟨⟨hchain, hskip⟩, hread⟩
    obtain ⟨y, hy, hys⟩ := map_eq_ok.mp
      ((b.evenized_shape x _).mpr ⟨rfl, hread.evenize⟩)
    obtain ⟨out, hout, houts⟩ := (hmain hys t).mpr ⟨by rw [hys]; exact hchain,
      by rw [hys]; exact hread.main⟩
    cases hsc : b.shortcut with
    | none => exact ⟨out, ⟨y, hy, out, hout, rfl⟩, houts⟩
    | some sc =>
      obtain ⟨skip, hforward, hskips⟩ := map_eq_ok.mp ((Shortcut.forward_shape
        (sound.pointwise sc hsc) y t).mpr ⟨by rw [Shortcut.outputShape_eq, hys, hskip sc hsc],
          by rw [hys]; exact hread.shortcut sc hsc⟩)
      obtain ⟨z, hz, hzs⟩ := map_eq_ok.mp ((out.add_shape skip).trans
        (Shape.add_eq_ok.mpr ⟨houts, hskips⟩))
      refine ⟨z, ⟨y, hy, out, hout, ?_⟩, hzs⟩
      simp only [bind_eq_ok, mapError_eq_ok]
      exact ⟨skip, hforward, hz⟩

end Block

end Midframe
