import Midframe.Proofs.Block.Centred
import Midframe.Proofs.Pyramid.Mirror

/-!
# Both passes at once

What a pass does to shapes can be proved of batches and of shapes alone in one go: it needs three
laws of the values that travel through a pyramid, and both have them.
-/

namespace Midframe

/-- A regular block takes batches of shape `s` to batches of shape `t`. -/
structure Block.Gives (b : Block) (s t : Shape) : Prop where
  /-- The block is regular. -/
  regular : b.IsRegular
  /-- The inferred shape. -/
  result : b.outputShape s = .ok t
  /-- All extents on the way are exact. -/
  exact : ∀ u ∈ b.trail s, u.IsExact
  /-- The batch can be read. -/
  readable : b.Readable s

/-- Values whose shapes are what inference says. -/
class LawfulFlow (τ : Type) [Flow τ] : Prop where
  /-- A block that gives a shape gives a value of that shape. -/
  apply_shape : ∀ {b : Block} {s t : Shape}, b.Gives s t → ∀ v : τ, Flow.shape v = s →
    ∃ u : τ, Flow.apply b v = .ok u ∧ Flow.shape u = t
  /-- Values of one shape have a sum of that shape. -/
  add_shape : ∀ a b : τ, Flow.shape b = Flow.shape a →
    ∃ c : τ, Flow.add a b = .ok c ∧ Flow.shape c = Flow.shape a
  /-- Rows and columns that are there can be kept. -/
  crop_shape : ∀ (a : τ) {height width : Nat}, height ≤ (Flow.shape a).height →
    width ≤ (Flow.shape a).width →
    ∃ c : τ, Flow.crop a height width = .ok c ∧ Flow.shape c = (Flow.shape a).resized height width

instance : LawfulFlow Shape where
  apply_shape h v hv := by
    subst hv
    exact ⟨_, h.result, rfl⟩
  add_shape a b h := ⟨a, Shape.add_eq_ok.mpr ⟨rfl, h⟩, rfl⟩
  crop_shape _ _ _ hheight hwidth := ⟨_, Shape.crop_eq_ok hheight hwidth, rfl⟩

instance : LawfulFlow (Tensor Float32) where
  apply_shape {b s t} h v hv := by
    subst hv
    exact map_eq_ok.mp ((Block.forward_shape h.regular.isSound h.exact t).mpr
      ⟨h.result, h.readable⟩)
  add_shape a b h := map_eq_ok.mp ((a.add_shape b).trans (Shape.add_eq_ok.mpr ⟨rfl, h⟩))
  crop_shape _ _ _ hheight hwidth := Tensor.exists_crop hheight hwidth

/-! ## Blocks of a specification -/

/-- Blocks of the specification from `inputs` to `outputs` channels take every extent `e` to
`f e`. -/
def SourcedSpec.Scales (spec : SourcedSpec) (f : Nat → Nat) : Prop :=
  ∀ ⦃scope : String⦄ ⦃inputs mid outputs : Nat⦄ ⦃b : Block⦄,
    Block.build scope spec.source spec.spec [inputs, mid, outputs] = .ok b →
    ∀ (n : Nat) ⦃height width : Nat⦄, 0 < height → 0 < width →
      max height (f height) ≤ 2 ^ 53 → max width (f width) ≤ 2 ^ 53 →
      b.Gives ⟨n, inputs, height, width⟩ ⟨n, outputs, f height, f width⟩

/-- Centred specifications without mirror images scale as their operations do. -/
theorem SourcedSpec.scales_of_centred {spec : SourcedSpec} {f : Nat → Nat}
    (centred : spec.spec.IsCentred) (mirrorless : ∀ op ∈ spec.spec.ops, op.IsMirrorless = true)
    (final : ∀ n, Op.finalExtent spec.spec.ops n = f n)
    (bound : ∀ n, ∀ e ∈ Op.extents spec.spec.ops n, e ≤ max n (f n)) : spec.Scales f := by
  intro scope inputs mid outputs b hbuild n height width hheight hwidth hmaxh hmaxw
  obtain ⟨compiled, hcompiled, hform⟩ := Block.build_eq_ok hbuild
  obtain ⟨hresult, htrail, hmirrors⟩ := Block.compile_centred centred hcompiled n hheight hwidth
  rw [final, final] at hresult
  have hexact : ∀ u ∈ compiled.trail ⟨n, inputs, height, width⟩, u.IsExact := fun u hu =>
    ⟨(bound height _ (htrail u hu).1).trans hmaxh, (bound width _ (htrail u hu).2).trans hmaxw⟩
  have hregular := Block.compile_isRegular hcompiled
  have hreadable : compiled.Readable ⟨n, inputs, height, width⟩ :=
    (Block.readable_iff hregular ⟨hheight, hwidth⟩ hexact hresult).mpr (hmirrors mirrorless)
  -- The block differs from the compiled one in its parameters only.
  refine ⟨hregular.of_form_eq hform, ?_, ?_, ?_⟩
  · rw [← Block.outputShape_form, hform, Block.outputShape_form]
    exact hresult
  · rw [← Block.trail_form, hform, Block.trail_form]
    exact hexact
  · rw [← Block.readable_form, hform, Block.readable_form]
    exact hreadable

end Midframe
