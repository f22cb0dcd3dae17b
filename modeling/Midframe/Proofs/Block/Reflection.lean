import Midframe.Proofs.Block.Compiled
import Midframe.Proofs.Block.Mirror

/-!
# Mirror images and operations

Where shape inference succeeds and there are rows and columns to start from, a block can still fail
to be applied, but only because a mirror image does not fit: an operation that pads with one must be
reached with more rows and columns than it adds. This can be told from the operations of the block
and the shapes that are inferred for them.
-/

namespace Midframe

/-- The rows and columns that a convolution adds on each edge. -/
def Flags.padding (flags : Flags) (kernel : Nat) : Nat :=
  if flags.noPad then 0 else (kernel - 1) / 2

/-- The padding of an operation fits the extents that it is reached with, if it is a mirror
image. -/
def Op.ReflectionFits (flags : Flags) : Op → Shape → Prop
  | evenize .reflect, s => 2 ≤ s.height ∧ 2 ≤ s.width
  | conv kernel .reflect, s | sconv kernel .reflect, s =>
    flags.padding kernel = 0 ∨ (flags.padding kernel < s.height ∧ flags.padding kernel < s.width)
  | _, _ => True

instance (flags : Flags) (op : Op) (s : Shape) : Decidable (op.ReflectionFits flags s) :=
  match op with
  | .evenize .reflect => inferInstanceAs (Decidable (_ ∧ _))
  | .conv _ .reflect | .sconv _ .reflect => inferInstanceAs (Decidable (_ ∨ _))
  | .evenize .zeros | .conv _ .zeros | .sconv _ .zeros
  | .evenize .replicate | .conv _ .replicate | .sconv _ .replicate
  | .up _ | .prelu _ => .isTrue trivial

/-- A missing row and column are added as mirror images if there are two to take them from. -/
theorem Border.fits_trailing {s : Shape} (spatial : s.IsSpatial) :
    Border.reflect.Fits (Padding.trailing (s.height % 2) (s.width % 2)) s ↔
      2 ≤ s.height ∧ 2 ≤ s.width := by
  obtain ⟨hh, hw⟩ := spatial
  rw [fits_reflect]
  simp only [Padding.trailing, Padding.isZero, Bool.and_eq_true, beq_iff_eq]
  omega

theorem Border.fits_uniform {s : Shape} (n : Nat) :
    Border.reflect.Fits (Padding.uniform n) s ↔ n = 0 ∨ (n < s.height ∧ n < s.width) := by
  rw [fits_reflect]
  simp only [Padding.uniform, Padding.isZero, Bool.and_eq_true, beq_iff_eq, Nat.max_self, and_self]

namespace Layer

variable {flags : Flags}

theorem mirrorFits_form (layer : Layer) (s : Shape) :
    layer.form.MirrorFits s ↔ layer.MirrorFits s := by
  cases layer <;> rfl

/-- Whether the mirror image of a layer fits can be told from its operation. -/
theorem IsOf.mirrorFits_iff {op : Op} {layer : Layer} (h : layer.IsOf flags op) (s : Shape) :
    layer.MirrorFits s ↔ op.ReflectionFits flags s := by
  obtain ⟨heven, inputs, outputs, blank, hblank, hform⟩ := h
  rw [← mirrorFits_form, hform, mirrorFits_form]
  have hkernel (kernel stride : Nat) (border : Border) :
      (ofKernel kernel stride border flags inputs outputs).MirrorFits s ↔
        (border = .reflect → flags.padding kernel = 0 ∨
          (flags.padding kernel < s.height ∧ flags.padding kernel < s.width)) := by
    rw [← Border.fits_uniform]
    constructor
    · intro h hborder
      exact hborder ▸ h hborder
    · intro h hborder
      exact (show border = .reflect from hborder) ▸ h hborder
  cases op with
  | evenize border => cases heven
  | conv kernel border =>
    cases hblank
    rw [hkernel]
    cases border <;> simp [Op.ReflectionFits]
  | sconv kernel border =>
    cases hblank
    rw [hkernel]
    cases border <;> simp [Op.ReflectionFits]
  | up algorithm =>
    cases algorithm with
    | shuffle =>
      simp only [ofOp] at hblank
      split at hblank
      · cases hblank
      · cases hblank
        rfl
    | _ => cases hblank; rfl
  | prelu slope =>
    cases hblank
    rfl

/-- All mirror images of a chain fit exactly if those of the operations do that are reached. -/
theorem chainMirrorsFit_iff {ops : List Op} {layers : List Layer}
    (h : List.Forall₂ (IsOf flags) ops layers) (s : Shape) :
    ChainMirrorsFit layers s ↔
      ∀ p ∈ ops.zip (trail layers s), p.1.ReflectionFits flags p.2 := by
  induction h generalizing s with
  | nil => simp [ChainMirrorsFit]
  | @cons op layer ops layers hlayer _ ih =>
    rw [trail, List.zip_cons_cons, List.forall_mem_cons]
    refine and_congr (hlayer.mirrorFits_iff s) ?_
    cases houtput : layer.outputShape s with
    | error e => simp
    | ok t => simp [ih]

end Layer

namespace Block

theorem IsCompiled.mirrorsFit_iff {b : Block} {spec : BlockSpec} {plan : List Nat}
    (h : b.IsCompiled spec plan) {s : Shape} (spatial : s.IsSpatial) :
    b.MirrorsFit s ↔ ∀ p ∈ b.reached s, p.1.ReflectionFits spec.flags p.2 := by
  have hmain := Layer.chainMirrorsFit_iff h.main_isOf (b.evenShape s)
  rw [h.forall_reached s (Op.ReflectionFits spec.flags)]
  constructor
  · rintro ⟨heven, hchain⟩
    refine ⟨fun border hborder => ?_, hmain.mp hchain⟩
    cases border with
    | reflect => exact (Border.fits_trailing spatial).mp (heven hborder)
    | _ => trivial
  · rintro ⟨heven, hchain⟩
    exact ⟨fun hborder => (Border.fits_trailing spatial).mpr (heven _ hborder), hmain.mpr hchain⟩

/-- Where there are rows and columns to start from, a block can be applied to a batch exactly if its
shape can be inferred and every mirror image fits the shape that its operation is reached with. The
result then has the inferred shape. -/
theorem forward_isOk_iff {source : String} {plan : List Nat} {b : Block}
    (h : ofText source plan = .ok b) {x : Tensor Float32} (spatial : x.shape.IsSpatial)
    (exact : ∀ s ∈ b.trail x.shape, s.IsExact) :
    ((∃ y, b.forward x = .ok y) ↔ (∃ t, b.outputShape x.shape = .ok t) ∧
      ∀ p ∈ b.reached x.shape, p.1.ReflectionFits b.spec.flags p.2) ∧
    ∀ y t, b.forward x = .ok y → b.outputShape x.shape = .ok t → y.shape = t := by
  have hcompiled := isCompiled_of_ofText h
  have hshape := forward_shape hcompiled.isRegular.isSound exact
  have hfits {t : Shape} (ht : b.outputShape x.shape = .ok t) :
      b.Readable x.shape ↔ ∀ p ∈ b.reached x.shape, p.1.ReflectionFits b.spec.flags p.2 :=
    (readable_iff hcompiled.isRegular spatial exact ht).trans (hcompiled.mirrorsFit_iff spatial)
  refine ⟨⟨?_, ?_⟩, fun y t hy ht => ?_⟩
  · rintro ⟨y, hy⟩
    obtain ⟨ht, hread⟩ := (hshape y.shape).mp (map_eq_ok.mpr ⟨y, hy, rfl⟩)
    exact ⟨⟨y.shape, ht⟩, (hfits ht).mp hread⟩
  · rintro ⟨⟨t, ht⟩, hreflections⟩
    obtain ⟨y, hy, -⟩ := map_eq_ok.mp ((hshape t).mpr ⟨ht, (hfits ht).mpr hreflections⟩)
    exact ⟨y, hy⟩
  · obtain ⟨hinfer, -⟩ := (hshape y.shape).mp (map_eq_ok.mpr ⟨y, hy, rfl⟩)
    exact Except.ok.inj (hinfer.symm.trans ht)

/-- A single sample has no mirror image, though its shape is inferred; three rows and columns have
one. -/
theorem forward_isOk_iff_samples : ∃ b,
    ofText "evenize(reflpad)-sconv(3,reflpad)+skip" [1, 1] = .ok b ∧
    (b.outputShape ⟨1, 1, 1, 1⟩).isOk = true ∧
    (¬ ∃ y, b.forward (.replicate ⟨1, 1, 1, 1⟩ Scalar.zero) = .ok y) ∧
    ∃ y, b.forward (.replicate ⟨1, 1, 3, 3⟩ Scalar.zero) = .ok y ∧ y.shape = ⟨1, 1, 2, 2⟩ := by
  obtain ⟨b, hbuild, hrun⟩ := exists_eq_ok_of_map (show
      (ofText "evenize(reflpad)-sconv(3,reflpad)+skip" [1, 1]).toOption.map
      (fun (b : Block) => (((b.outputShape ⟨1, 1, 1, 1⟩).isOk,
        decide (∀ s ∈ b.trail ⟨1, 1, 1, 1⟩, s.IsExact),
        decide (∀ p ∈ b.reached ⟨1, 1, 1, 1⟩, p.1.ReflectionFits b.spec.flags p.2)),
        (b.outputShape ⟨1, 1, 3, 3⟩).toOption,
        decide (∀ s ∈ b.trail ⟨1, 1, 3, 3⟩, s.IsExact),
        decide (∀ p ∈ b.reached ⟨1, 1, 3, 3⟩, p.1.ReflectionFits b.spec.flags p.2)))
      = some ((true, true, false), some ⟨1, 1, 2, 2⟩, true, true) by decide +kernel)
  simp only [Prod.mk.injEq, decide_eq_true_eq, decide_eq_false_iff_not] at hrun
  obtain ⟨⟨hok, hexact, hmisfit⟩, hshape, hexact', hfits⟩ := hrun
  obtain ⟨_, hinfer, rfl⟩ := exists_eq_ok_of_map ((Option.map_id_apply).trans hshape)
  have hone := forward_isOk_iff hbuild (x := .replicate ⟨1, 1, 1, 1⟩ Scalar.zero)
    ⟨Nat.one_pos, Nat.one_pos⟩ hexact
  have hthree := forward_isOk_iff hbuild (x := .replicate ⟨1, 1, 3, 3⟩ Scalar.zero)
    ⟨Nat.succ_pos 2, Nat.succ_pos 2⟩ hexact'
  obtain ⟨y, hy⟩ := hthree.1.mpr ⟨⟨_, hinfer⟩, hfits⟩
  exact ⟨b, hbuild, hok, fun hforward => hmisfit (hone.1.mp hforward).2, y, hy,
    hthree.2 y _ hy hinfer⟩

end Block

end Midframe
