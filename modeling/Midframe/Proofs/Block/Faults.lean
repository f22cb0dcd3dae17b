import Midframe.Proofs.Outcome
import Midframe.Pyramid.Flow

/-!
# Faults of blocks

Array operations, layers, shortcuts and blocks know nothing of levels. A fault that one of them
raises says that arrays do not fit together or are refused, and never what only a pass through a
pyramid can say: that a shape is not recorded, that a contribution drifted from the recorded one, or
that nothing was left where the kernels are taken from.
-/

namespace Midframe

/-- A fault of array operations. -/
def Fault.IsOfArrays : Fault → Prop
  | invalid .noCoarseLevel => False
  | shapeMismatch _ | invalid _ | shuffleChannels _ => True
  | _ => False

/-! ## Array operations -/

theorem Border.check_faults (border : Border) (p : Padding) (s : Shape) :
    FailsWith Fault.IsOfArrays (border.check p s) := by
  unfold check
  split
  · exact .ok ()
  · split
    · exact .error trivial
    · exact .ok ()
  · split
    · exact .error trivial
    · exact .ok ()

namespace Tensor

variable {α : Type} [Scalar α]

theorem add_faults (a b : Tensor α) : FailsWith Fault.IsOfArrays (a.add b) := by
  unfold add
  split
  · exact .ok _
  · exact .error trivial

theorem crop_faults (t : Tensor α) (height width : Nat) :
    FailsWith Fault.IsOfArrays (t.crop height width) := by
  unfold crop
  split
  · exact .error trivial
  · split
    · exact .ok _
    · exact .ok _

theorem pad_faults (t : Tensor α) (p : Padding) (border : Border) :
    FailsWith Fault.IsOfArrays (t.pad p border) := by
  unfold pad
  split
  · exact .ok _
  · have hcheck := border.check_faults p t.shape
    split
    · next e he => exact .error (hcheck e he)
    · exact .ok _

theorem convolve_faults (t weight : Tensor α) (bias : Option (Array α)) (w : Windows) :
    FailsWith Fault.IsOfArrays (t.convolve weight bias w) := by
  have hpad := t.pad_faults (Padding.uniform w.padding) w.border
  simp only [convolve]
  split
  · exact .error trivial
  · split
    · exact .error trivial
    · split
      · split
        · next e he => exact .error (hpad e he)
        · exact .ok _
      · exact .error trivial

theorem resize_faults (t : Tensor Float32) (scale : Float) (filter : Filter) :
    FailsWith Fault.IsOfArrays (t.resize scale filter) := by
  simp only [resize]
  split
  · exact .error trivial
  · split
    · exact .error trivial
    · exact .ok _

theorem expand_faults (t : Tensor α) : FailsWith Fault.IsOfArrays t.expand := by
  unfold expand
  split
  · exact .error trivial
  · exact .ok _

theorem shuffle_faults (t : Tensor α) {r : Nat} (h : r * r ≤ maxCount) :
    FailsWith Fault.IsOfArrays (t.shuffle r) := by
  rw [shuffle, checkedCount_of_le h]
  refine FailsWith.bind (.ok _) fun cell => ?_
  split
  · exact .error trivial
  · exact .ok _

end Tensor

/-! ## Layers and blocks -/

theorem Layer.forward_faults (layer : Layer) (x : Tensor Float32) :
    FailsWith Fault.IsOfArrays (layer.forward x) := by
  cases layer with
  | evenize border => exact x.pad_faults _ border
  | conv c => exact x.convolve_faults c.weight _ c.windows
  | up algorithm =>
    cases algorithm with
    | nearest => exact x.resize_faults 2 .nearest
    | bilinear => exact x.resize_faults 2 .bilinear
    | pyramid => exact x.expand_faults
    | shuffle => exact x.shuffle_faults (by decide)
  | prelu initial slope => exact .ok _
  | resample scale => exact x.resize_faults scale .bilinear

theorem Shortcut.forward_faults (sc : Shortcut) (x : Tensor Float32) :
    FailsWith Fault.IsOfArrays (sc.forward x) := by
  obtain ⟨policy, scale, projection⟩ := sc
  cases projection with
  | none =>
    cases scale with
    | none => exact .ok x
    | some scale => exact .bind ((Layer.resample scale).forward_faults x) .ok
  | some c =>
    have hproject (y : Tensor Float32) : FailsWith Fault.IsOfArrays (c.forward y) :=
      y.convolve_faults c.weight _ c.windows
    cases scale with
    | none => exact hproject x
    | some scale => exact .bind ((Layer.resample scale).forward_faults x) hproject

theorem Block.forward_faults (b : Block) (x : Tensor Float32) :
    FailsWith Fault.IsOfArrays (b.forward x) := by
  have hevenized : FailsWith Fault.IsOfArrays (b.evenized x) := by
    unfold evenized
    split
    · next border _ => exact x.pad_faults _ border
    · exact .ok x
  have hmain (y : Tensor Float32) :=
    FailsWith.foldlM (fun x layer => Layer.forward_faults layer x) b.main y
  unfold forward
  refine hevenized.bind fun y => (hmain y).bind fun out => ?_
  split
  · exact .ok out
  · next sc _ =>
    refine (sc.forward_faults y).bind fun skip => ?_
    exact .mapError (fun _ => trivial) _

/-! ## Shapes -/

theorem Layer.outputShape_faults (layer : Layer) (s : Shape) :
    FailsWith Fault.IsOfArrays (layer.outputShape s) := by
  cases layer with
  | conv c =>
    show FailsWith _ (c.outputShape s)
    unfold Convolution.outputShape
    split
    · exact .error trivial
    · split
      · exact .ok _
      · exact .error trivial
  | up algorithm =>
    cases algorithm with
    | shuffle =>
      simp only [outputShape]
      split
      · exact .error trivial
      · exact .ok _
    | _ => exact .ok _
  | _ => exact .ok _

theorem Shortcut.outputShape_faults (sc : Shortcut) (s : Shape) :
    FailsWith Fault.IsOfArrays (sc.outputShape s) := by
  unfold outputShape
  cases sc.scale with
  | none => cases sc.projection <;> exact .ok _
  | some scale => cases sc.projection <;> exact .ok _

theorem Block.outputShape_faults (b : Block) (s : Shape) :
    FailsWith Fault.IsOfArrays (b.outputShape s) := by
  have hmain (t : Shape) :=
    FailsWith.foldlM (fun t layer => Layer.outputShape_faults layer t) b.main t
  unfold outputShape
  refine (hmain _).bind fun out => ?_
  cases b.shortcut with
  | none => exact .ok out
  | some sc =>
    refine (sc.outputShape_faults _).bind fun skip => ?_
    split
    · exact .ok out
    · exact .error trivial

/-! ## Flows -/

/-- Values whose operations raise faults of arrays only. -/
class LevelFreeFlow (τ : Type) [Flow τ] : Prop where
  apply_faults : ∀ (b : Block) (v : τ), FailsWith Fault.IsOfArrays (Flow.apply b v)
  add_faults : ∀ a b : τ, FailsWith Fault.IsOfArrays (Flow.add a b)
  crop_faults : ∀ (a : τ) (height width : Nat),
    FailsWith Fault.IsOfArrays (Flow.crop a height width)

instance : LevelFreeFlow (Tensor Float32) where
  apply_faults := Block.forward_faults
  add_faults := Tensor.add_faults
  crop_faults := Tensor.crop_faults

instance : LevelFreeFlow Shape where
  apply_faults := Block.outputShape_faults
  add_faults s t := by
    show FailsWith _ (s.add t)
    unfold Shape.add
    split
    · exact .ok s
    · exact .error trivial
  crop_faults s height width := by
    show FailsWith _ (s.crop height width)
    unfold Shape.crop
    split
    · exact .error trivial
    · exact .ok _

end Midframe
