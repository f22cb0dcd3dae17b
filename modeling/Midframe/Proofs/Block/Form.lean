import Midframe.Proofs.Block.Inference

/-!
# The form of a block

What a block does to shapes does not depend on the values of its parameters. The form of a block is
the block with all of them forgotten; resetting the parameters keeps it.
-/

namespace Midframe

/-- The convolution with its parameters forgotten. -/
def Convolution.form (c : Convolution) : Convolution :=
  ⟨Tensor.replicate c.weight.shape 0, none, c.windows⟩

/-- The layer with its parameters forgotten. -/
def Layer.form : Layer → Layer
  | conv c => conv c.form
  | prelu initial _ => prelu initial initial
  | other => other

/-- The shortcut with its parameters forgotten. -/
def Shortcut.form (sc : Shortcut) : Shortcut :=
  { sc with projection := sc.projection.map Convolution.form }

/-- The block with its parameters forgotten. -/
def Block.form (b : Block) : Block :=
  { b with main := b.main.map Layer.form, shortcut := b.shortcut.map Shortcut.form }

/-! ## Resetting -/

theorem Layer.form_reset (scope : String) (layer : Layer) :
    (layer.reset scope).form = layer.form := by
  cases layer <;> rfl

theorem Shortcut.form_reset (scope : String) (sc : Shortcut) :
    (sc.reset scope).form = sc.form := by
  obtain ⟨policy, scale, projection⟩ := sc
  cases projection <;> rfl

namespace Block

theorem form_resetChain (scope : String) (index : Nat) (layers : List Layer) :
    (resetChain scope index layers).map Layer.form = layers.map Layer.form := by
  induction layers generalizing index with
  | nil => rfl
  | cons layer layers ih => exact congrArg₂ List.cons (layer.form_reset _) (ih (index + 1))

theorem form_reset (scope : String) (b : Block) : (b.reset scope).form = b.form := by
  obtain ⟨source, spec, inputs, outputs, stride, evenize, main, shortcut⟩ := b
  have hmain := form_resetChain scope 0 main
  cases shortcut with
  | none => exact congrArg (mk source spec inputs outputs stride evenize · none) hmain
  | some sc =>
    exact congrArg₂ (mk source spec inputs outputs stride evenize · <| some ·) hmain
      (sc.form_reset (inScope scope "shortcut"))

end Block

/-! ## Shapes -/

theorem Convolution.isPointwise_form (c : Convolution) : c.form.IsPointwise ↔ c.IsPointwise :=
  ⟨fun h => ⟨h.height, h.width, h.windows⟩, fun h => ⟨h.height, h.width, h.windows⟩⟩

namespace Layer

@[simp] theorem outputShape_form (layer : Layer) (s : Shape) :
    layer.form.outputShape s = layer.outputShape s := by
  cases layer with
  | up algorithm => cases algorithm <;> rfl
  | _ => rfl

@[simp] theorem readable_form (layer : Layer) (s : Shape) :
    layer.form.Readable s ↔ layer.Readable s := by
  cases layer with
  | up algorithm => cases algorithm <;> rfl
  | _ => rfl

theorem chain_outputShape_form (layers : List Layer) (s : Shape) :
    (layers.map form).foldlM (fun s (layer : Layer) => layer.outputShape s) s
      = layers.foldlM (fun s (layer : Layer) => layer.outputShape s) s := by
  simp [List.foldlM_map]

theorem trail_form (layers : List Layer) (s : Shape) :
    trail (layers.map form) s = trail layers s := by
  induction layers generalizing s with
  | nil => rfl
  | cons layer layers ih =>
    simp only [List.map_cons, trail, outputShape_form]
    cases layer.outputShape s with
    | error e => rfl
    | ok t => exact congrArg (s :: ·) (ih t)

theorem chainReadable_form (layers : List Layer) (s : Shape) :
    ChainReadable (layers.map form) s ↔ ChainReadable layers s := by
  induction layers generalizing s with
  | nil => rfl
  | cons layer layers ih => simp only [List.map_cons, ChainReadable, outputShape_form,
      readable_form, ih]

end Layer

namespace Shortcut

theorem resampled_form (sc : Shortcut) (s : Shape) : sc.form.resampled s = sc.resampled s := rfl

theorem projected_form (sc : Shortcut) (s : Shape) : sc.form.projected s = sc.projected s := by
  obtain ⟨policy, scale, projection⟩ := sc
  cases projection <;> rfl

theorem readable_form (sc : Shortcut) (s : Shape) : sc.form.Readable s ↔ sc.Readable s := by
  obtain ⟨policy, scale, projection⟩ := sc
  cases projection with
  | none =>
    constructor
    · intro h
      refine ⟨h.scale, fun c hc => ?_⟩
      cases hc
    · intro h
      refine ⟨h.scale, fun c hc => ?_⟩
      cases hc
  | some c =>
    refine ⟨fun h => ⟨h.scale, fun c' hc => ?_⟩, fun h => ⟨h.scale, fun c' hc => ?_⟩⟩
    · cases hc
      exact h.projection c.form rfl
    · cases hc
      exact h.projection c rfl

end Shortcut

namespace Block

theorem trail_form (b : Block) (s : Shape) : b.form.trail s = b.trail s :=
  Layer.trail_form b.main (b.evenShape s)

/-- The inference through a block depends on its form only. -/
theorem outputShape_form (b : Block) (s : Shape) : b.form.outputShape s = b.outputShape s := by
  unfold outputShape
  have hchain := Layer.chain_outputShape_form b.main
  show Bind.bind ((b.main.map Layer.form).foldlM (fun s (layer : Layer) => layer.outputShape s) _) _
    = _
  rw [hchain]
  show _ = Bind.bind _ _
  congr 1
  funext out
  obtain ⟨source, spec, inputs, outputs, stride, evenize, main, shortcut⟩ := b
  cases shortcut with
  | none => rfl
  | some sc =>
    show Bind.bind (sc.form.outputShape _) _ = Bind.bind (sc.outputShape _) _
    rw [Shortcut.outputShape_eq, Shortcut.outputShape_eq, sc.projected_form, sc.resampled_form]
    rfl

theorem readable_form (b : Block) (s : Shape) : b.form.Readable s ↔ b.Readable s := by
  have hmain := Layer.chainReadable_form b.main (b.evenShape s)
  constructor
  · intro h
    refine ⟨h.evenize, hmain.mp h.main, fun sc hsc => ?_⟩
    exact (sc.readable_form _).mp (h.shortcut sc.form (congrArg (Option.map Shortcut.form) hsc))
  · intro h
    refine ⟨h.evenize, hmain.mpr h.main, fun sc hsc => ?_⟩
    obtain ⟨sc', hsc', rfl⟩ := Option.map_eq_some_iff.mp hsc
    exact (sc'.readable_form _).mpr (h.shortcut sc' hsc')

end Block

end Midframe
