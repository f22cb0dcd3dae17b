import Midframe.Proofs.Block.Channels

/-!
# Compiled blocks

What holds of every block that a specification is compiled to: its kernels are square, no layer of
its main chain scales by anything but two, its shortcut projects single samples, and channel counts
are carried through as the channel plan says. All of this survives a reset of the parameters.
-/

namespace Midframe

namespace Layer

/-- A layer that an operation is compiled to: kernels are square, and nothing is scaled freely. -/
def IsRegular : Layer → Prop
  | conv c => c.IsSquare
  | resample _ => False
  | _ => True

theorem IsRegular.isSquare {layer : Layer} (h : layer.IsRegular) : layer.IsSquare := by
  cases layer with
  | conv c => exact h
  | _ => trivial

@[simp] theorem isRegular_form (layer : Layer) : layer.form.IsRegular ↔ layer.IsRegular := by
  cases layer <;> rfl

theorem ofOp_isRegular {op : Op} {flags : Flags} {inputs outputs : Nat} {layer : Layer}
    (h : ofOp op flags inputs outputs = .ok layer) : layer.IsRegular := by
  cases op with
  | up algorithm =>
    cases algorithm with
    | shuffle =>
      simp only [ofOp] at h
      split at h
      · cases h
      · cases h
        trivial
    | _ => cases h; trivial
  | conv kernel border => cases h; rfl
  | sconv kernel border => cases h; rfl
  | _ => cases h; trivial

end Layer

namespace Block

/-! ## Chains -/

theorem compileChain_isRegular {source : String} {flags : Flags} {plan : List Nat}
    {index inputs : Nat} {rest : List Nat} {ops : List Op} {layers : List Layer} {last : Nat}
    {left : List Nat}
    (h : compileChain source flags plan index inputs rest ops = .ok (layers, last, left)) :
    ∀ layer ∈ layers, layer.IsRegular := by
  induction ops generalizing index inputs rest layers with
  | nil =>
    cases h
    simp
  | cons op ops ih =>
    obtain ⟨outputs, mid, layer, tail, -, hlayer, htail, rfl⟩ := compileChain_cons h
    intro l hl
    rcases List.mem_cons.mp hl with rfl | hl
    · exact Layer.ofOp_isRegular hlayer
    · exact ih htail l hl

/-- A chain carries the channels in front of it to those behind it, and no others to those. -/
theorem compileChain_carries {source : String} {flags : Flags} {plan : List Nat}
    {index inputs : Nat} {rest : List Nat} {ops : List Op} {layers : List Layer} {last : Nat}
    {left : List Nat}
    (h : compileChain source flags plan index inputs rest ops = .ok (layers, last, left))
    {s t : Shape}
    (hst : layers.foldlM (fun s (layer : Layer) => layer.outputShape s) s = .ok t) :
    s.channels = inputs ↔ t.channels = last := by
  obtain ⟨hfollows, -⟩ := compileChain_channels h
  have hchannels := Layer.chain_outputShape_channels hst
  constructor
  · rintro rfl
    exact Option.some.inj (hchannels.symm.trans hfollows)
  · rintro rfl
    exact Layer.chainChannels?_injective hchannels hfollows

/-! ## Blocks -/

/-- What holds of every compiled block. -/
structure IsRegular (b : Block) : Prop where
  /-- The layers of the main chain are those of operations. -/
  main : ∀ layer ∈ b.main, layer.IsRegular
  /-- The projection of the shortcut works on single samples. -/
  pointwise : ∀ sc, b.shortcut = some sc → sc.IsPointwise
  /-- The main chain carries the channels of the block. -/
  carries : ∀ s t, b.main.foldlM (fun s (layer : Layer) => layer.outputShape s) s = .ok t →
    (s.channels = b.inputs ↔ t.channels = b.outputs)
  /-- So does the projection. -/
  projection : ∀ sc c, b.shortcut = some sc → sc.projection = some c →
    c.inputs = b.inputs ∧ c.outputs = b.outputs

theorem IsRegular.isSound {b : Block} (h : b.IsRegular) : b.IsSound :=
  ⟨fun layer hl => (h.main layer hl).isSquare, h.pointwise⟩

/-- Blocks of one form have projections of one form. -/
theorem exists_projection_of_form_eq {a b : Block} (heq : b.form = a.form) {sc : Shortcut}
    {c : Convolution} (hsc : b.shortcut = some sc) (hc : sc.projection = some c) :
    ∃ sc' c', a.shortcut = some sc' ∧ sc'.projection = some c' ∧ c'.form = c.form := by
  have hshortcut : b.shortcut.map Shortcut.form = a.shortcut.map Shortcut.form :=
    congrArg Block.shortcut heq
  rw [hsc] at hshortcut
  obtain ⟨sc', hsc', hform⟩ := Option.map_eq_some_iff.mp hshortcut.symm
  have hprojection : sc'.projection.map Convolution.form = sc.projection.map Convolution.form :=
    congrArg Shortcut.projection hform
  rw [hc] at hprojection
  obtain ⟨c', hc', hform⟩ := Option.map_eq_some_iff.mp hprojection
  exact ⟨sc', c', hsc', hc', hform⟩

/-- Regularity depends on the form only. -/
theorem IsRegular.of_form_eq {a b : Block} (h : a.IsRegular) (heq : b.form = a.form) :
    b.IsRegular := by
  have hmain : b.main.map Layer.form = a.main.map Layer.form := congrArg Block.main heq
  have hinputs : b.form.inputs = a.form.inputs := congrArg Block.inputs heq
  have houtputs : b.form.outputs = a.form.outputs := congrArg Block.outputs heq
  refine ⟨fun layer hl => ?_, fun sc hsc c hc => ?_, fun s t hst => ?_, fun sc c hsc hc => ?_⟩
  · obtain ⟨layer', hl', hform⟩ := List.mem_map.mp (hmain ▸ List.mem_map_of_mem hl)
    rw [← layer.isRegular_form, ← hform, layer'.isRegular_form]
    exact h.main layer' hl'
  · obtain ⟨sc', c', hsc', hc', hform⟩ := exists_projection_of_form_eq heq hsc hc
    rw [← c.isPointwise_form, ← hform, c'.isPointwise_form]
    exact h.pointwise sc' hsc' c' hc'
  · show s.channels = b.form.inputs ↔ t.channels = b.form.outputs
    rw [hinputs, houtputs]
    rw [← Layer.chain_outputShape_form, hmain, Layer.chain_outputShape_form] at hst
    exact h.carries s t hst
  · obtain ⟨sc', c', hsc', hc', hform⟩ := exists_projection_of_form_eq heq hsc hc
    have hc'' := h.projection sc' c' hsc' hc'
    have hin : c'.form.inputs = c.form.inputs := congrArg Convolution.inputs hform
    have hout : c'.form.outputs = c.form.outputs := congrArg Convolution.outputs hform
    show c.form.inputs = b.form.inputs ∧ c.form.outputs = b.form.outputs
    rw [hinputs, houtputs, ← hin, ← hout]
    exact hc''

/-- What a successful compilation has done. -/
theorem compile_eq_ok {source : String} {spec : BlockSpec} {plan : List Nat} {b : Block}
    (h : compile source spec plan = .ok b) :
    ∃ inputs rest main outputs shortcut, plan = inputs :: rest ∧
      compileChain source spec.flags plan (splitEvenize spec.ops).2.1 inputs rest
        (splitEvenize spec.ops).2.2 = .ok (main, outputs, []) ∧
      compileShortcut spec inputs outputs = .ok shortcut ∧
      b = ⟨source, spec, inputs, outputs, spec.stride, (splitEvenize spec.ops).1, main,
        shortcut⟩ := by
  cases plan with
  | nil => cases h
  | cons inputs rest =>
    simp only [compile, bind_eq_ok, Prod.exists] at h
    obtain ⟨main, outputs, left, hchain, h⟩ := h
    cases left with
    | nil =>
      simp only [List.isEmpty_nil, Bool.not_true, Bool.false_eq_true, ↓reduceIte, bind_eq_ok,
        mapError_eq_ok, pure_eq_ok] at h
      obtain ⟨shortcut, hshortcut, rfl⟩ := h
      exact ⟨inputs, rest, main, outputs, shortcut, rfl, hchain, hshortcut, rfl⟩
    | cons n left => cases h

theorem compileShortcut_eq_ok {spec : BlockSpec} {inputs outputs : Nat} {sc : Shortcut}
    (h : compileShortcut spec inputs outputs = .ok (some sc)) :
    sc = .ofPolicy (.select (inputs == outputs) (spec.stride == 1)) inputs outputs spec.stride
      (!spec.flags.noBias) := by
  simp only [compileShortcut] at h
  split at h
  · cases h
  · split at h
    · cases h
    · cases h
      rfl

/-- The projection of a shortcut, if it has one. -/
theorem projection_of_compileShortcut {spec : BlockSpec} {inputs outputs : Nat} {sc : Shortcut}
    {c : Convolution} (h : compileShortcut spec inputs outputs = .ok (some sc))
    (hc : sc.projection = some c) :
    c.IsPointwise ∧ c.inputs = inputs ∧ c.outputs = outputs := by
  rw [compileShortcut_eq_ok h] at hc
  simp only [Shortcut.ofPolicy] at hc
  split at hc
  · cases hc
    exact ⟨⟨rfl, rfl, rfl⟩, rfl, rfl⟩
  · cases hc

theorem compile_isRegular {source : String} {spec : BlockSpec} {plan : List Nat} {b : Block}
    (h : compile source spec plan = .ok b) : b.IsRegular := by
  obtain ⟨inputs, rest, main, outputs, shortcut, rfl, hchain, hshortcut, rfl⟩ := compile_eq_ok h
  refine ⟨compileChain_isRegular hchain, fun sc hsc c hc => ?_, fun s t hst => ?_,
    fun sc c hsc hc => ?_⟩
  · cases hsc
    exact (projection_of_compileShortcut hshortcut hc).1
  · exact compileChain_carries hchain hst
  · cases hsc
    exact (projection_of_compileShortcut hshortcut hc).2

/-- A block that is built is a compiled one, up to its parameters. -/
theorem build_eq_ok {scope source : String} {spec : BlockSpec} {plan : List Nat} {b : Block}
    (h : build scope source spec plan = .ok b) :
    ∃ compiled, compile source spec plan = .ok compiled ∧ b.form = compiled.form := by
  obtain ⟨compiled, hcompiled, rfl⟩ := map_eq_ok.mp h
  exact ⟨compiled, hcompiled, form_reset scope compiled⟩

theorem build_isRegular {scope source : String} {spec : BlockSpec} {plan : List Nat} {b : Block}
    (h : build scope source spec plan = .ok b) : b.IsRegular := by
  obtain ⟨compiled, hcompiled, hform⟩ := build_eq_ok h
  exact (compile_isRegular hcompiled).of_form_eq hform

/-! ## Channels of blocks -/

/-- A block takes one channel count and gives another one, by its own account and in every pass. -/
structure Maps (b : Block) (inputs outputs : Nat) : Prop where
  /-- The count it says it takes. -/
  inputs_eq : b.inputs = inputs
  /-- The count it says it gives. -/
  outputs_eq : b.outputs = outputs
  /-- The counts of batches. -/
  forward : ∀ x y, b.forward x = .ok y → x.shape.channels = inputs ∧ y.shape.channels = outputs
  /-- The counts of shapes. -/
  infer : ∀ s t, b.outputShape s = .ok t → s.channels = inputs ∧ t.channels = outputs

@[simp] theorem evenShape_channels (b : Block) (s : Shape) :
    (b.evenShape s).channels = s.channels := by
  unfold evenShape
  split <;> rfl

/-- A block passes its batch through the main chain; the border it may add in front and the shortcut
it may add behind keep the channels. -/
theorem forward_channels {b : Block} {x y : Tensor Float32} (h : b.forward x = .ok y) :
    Layer.chainChannels? b.main x.shape.channels = some y.shape.channels := by
  unfold forward at h
  simp only [bind_eq_ok] at h
  obtain ⟨u, hu, out, hout, h⟩ := h
  have heven : u.shape.channels = x.shape.channels := by
    obtain ⟨hshape, -⟩ := (b.evenized_shape x u.shape).mp (map_eq_ok.mpr ⟨u, hu, rfl⟩)
    rw [← hshape, evenShape_channels]
  have hresult : y.shape = out.shape := by
    cases hsc : b.shortcut with
    | none =>
      rw [hsc] at h
      cases h
      rfl
    | some sc =>
      rw [hsc] at h
      simp only [bind_eq_ok, mapError_eq_ok] at h
      obtain ⟨skip, -, hsum⟩ := h
      have hshapes : out.shape.add skip.shape = .ok y.shape := by
        rw [← out.add_shape skip, hsum]
        rfl
      exact (Shape.add_eq_ok.mp hshapes).1.symm
  have hmain := Layer.chain_forward_channels hout
  rw [heven] at hmain
  rw [hmain, hresult]

theorem outputShape_channels {b : Block} {s t : Shape} (h : b.outputShape s = .ok t) :
    Layer.chainChannels? b.main s.channels = some t.channels := by
  obtain ⟨hmain, -⟩ := (b.outputShape_eq_ok s t).mp h
  rw [← b.evenShape_channels s]
  exact Layer.chain_outputShape_channels hmain

/-- The shuffles behind the last convolution are those of the operations that are compiled. -/
theorem foldl_splitEvenize (ops : List Op) :
    (splitEvenize ops).2.2.foldl Op.shufflesBehind 0 = ops.foldl Op.shufflesBehind 0 := by
  unfold splitEvenize
  split <;> rfl

/-- A block for three entries of a plan takes the first one, and gives the last one divided by four
for every shuffle behind its last convolution, whatever its parameters become. -/
theorem compile_maps {source : String} {spec : BlockSpec} {inputs mid outputs : Nat} {b : Block}
    (h : compile source spec [inputs, mid, outputs] = .ok b) :
    ∃ n, n * 4 ^ spec.trailingShuffles = outputs ∧
      ∀ a : Block, a.form = b.form → a.Maps inputs n := by
  obtain ⟨inputs', rest, main, n, shortcut, hplan, hchain, -, rfl⟩ := compile_eq_ok h
  cases hplan
  obtain ⟨hfollows, used, hused, hlast, hmeets⟩ := compileChain_channels hchain
  rw [List.append_nil] at hused
  subst hused
  have hlast := hlast 0
  rw [foldl_splitEvenize] at hlast
  refine ⟨n, hlast, fun a hform => ?_⟩
  have hmain : a.main.map Layer.form = main.map Layer.form := congrArg Block.main hform
  have hcounts {i o : Nat} (ho : Layer.chainChannels? a.main i = some o) :
      i = inputs ∧ o = n := by
    rw [← Layer.chainChannels?_form, hmain, Layer.chainChannels?_form] at ho
    have hi := hmeets (by simp) i o ho
    rw [hi, hfollows] at ho
    exact ⟨hi, (Option.some.inj ho).symm⟩
  exact ⟨congrArg Block.inputs hform, congrArg Block.outputs hform,
    fun x y hxy => hcounts (forward_channels hxy),
    fun s t hst => hcounts (outputShape_channels hst)⟩

end Block

end Midframe
