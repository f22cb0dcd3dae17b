import Midframe.Proofs.Block.Regular

/-!
# The layers of a compiled block

A block that is compiled has one layer for every operation of its specification, in the same order,
except for an `evenize` at the head, which it holds apart from the others. So what a layer reads and
what it leaves can be told from its operation, and the shapes along the main chain are shapes that
operations are reached with. Resetting the parameters changes none of this.
-/

namespace Midframe

/-- The layer is one that the operation is compiled to, whatever has become of its parameters. -/
structure Layer.IsOf (flags : Flags) (op : Op) (layer : Layer) : Prop where
  /-- Extents are not made even inside of a chain. -/
  isEvenize : op.isEvenize = false
  /-- For some channel counts the operation is compiled to the form of the layer. -/
  compiled : ∃ inputs outputs blank, ofOp op flags inputs outputs = .ok blank ∧
    layer.form = blank.form

theorem Layer.isOf_form (flags : Flags) (op : Op) (layer : Layer) :
    layer.form.IsOf flags op ↔ layer.IsOf flags op := by
  have hform : layer.form.form = layer.form := by cases layer <;> rfl
  constructor
  · rintro ⟨heven, inputs, outputs, blank, hblank, h⟩
    exact ⟨heven, inputs, outputs, blank, hblank, hform.symm.trans h⟩
  · rintro ⟨heven, inputs, outputs, blank, hblank, h⟩
    exact ⟨heven, inputs, outputs, blank, hblank, hform.trans h⟩

namespace Block

theorem splitEvenize_cases (ops : List Op) :
    (∃ border rest, ops = .evenize border :: rest ∧
      splitEvenize ops = (some border, 1, rest)) ∨ splitEvenize ops = (none, 0, ops) := by
  unfold splitEvenize
  split
  · next border rest => exact .inl ⟨border, rest, rfl, rfl⟩
  · exact .inr rfl

/-- An `evenize` in front does not change what is counted behind it. -/
theorem countP_splitEvenize {p : Op → Bool} (h : ∀ border, p (.evenize border) = false)
    (ops : List Op) : (splitEvenize ops).2.2.countP p = ops.countP p := by
  rcases splitEvenize_cases ops with ⟨border, rest, rfl, hsplit⟩ | hsplit
  · rw [hsplit, List.countP_cons_of_neg (by simp [h border])]
  · rw [hsplit]

theorem isEvenize_of_takeOutputs {plan : List Nat} {index inputs : Nat} {rest : List Nat} {op : Op}
    {result : Nat × List Nat} (h : takeOutputs plan index inputs rest op = .ok result) :
    op.isEvenize = false := by
  cases heven : op.isEvenize with
  | false => rfl
  | true =>
    simp only [takeOutputs, heven, ↓reduceIte] at h
    cases h

theorem compileChain_isOf {source : String} {flags : Flags} {plan : List Nat}
    {index inputs : Nat} {rest : List Nat} {ops : List Op} {layers : List Layer} {last : Nat}
    {left : List Nat}
    (h : compileChain source flags plan index inputs rest ops = .ok (layers, last, left)) :
    List.Forall₂ (Layer.IsOf flags) ops layers := by
  induction ops generalizing index inputs rest layers with
  | nil =>
    cases h
    exact .nil
  | cons op ops ih =>
    obtain ⟨outputs, mid, layer, tail, htake, hlayer, htail, rfl⟩ := compileChain_cons h
    exact .cons ⟨isEvenize_of_takeOutputs htake, inputs, outputs, layer, hlayer, rfl⟩ (ih htail)

/-- A block that the specification is compiled to for a plan, whatever has become of its
parameters. -/
def IsCompiled (b : Block) (spec : BlockSpec) (plan : List Nat) : Prop :=
  ∃ source compiled, compile source spec plan = .ok compiled ∧ b.form = compiled.form

theorem isCompiled_of_build {scope source : String} {spec : BlockSpec} {plan : List Nat} {b : Block}
    (h : build scope source spec plan = .ok b) : b.IsCompiled spec plan := by
  obtain ⟨compiled, hcompiled, hform⟩ := build_eq_ok h
  exact ⟨source, compiled, hcompiled, hform⟩

namespace IsCompiled

variable {b : Block} {spec : BlockSpec} {plan : List Nat}

theorem isRegular (h : b.IsCompiled spec plan) : b.IsRegular := by
  obtain ⟨source, compiled, hcompiled, hform⟩ := h
  exact (compile_isRegular hcompiled).of_form_eq hform

/-- What a successful compilation has done. -/
theorem exists_chain (h : b.IsCompiled spec plan) :
    ∃ source inputs rest main outputs shortcut,
      compileChain source spec.flags plan (splitEvenize spec.ops).2.1 inputs rest
        (splitEvenize spec.ops).2.2 = .ok (main, outputs, []) ∧
      compileShortcut spec inputs outputs = .ok shortcut ∧
      b.form = form ⟨source, spec, inputs, outputs, spec.stride, (splitEvenize spec.ops).1, main,
        shortcut⟩ := by
  obtain ⟨source, compiled, hcompiled, hform⟩ := h
  obtain ⟨inputs, rest, main, outputs, shortcut, -, hchain, hshortcut, rfl⟩ :=
    compile_eq_ok hcompiled
  exact ⟨source, inputs, rest, main, outputs, shortcut, hchain, hshortcut, hform⟩

theorem spec_eq (h : b.IsCompiled spec plan) : b.spec = spec := by
  obtain ⟨_, _, _, _, _, _, -, -, hform⟩ := h.exists_chain
  exact congrArg Block.spec hform

theorem evenize_eq (h : b.IsCompiled spec plan) : b.evenize = (splitEvenize spec.ops).1 := by
  obtain ⟨_, _, _, _, _, _, -, -, hform⟩ := h.exists_chain
  exact congrArg Block.evenize hform

theorem stride_eq (h : b.IsCompiled spec plan) : b.stride = spec.stride := by
  obtain ⟨_, _, _, _, _, _, -, -, hform⟩ := h.exists_chain
  exact congrArg Block.stride hform

theorem main_isOf (h : b.IsCompiled spec plan) :
    List.Forall₂ (Layer.IsOf spec.flags) (splitEvenize spec.ops).2.2 b.main := by
  obtain ⟨_, _, _, main, _, _, hchain, -, hform⟩ := h.exists_chain
  have hmain : b.main.map Layer.form = main.map Layer.form := congrArg Block.main hform
  have hforms (layers : List Layer) :
      List.Forall₂ (Layer.IsOf spec.flags) (splitEvenize spec.ops).2.2 (layers.map Layer.form) ↔
        List.Forall₂ (Layer.IsOf spec.flags) (splitEvenize spec.ops).2.2 layers := by
    simp only [List.forall₂_map_right_iff, Layer.isOf_form]
  rw [← hforms, hmain, hforms]
  exact compileChain_isOf hchain

/-- The main chain takes the channels of the block to those that the block gives. -/
theorem main_channels (h : b.IsCompiled spec plan) :
    Layer.chainChannels? b.main b.inputs = some b.outputs := by
  obtain ⟨_, inputs, _, main, outputs, _, hchain, -, hform⟩ := h.exists_chain
  have hmain : b.main.map Layer.form = main.map Layer.form := congrArg Block.main hform
  have hinputs : b.inputs = inputs := congrArg Block.inputs hform
  have houtputs : b.outputs = outputs := congrArg Block.outputs hform
  rw [hinputs, houtputs, ← Layer.chainChannels?_form, hmain, Layer.chainChannels?_form]
  exact (compileChain_channels hchain).1

/-- A block has a shortcut exactly if its flags ask for one, and then it is the one of its channels
and its stride. -/
theorem shortcut_eq (h : b.IsCompiled spec plan) : b.shortcut.map Shortcut.form =
    if spec.flags.skip = true then some (Shortcut.form (.ofPolicy
      (.select (b.inputs == b.outputs) (spec.stride == 1)) b.inputs b.outputs spec.stride
      (!spec.flags.noBias))) else none := by
  obtain ⟨_, inputs, _, _, outputs, shortcut, -, hshortcut, hform⟩ := h.exists_chain
  have hinputs : b.inputs = inputs := congrArg Block.inputs hform
  have houtputs : b.outputs = outputs := congrArg Block.outputs hform
  have hforms : b.shortcut.map Shortcut.form = shortcut.map Shortcut.form :=
    congrArg Block.shortcut hform
  rw [hforms, hinputs, houtputs]
  cases hskip : spec.flags.skip with
  | false =>
    simp only [compileShortcut, hskip, Bool.not_false, ↓reduceIte, Except.ok.injEq] at hshortcut
    rw [← hshortcut]
    rfl
  | true =>
    cases shortcut with
    | none =>
      simp only [compileShortcut, hskip, Bool.not_true, Bool.false_eq_true, ↓reduceIte] at hshortcut
      split at hshortcut <;> cases hshortcut
    | some sc =>
      rw [compileShortcut_eq_ok hshortcut]
      rfl

end IsCompiled

theorem isCompiled_of_ofText {source : String} {plan : List Nat} {b : Block}
    (h : ofText source plan = .ok b) : b.IsCompiled b.spec plan := by
  simp only [ofText, bind_eq_ok] at h
  obtain ⟨spec, -, h⟩ := h
  have hcompiled := isCompiled_of_build h
  rw [hcompiled.spec_eq]
  exact hcompiled

end Block

/-! ## Shortcuts -/

namespace Shortcut

variable {inputs outputs : Nat} {unit bias : Bool} {stride : Float}

/-- A shortcut scales exactly if the stride is not one. -/
theorem resampled_ofPolicy (keeps : Bool) (s : Shape) :
    (ofPolicy (.select keeps unit) inputs outputs stride bias).resampled s
      = if unit then s else s.scaled (1 / stride) := by
  cases unit <;> cases keeps <;> rfl

/-- A shortcut gives the channels of its block, projecting if these are not what it takes. -/
theorem projected_ofPolicy {s : Shape} (channels : s.channels = inputs) :
    (ofPolicy (.select (inputs == outputs) unit) inputs outputs stride bias).projected s
      = { s with channels := outputs } := by
  by_cases heq : inputs = outputs
  · have hkeeps : (inputs == outputs) = true := by simpa using heq
    rw [hkeeps, ← heq, ← channels]
    cases unit <;> rfl
  · have hchanges : (inputs == outputs) = false := by simpa using heq
    rw [hchanges]
    cases unit <;> rfl

end Shortcut

/-! ## Faults of inference -/

namespace Layer

/-- Where the channels of a shape are taken, its extents can only be too small for a kernel. -/
theorem outputShape_eq_error {layer : Layer} {s : Shape} {m : Nat} {fault : Fault}
    (hm : layer.channels? s.channels = some m) (h : layer.outputShape s = .error fault) :
    ∃ kernel u, fault = .shapeMismatch (.kernelTooLarge kernel kernel u none) := by
  cases layer with
  | conv c =>
    obtain ⟨hinputs, -⟩ := Option.ite_some_none_eq_some.mp hm
    simp only [outputShape, Convolution.outputShape, hinputs, bne_self_eq_false, Bool.false_eq_true,
      ↓reduceIte] at h
    split at h
    · cases h
    · cases h
      exact ⟨_, _, rfl⟩
  | up algorithm =>
    cases algorithm with
    | shuffle =>
      obtain ⟨hfour, -⟩ := Option.ite_some_none_eq_some.mp hm
      simp [outputShape, hfour] at h
    | _ => cases h
  | _ => cases h

theorem chain_outputShape_eq_error {layers : List Layer} {s : Shape} {m : Nat} {fault : Fault}
    (hm : chainChannels? layers s.channels = some m)
    (h : layers.foldlM (fun s (layer : Layer) => layer.outputShape s) s = .error fault) :
    ∃ kernel u, fault = .shapeMismatch (.kernelTooLarge kernel kernel u none) := by
  induction layers generalizing s with
  | nil => cases h
  | cons layer layers ih =>
    rw [chainChannels?_cons, Option.bind_eq_some_iff] at hm
    obtain ⟨n, hn, hm⟩ := hm
    rw [List.foldlM_cons] at h
    cases hlayer : layer.outputShape s with
    | error e =>
      rw [hlayer] at h
      cases h
      exact outputShape_eq_error hn hlayer
    | ok t =>
      rw [hlayer] at h
      have ht := outputShape_channels hlayer
      rw [hn, Option.some.injEq] at ht
      exact ih (by rwa [← ht]) h

end Layer

namespace Block

variable {b : Block} {spec : BlockSpec} {plan : List Nat} {s : Shape}

/-- Shapes of the channels that a compiled block takes lead to the channels that it gives. -/
theorem IsCompiled.outputShape_channels (h : b.IsCompiled spec plan)
    (channels : s.channels = b.inputs) {t : Shape} (ht : b.outputShape s = .ok t) :
    t.channels = b.outputs := by
  have hchannels := Block.outputShape_channels ht
  rw [channels, h.main_channels, Option.some.injEq] at hchannels
  exact hchannels.symm

end Block

/-! ## Shapes along the main chain -/

namespace Block

/-- The operations of a block with the shapes that they are reached with, as far as shapes are
inferred. -/
def reached (b : Block) (s : Shape) : List (Op × Shape) :=
  b.spec.ops.zip (if b.evenize.isSome then s :: b.trail s else b.trail s)

/-- What holds of all operations that are reached holds of the `evenize` at the head, if there is
one, and of those of the main chain. -/
theorem IsCompiled.forall_reached {b : Block} {spec : BlockSpec} {plan : List Nat}
    (h : b.IsCompiled spec plan) (s : Shape) (P : Op → Shape → Prop) :
    (∀ p ∈ b.reached s, P p.1 p.2) ↔
      (∀ border, b.evenize = some border → P (.evenize border) s) ∧
        ∀ p ∈ (splitEvenize spec.ops).2.2.zip (b.trail s), P p.1 p.2 := by
  rw [reached, h.spec_eq, h.evenize_eq]
  rcases splitEvenize_cases spec.ops with ⟨border, rest, hops, hsplit⟩ | hsplit
  · rw [hsplit, hops]
    simp
  · rw [hsplit]
    simp

/-- Where the main chain leads to a shape, the block gives it if the shortcut leads there too. -/
theorem outputShape_of_chain {b : Block} {s out : Shape} {sc : Shortcut}
    (hchain : b.main.foldlM (fun s (layer : Layer) => layer.outputShape s) (b.evenShape s)
      = .ok out)
    (hsc : b.shortcut = some sc) : b.outputShape s =
      if sc.projected (sc.resampled (b.evenShape s)) = out then .ok out
      else .error (.shapeMismatch (.shortcutShape b.source out
        (sc.projected (sc.resampled (b.evenShape s))))) := by
  have heven : (if b.evenize.isSome then s.evenized else s) = b.evenShape s := rfl
  unfold outputShape
  simp only [heven, hchain, hsc, Shortcut.outputShape_eq]
  by_cases h : sc.projected (sc.resampled (b.evenShape s)) = out
  · rw [if_pos h]
    exact if_pos (beq_iff_eq.mpr h)
  · rw [if_neg h]
    exact if_neg fun heq => h (beq_iff_eq.mp heq)

/-- Where shapes of the channels that a compiled block takes lead to no shape, a kernel is too large
or the shortcut has other extents. -/
theorem IsCompiled.outputShape_eq_error {b : Block} {spec : BlockSpec} {plan : List Nat}
    {s : Shape} {fault : Fault} (h : b.IsCompiled spec plan) (channels : s.channels = b.inputs)
    (hfault : b.outputShape s = .error fault) :
    (∃ kernel u, fault = .shapeMismatch (.kernelTooLarge kernel kernel u none)) ∨
      ∃ out skip, fault = .shapeMismatch (.shortcutShape b.source out skip) ∧
        out.channels = skip.channels := by
  have heven : (b.evenShape s).channels = b.inputs := (b.evenShape_channels s).trans channels
  have hmain : Layer.chainChannels? b.main (b.evenShape s).channels = some b.outputs :=
    heven ▸ h.main_channels
  cases hchain : b.main.foldlM (fun s (layer : Layer) => layer.outputShape s) (b.evenShape s) with
  | error e =>
    have heq : b.outputShape s = .error e := by
      have hshape : (if b.evenize.isSome then s.evenized else s) = b.evenShape s := rfl
      unfold outputShape
      simp only [hshape, hchain]
      rfl
    cases heq.symm.trans hfault
    exact .inl (Layer.chain_outputShape_eq_error hmain hchain)
  | ok out =>
    have hout := Layer.chain_outputShape_channels hchain
    rw [hmain, Option.some.injEq] at hout
    cases hsc : b.shortcut with
    | none =>
      have hok : b.outputShape s = .ok out :=
        (outputShape_eq_ok b s out).mpr ⟨hchain, fun sc h => by rw [hsc] at h; cases h⟩
      cases hok.symm.trans hfault
    | some sc =>
      have hform := h.shortcut_eq
      rw [hsc, Option.map_some] at hform
      rw [outputShape_of_chain hchain hsc] at hfault
      split at hfault
      · cases hfault
      · cases hfault
        refine .inr ⟨_, _, rfl, ?_⟩
        split at hform
        · rw [← sc.projected_form, Option.some.inj hform, Shortcut.projected_form,
            Shortcut.projected_ofPolicy ((sc.resampled_channels _).trans heven), ← hout]
        · cases hform

end Block

end Midframe
