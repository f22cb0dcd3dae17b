import Midframe.Proofs.Block.Fitting
import Midframe.Proofs.Spec.Stride
import Midframe.Proofs.Spec.Words

/-!
# When a specification is compiled

A specification is compiled for a channel plan exactly if the plan is as long as it must be, every
operation fits behind those in front of it, and a shortcut could be projected. The block then has a
layer for every operation, takes the first entry of the plan and gives the channels behind the last
operation. What its shortcut does depends on the stride, and so on whether a double precision number
can hold it.
-/

namespace Midframe

namespace Block

variable {source : String} {flags : Flags} {plan : List Nat} {before : List Op} {op : Op}

/-! ## Blocks -/

/-- What a channel plan must satisfy for a specification to be compiled. -/
structure Accepts (spec : BlockSpec) (plan : List Nat) : Prop where
  /-- The plan has an entry for every convolution, and one for the channels in front. -/
  length : plan.length = spec.channelSteps + 1
  /-- Every shuffle finds a multiple of four channels. -/
  shuffles : ∀ before after, spec.ops = before ++ .up .shuffle :: after →
    channelsBehind plan before % 4 = 0
  /-- Every weight can be addressed. -/
  weights : ∀ before op after kernel, spec.ops = before ++ op :: after →
    kernel? op = some kernel →
    Addressable (channelsBehind plan (before ++ [op])) (channelsBehind plan before) kernel
  /-- So can the weight of a projection around them. -/
  projection : spec.flags.skip = true →
    Addressable (channelsBehind plan spec.ops) (channelsBehind plan []) 1

theorem Accepts.allFit {spec : BlockSpec} (h : Accepts spec plan) : AllFit plan [] spec.ops := by
  intro before op after hops
  refine ⟨fun htakes => ?_, fun kernel hkernel => h.weights before op after kernel hops hkernel,
    fun hop => h.shuffles before after (hop ▸ hops)⟩
  rw [List.nil_append, h.length, BlockSpec.channelSteps, hops, List.countP_append, List.countP_cons,
    if_pos htakes]
  omega

/-- Where all operations fit, the plan is long enough for them. -/
theorem AllFit.length {ops : List Op} (h : AllFit plan before ops)
    (hbefore : before.countP Op.takesChannels < plan.length) :
    (before ++ ops).countP Op.takesChannels < plan.length := by
  induction ops generalizing before with
  | nil => rwa [List.append_nil]
  | cons op ops ih =>
    obtain ⟨hop, hops⟩ := allFit_cons.mp h
    have hnext : (before ++ [op]).countP Op.takesChannels < plan.length := by
      rw [countP_concat]
      by_cases htakes : op.takesChannels = true
      · rw [if_pos htakes]
        exact hop.planned htakes
      · rwa [if_neg htakes]
    simpa using ih hops hnext

/-- A plan is refused if it is too short or too long, if an operation does not fit, or if a
projection would be too large. -/
theorem accepts_of_allFit {spec : BlockSpec} (fits : AllFit plan [] spec.ops)
    (length : plan.length = spec.channelSteps + 1)
    (projection : spec.flags.skip = true →
      Addressable (channelsBehind plan spec.ops) (channelsBehind plan []) 1) : Accepts spec plan :=
  ⟨length, fun before after hops => (fits before _ after hops).shuffle rfl,
    fun before op after kernel hops => (fits before op after hops).weight kernel, projection⟩

variable {spec : BlockSpec}

/-- What a compilation comes to where all operations fit. -/
theorem compile_of_allFit (writable : spec.IsWritable) (fits : AllFit plan [] spec.ops)
    (nonempty : plan ≠ []) (source : String) : ∃ main,
      HasLayers spec.flags plan [] (splitEvenize spec.ops).2.2 main ∧
      compile source spec plan =
        if plan.length ≠ spec.channelSteps + 1 then .error (.malformedSpec source
          (.planLeaves plan (plan.length - spec.channelSteps)))
        else ((compileShortcut spec (channelsBehind plan [])
            (channelsBehind plan spec.ops)).mapError (.malformedSpec source)).map fun shortcut =>
          ⟨source, spec, channelsBehind plan [], channelsBehind plan spec.ops, spec.stride,
            (splitEvenize spec.ops).1, main, shortcut⟩ := by
  obtain ⟨main, hchain, hlayers⟩ := compileChain_of_allFit source spec.flags
    ((allFit_splitEvenize spec.ops).mpr fits) (isEvenize_splitEvenize writable)
    (splitEvenize spec.ops).2.1
  refine ⟨main, hlayers, ?_⟩
  have hlong := fits.length (List.length_pos_iff.mpr nonempty)
  rw [List.nil_append, channelsBehind_splitEvenize, countP_splitEvenize fun _ => rfl] at hchain
  rw [List.nil_append] at hlong
  have hleft : (plan.drop (spec.ops.countP Op.takesChannels + 1)).length
      = plan.length - (spec.channelSteps + 1) := List.length_drop
  obtain ⟨inputs, rest, rfl⟩ := List.exists_cons_of_ne_nil nonempty
  have hinputs : channelsBehind (inputs :: rest) [] = inputs := Nat.div_one inputs
  rw [hinputs] at hchain ⊢
  change compileChain source spec.flags (inputs :: rest) _ inputs rest _ = _ at hchain
  rw [compile]
  simp only [hchain, bind, Except.bind]
  by_cases hlength : (inputs :: rest).length = spec.channelSteps + 1
  · have hnil : (inputs :: rest).drop (spec.ops.countP Op.takesChannels + 1) = [] :=
      List.eq_nil_of_length_eq_zero (by rw [hleft]; omega)
    rw [hnil, if_neg (by simp), if_neg (not_not_intro hlength)]
    cases compileShortcut spec inputs (channelsBehind (inputs :: rest) spec.ops) <;> rfl
  · have hmore : ((inputs :: rest).drop (spec.ops.countP Op.takesChannels + 1)).length + 1
        = (inputs :: rest).length - spec.channelSteps := by
      unfold BlockSpec.channelSteps at hlength hleft ⊢
      omega
    have hleaves : (!((inputs :: rest).drop (spec.ops.countP Op.takesChannels + 1)).isEmpty)
        = true := by
      rw [Bool.not_eq_true', List.isEmpty_eq_false_iff, ← List.length_pos_iff]
      unfold BlockSpec.channelSteps at hlength hmore
      omega
    rw [if_pos hleaves, if_pos hlength, hmore]
    rfl

/-- A compilation ends with the fault for the first operation that does not fit. -/
theorem compile_of_misfit (writable : spec.IsWritable) (nonempty : plan ≠ []) {mid after : List Op}
    (hops : spec.ops = mid ++ op :: after) (fits : AllFit plan [] mid)
    (misfit : ¬ OpFits plan mid op) (source : String) :
    ∃ fault, compile source spec plan = .error fault ∧ Reports source plan mid op fault := by
  obtain ⟨mid', hops', hfits, hmisfit, hchannels⟩ : ∃ mid', (splitEvenize spec.ops).2.2
      = mid' ++ op :: after ∧ AllFit plan [] mid' ∧ ¬ OpFits plan mid' op ∧
        channelsBehind plan mid' = channelsBehind plan mid := by
    rcases splitEvenize_cases spec.ops with ⟨border, rest, heq, hsplit⟩ | hsplit
    · cases mid with
      | nil =>
        obtain ⟨rfl, -⟩ := List.cons.inj (heq.symm.trans hops)
        exact absurd (opFits_evenize_self plan _ border) misfit
      | cons o mid =>
        obtain ⟨rfl, hrest⟩ := List.cons.inj (heq.symm.trans hops)
        exact ⟨mid, (congrArg (·.2.2) hsplit).trans hrest, (allFit_evenize border).mp fits,
          (opFits_evenize border).not.mp misfit, rfl⟩
    · exact ⟨mid, by rw [hsplit, hops], fits, misfit, rfl⟩
  obtain ⟨fault, hfault, hreports⟩ := compileChain_of_misfit source spec.flags
    hfits (by rwa [List.nil_append]) after
    (fun o ho => isEvenize_splitEvenize writable o (by
      rw [hops', ← List.singleton_append, ← List.append_assoc]
      exact List.mem_append_left _ ho)) (splitEvenize spec.ops).2.1
  refine ⟨fault, ?_, ?_⟩
  · obtain ⟨inputs, rest, rfl⟩ := List.exists_cons_of_ne_nil nonempty
    have hinputs : channelsBehind (inputs :: rest) [] = inputs := Nat.div_one inputs
    rw [hinputs, ← hops'] at hfault
    change compileChain source spec.flags (inputs :: rest) _ inputs rest _ = _ at hfault
    rw [compile]
    simp only [hfault, bind, Except.bind]
  · rw [List.nil_append] at hreports
    unfold Reports at hreports ⊢
    rwa [← hchannels]

/-- What a specification and a channel plan are compiled to. -/
structure Realizes (b : Block) (spec : BlockSpec) (plan : List Nat) : Prop where
  /-- The block takes the first entry of the plan. -/
  inputs : plan.head? = some b.inputs
  /-- It gives the channels behind all operations. -/
  outputs : b.outputs = channelsBehind plan spec.ops
  /-- A leading `evenize` is held apart. -/
  evenize : b.evenize = (splitEvenize spec.ops).1
  /-- Every other operation has its layer in the main chain. -/
  layers : HasLayers spec.flags plan [] (splitEvenize spec.ops).2.2 b.main
  /-- A convolution takes the channels behind the operations in front of it. -/
  convolutions : ∀ before op after c, (splitEvenize spec.ops).2.2 = before ++ op :: after →
    b.main[before.length]? = some (.conv c) → c.inputs = channelsBehind plan before
  /-- There is a shortcut exactly if the flags ask for one. What it does depends on whether the
  channels stay the same, and on whether the stride is one: there are as many strided convolutions
  as upsamplings, and the stride is a double precision number all the way. -/
  policy : ∃ unit : Bool, (unit = true ↔
      spec.ops.countP Op.isStrided = spec.ops.countP Op.isUpsampling ∧ Op.StaysInRange spec.ops) ∧
    b.shortcut.map (·.policy)
      = if spec.flags.skip = true then some (.select (b.inputs == b.outputs) unit) else none
  /-- Shapes of the channels that the block takes lead to the channels that it gives. -/
  channels : ∀ s t, s.channels = b.inputs → b.outputShape s = .ok t → t.channels = b.outputs
  /-- Where they lead to no shape, a kernel is too large or the shortcut has other extents. -/
  faults : ∀ s fault, s.channels = b.inputs → b.outputShape s = .error fault →
    (∃ kernel u, fault = .shapeMismatch (.kernelTooLarge kernel kernel u none)) ∨
      ∃ out skip, fault = .shapeMismatch (.shortcutShape b.source out skip) ∧
        out.channels = skip.channels

/-- A convolution takes the channels that it is compiled for. -/
theorem ofOp_inputs {inputs outputs : Nat} {c : Convolution}
    (h : Layer.ofOp op flags inputs outputs = .ok (.conv c)) : c.inputs = inputs := by
  cases op with
  | up algorithm =>
    cases algorithm with
    | shuffle =>
      simp only [Layer.ofOp] at h
      split at h <;> cases h
    | _ => cases h
  | conv kernel border =>
    cases h
    rfl
  | sconv kernel border =>
    cases h
    rfl
  | _ => cases h

/-- What is compiled is what the specification and the plan say. -/
theorem compile_realizes (writable : spec.IsWritable) {b : Block}
    (h : compile source spec plan = .ok b) (fits : AllFit plan [] spec.ops) (nonempty : plan ≠ []) :
    b.Realizes spec plan := by
  have hcompiled : b.IsCompiled spec plan := ⟨source, b, h, rfl⟩
  obtain ⟨main, hlayers, hcompile⟩ := compile_of_allFit writable fits nonempty source
  have hb : ∃ shortcut, b = ⟨source, spec, channelsBehind plan [], channelsBehind plan spec.ops,
      spec.stride, (splitEvenize spec.ops).1, main, shortcut⟩ := by
    rw [h] at hcompile
    split at hcompile
    · cases hcompile
    · obtain ⟨shortcut, -, hb⟩ := map_eq_ok.mp hcompile.symm
      exact ⟨shortcut, hb.symm⟩
  obtain ⟨shortcut, rfl⟩ := hb
  refine ⟨?_, rfl, rfl, hlayers, fun before op after c hops hc => ?_,
    ⟨spec.stride == 1, spec.stride_eq_one_iff, ?_⟩,
    fun s t channels ht => hcompiled.outputShape_channels channels ht,
    fun s fault channels hfault => hcompiled.outputShape_eq_error channels hfault⟩
  · obtain ⟨inputs, rest, rfl⟩ := List.exists_cons_of_ne_nil nonempty
    exact congrArg some (Nat.div_one inputs).symm
  · obtain ⟨layer, hlayer, hof⟩ := hlayers.compiled before op after hops
    obtain rfl := Option.some.inj (hlayer.symm.trans hc)
    rw [List.nil_append] at hof
    exact ofOp_inputs hof
  · have hform := congrArg (Option.map Shortcut.policy) hcompiled.shortcut_eq
    rw [Option.map_map] at hform
    exact hform.trans (by split <;> rfl)

theorem compile_of_accepts (writable : spec.IsWritable) (h : Accepts spec plan) (source : String) :
    ∃ b, compile source spec plan = .ok b := by
  have nonempty : plan ≠ [] := fun hnil => by simpa [hnil] using h.length
  obtain ⟨main, -, hcompile⟩ := compile_of_allFit writable h.allFit nonempty source
  rw [if_neg (not_not_intro h.length)] at hcompile
  cases hskip : spec.flags.skip with
  | false =>
    simp only [compileShortcut, hskip, Bool.not_false, ↓reduceIte] at hcompile
    exact ⟨_, hcompile⟩
  | true =>
    have hweight := (weightFits_iff _ _ _).mpr (h.projection hskip)
    simp only [compileShortcut, hskip, hweight, Bool.not_true, Bool.false_eq_true,
      ↓reduceIte] at hcompile
    exact ⟨_, hcompile⟩

/-- A compilation that is refused for anything but a shuffle repeats the source. -/
theorem compile_of_not_accepts (writable : spec.IsWritable) (h : ¬ Accepts spec plan)
    (source : String) : ∃ fault, compile source spec plan = .error fault ∧
      ((∃ flaw, fault = .malformedSpec source flaw) ∨
        ∃ before after, plan ≠ [] ∧ spec.ops = before ++ .up .shuffle :: after ∧
          AllFit plan [] before ∧ channelsBehind plan before % 4 ≠ 0 ∧
          fault = .shuffleChannels (channelsBehind plan before)) := by
  by_cases nonempty : plan = []
  · subst nonempty
    exact ⟨_, rfl, .inl ⟨_, rfl⟩⟩
  rcases allFit_or_misfit plan [] spec.ops with fits | ⟨before, op, after, hops, fits, misfit⟩
  · obtain ⟨main, -, hcompile⟩ := compile_of_allFit writable fits nonempty source
    by_cases hlength : plan.length = spec.channelSteps + 1
    · -- Only the projection is left to be refused.
      have hprojection : ¬ (spec.flags.skip = true →
          Addressable (channelsBehind plan spec.ops) (channelsBehind plan []) 1) := fun hproj =>
        h (accepts_of_allFit fits hlength hproj)
      push Not at hprojection
      have hweight :
          weightFits [channelsBehind plan spec.ops, channelsBehind plan [], 1, 1] = false := by
        rw [Bool.eq_false_iff, Ne, weightFits_iff]
        exact hprojection.2
      rw [if_neg (not_not_intro hlength)] at hcompile
      simp only [compileShortcut, hprojection.1, hweight, Bool.not_true, Bool.false_eq_true,
        ↓reduceIte, Bool.not_false] at hcompile
      exact ⟨_, hcompile, .inl ⟨_, rfl⟩⟩
    · rw [if_pos hlength] at hcompile
      exact ⟨_, hcompile, .inl ⟨_, rfl⟩⟩
  · rw [List.nil_append] at misfit
    obtain ⟨fault, hfault, ⟨rfl, rfl⟩ | ⟨-, hflaw⟩⟩ :=
      compile_of_misfit writable nonempty hops fits misfit source
    · exact ⟨_, hfault, .inr ⟨before, after, nonempty, hops, fits,
        opFits_shuffle_iff.not.mp misfit, rfl⟩⟩
    · exact ⟨fault, hfault, .inl hflaw⟩

/-- A specification that is read is compiled exactly if the plan is as long as it must be, every
shuffle finds a multiple of four channels and every weight can be addressed. The block then is what
both say. Otherwise the fault repeats the source, unless the first operation that does not fit is a
shuffle: then it names the channels that reach it. -/
theorem compile_decides {text : String} (h : BlockSpec.read text = .ok spec) (source : String)
    (plan : List Nat) :
    ((∃ b, compile source spec plan = .ok b) ↔ Accepts spec plan) ∧
    (∀ b, compile source spec plan = .ok b → b.Realizes spec plan) ∧
    ∀ fault, compile source spec plan = .error fault →
      ((∃ flaw, fault = .malformedSpec source flaw) ∨ ∃ n, fault = .shuffleChannels n) ∧
      ∀ n, fault = .shuffleChannels n ↔ plan ≠ [] ∧ ∃ before after,
        spec.ops = before ++ .up .shuffle :: after ∧ AllFit plan [] before ∧
          channelsBehind plan before = n ∧ n % 4 ≠ 0 := by
  obtain ⟨tokens, -, hdenotes⟩ := BlockSpec.read_eq_ok.mp h
  have writable := BlockSpec.isWritable_of_denotes hdenotes
  have hiff : (∃ b, compile source spec plan = .ok b) ↔ Accepts spec plan := by
    refine ⟨fun ⟨b, hb⟩ => ?_, fun haccepts => compile_of_accepts writable haccepts source⟩
    by_contra hnot
    obtain ⟨fault, hfault, -⟩ := compile_of_not_accepts writable hnot source
    cases hb.symm.trans hfault
  refine ⟨hiff, fun b hb => ?_, fun fault hfault => ?_⟩
  · have haccepts := hiff.mp ⟨b, hb⟩
    exact compile_realizes writable hb haccepts.allFit fun hnil => by
      simpa [hnil] using haccepts.length
  · have hnot : ¬ Accepts spec plan := fun haccepts => by
      obtain ⟨b, hb⟩ := hiff.mpr haccepts
      cases hb.symm.trans hfault
    obtain ⟨fault', hfault', hcases⟩ := compile_of_not_accepts writable hnot source
    obtain rfl := Except.error.inj (hfault'.symm.trans hfault)
    refine ⟨hcases.imp_right fun ⟨before, _, _, _, _, _, heq⟩ => ⟨_, heq⟩, fun n =>
      ⟨fun hn => ?_, ?_⟩⟩
    · subst hn
      rcases hcases with ⟨flaw, hflaw⟩ | ⟨before, after, nonempty, hops, fits, hfour, heq⟩
      · cases hflaw
      · cases heq
        exact ⟨nonempty, before, after, hops, fits, rfl, hfour⟩
    · rintro ⟨nonempty, before, after, hops, fits, rfl, hfour⟩
      obtain ⟨fault, hfault, ⟨-, rfl⟩ | ⟨hother, -⟩⟩ := compile_of_misfit writable nonempty hops
        fits (opFits_shuffle_iff.not.mpr hfour) source
      · exact Except.error.inj (hfault'.symm.trans hfault)
      · exact absurd rfl hother

/-- A plan for a shuffle between two convolutions, and one that leaves it six channels. -/
theorem compile_decides_samples : ∃ spec b,
    BlockSpec.read "conv(1)-up(shuffle)-conv(3)+skip" = .ok spec ∧
    compile "block" spec [3, 8, 5] = .ok b ∧ b.Realizes spec [3, 8, 5] ∧
    ¬ Accepts spec [3, 6, 5] ∧ ∃ before after, spec.ops = before ++ .up .shuffle :: after ∧
      channelsBehind [3, 6, 5] before = 6 := by
  have hread : BlockSpec.read "conv(1)-up(shuffle)-conv(3)+skip"
      = .ok ⟨[.conv 1 .zeros, .up .shuffle, .conv 3 .zeros], { skip := true }⟩ := by decide +kernel
  obtain ⟨b, hb⟩ := exists_eq_ok_of_isOk (show (compile "block"
      ⟨[.conv 1 .zeros, .up .shuffle, .conv 3 .zeros], { skip := true }⟩ [3, 8, 5]).isOk = true
    by decide +kernel)
  have hfault : compile "block" ⟨[.conv 1 .zeros, .up .shuffle, .conv 3 .zeros], { skip := true }⟩
      [3, 6, 5] = .error (.shuffleChannels 6) := rfl
  have hsix := compile_decides hread "block" [3, 6, 5]
  obtain ⟨-, before, after, hops, -, hchannels, -⟩ := ((hsix.2.2 _ hfault).2 6).mp rfl
  refine ⟨_, b, hread, hb, (compile_decides hread "block" [3, 8, 5]).2.1 b hb, fun haccepts => ?_,
    before, after, hops, hchannels⟩
  obtain ⟨b, hb⟩ := hsix.1.mpr haccepts
  cases hfault.symm.trans hb

/-! ## Strides beyond the range -/

theorem shufflesBehind_eq_zero {ops : List Op} (h : ∀ op ∈ ops, op ≠ .up .shuffle) :
    ops.foldl Op.shufflesBehind 0 = 0 := by
  induction ops with
  | nil => rfl
  | cons op ops ih =>
    have hop : op.shufflesBehind 0 = 0 := by
      cases op with
      | up algorithm =>
        cases algorithm with
        | shuffle => exact absurd rfl (h _ List.mem_cons_self)
        | _ => rfl
      | _ => rfl
    rw [List.foldl_cons, hop]
    exact ih fun o ho => h o (List.mem_cons_of_mem _ ho)

/-- Without shuffles a plan of ones leaves a single channel everywhere. -/
theorem channelsBehind_ones {ops : List Op} (h : ∀ op ∈ ops, op ≠ .up .shuffle) {n : Nat}
    (hn : ops.countP Op.takesChannels < n) : channelsBehind (List.replicate n 1) ops = 1 := by
  rw [channelsBehind, shufflesBehind_eq_zero h, List.getD_eq_getElem _ _ (by simpa using hn),
    List.getElem_replicate, Nat.pow_zero, Nat.div_one]

/-- A plan of ones fits every specification without shuffles that can be written. -/
theorem accepts_ones (writable : spec.IsWritable) (h : ∀ op ∈ spec.ops, op ≠ .up .shuffle) :
    Accepts spec (List.replicate (spec.channelSteps + 1) 1) := by
  have hones (before after : List Op) (hops : spec.ops = before ++ after) :
      channelsBehind (List.replicate (spec.channelSteps + 1) 1) before = 1 := by
    have hbefore (op : Op) (hop : op ∈ before) : op ≠ .up .shuffle := by
      refine h op ?_
      rw [hops]
      exact List.mem_append_left _ hop
    refine channelsBehind_ones hbefore ?_
    rw [BlockSpec.channelSteps, hops, List.countP_append]
    omega
  refine ⟨by simp, fun before after hops => ?_, fun before op after kernel hops hkernel => ?_,
    fun _ => ?_⟩
  · exact absurd rfl (h _ (by rw [hops]; simp))
  · have hbound : kernel ≤ 255 := by
      have hmem : op ∈ spec.ops := by rw [hops]; simp
      cases op with
      | conv k border =>
        cases hkernel
        exact (writable.kernel _ _ (.inl hmem)).2
      | sconv k border =>
        cases hkernel
        exact (writable.kernel _ _ (.inr hmem)).2
      | _ => cases hkernel
    rw [hones _ _ hops, hones (before ++ [op]) after (by simp [hops]), Addressable]
    have hsquare := Nat.mul_le_mul (show max 1 kernel ≤ 255 by omega)
      (show max 1 kernel ≤ 255 by omega)
    rw [Nat.max_self, Nat.one_mul]
    unfold addressable
    omega
  · rw [hones spec.ops [] (by simp), hones [] spec.ops rfl, Addressable]
    decide

/-- What a shortcut around a single channel does. -/
theorem policy_ones {text : String} (hread : BlockSpec.read text = .ok spec)
    (h : ∀ op ∈ spec.ops, op ≠ .up .shuffle) (skip : spec.flags.skip = true) (source : String) :
    ∃ b sc, compile source spec (List.replicate (spec.channelSteps + 1) 1) = .ok b ∧
      (b.inputs == b.outputs) = true ∧ b.shortcut = some sc ∧
      (sc.policy = .identity ↔
        spec.ops.countP Op.isStrided = spec.ops.countP Op.isUpsampling ∧
          Op.StaysInRange spec.ops) := by
  obtain ⟨tokens, -, hdenotes⟩ := BlockSpec.read_eq_ok.mp hread
  have writable := BlockSpec.isWritable_of_denotes hdenotes
  have haccepts := accepts_ones writable h
  obtain ⟨b, hb⟩ := compile_of_accepts writable haccepts source
  have hrealizes := compile_realizes writable hb haccepts.allFit (by simp)
  have hinputs : b.inputs = 1 := (Option.some.inj hrealizes.inputs).symm
  have houtputs : b.outputs = 1 := by
    rw [hrealizes.outputs]
    exact channelsBehind_ones h (Nat.lt_succ_self _)
  have hkeeps : (b.inputs == b.outputs) = true := by rw [hinputs, houtputs]; rfl
  obtain ⟨unit, hunit, hpolicy⟩ := hrealizes.policy
  rw [if_pos skip, hkeeps] at hpolicy
  obtain ⟨sc, hsc, hpolicy⟩ := Option.map_eq_some_iff.mp hpolicy
  refine ⟨b, sc, hb, hkeeps, hsc, ?_⟩
  rw [hpolicy, ← hunit]
  cases unit <;> simp [ShortcutPolicy.select]

/-- Strided convolutions and then as many upsamplings, with a shortcut around them. -/
def tower (n : Nat) : BlockSpec :=
  ⟨List.replicate n (.sconv 3 .zeros) ++ List.replicate n (.up .bilinear), { skip := true }⟩

theorem countP_tower (n : Nat) : (tower n).ops.countP Op.isStrided = n ∧
    (tower n).ops.countP Op.isUpsampling = n := by
  simp [tower, List.countP_append, List.countP_replicate, Op.isStrided, Op.isUpsampling]

theorem exists_read_tower {n : Nat} (pos : 0 < n) :
    ∃ text, BlockSpec.read text = .ok (tower n) := by
  have hreplicate (word : String) {op : Op} (h : BlockSpec.bareOp? word = some op) :
      List.Forall₂ (fun word op => BlockSpec.bareOp? word = some op) (List.replicate n word)
        (List.replicate n op) := by
    rw [List.forall₂_iff_get]
    simp [h]
  refine ⟨_, BlockSpec.read_joined ["skip"] (List.rel_append (hreplicate "sconv" rfl)
    (hreplicate "up" rfl)) (fun hnil => ?_) (by decide)⟩
  have := congrArg List.length hnil
  simp only [List.length_append, List.length_replicate, List.length_nil] at this
  omega

/-- A tower stays within the range of double precision numbers up to 1023 strided convolutions. -/
theorem staysInRange_tower_iff (n : Nat) : Op.StaysInRange (tower n).ops ↔ n ≤ 1023 := by
  constructor
  · intro h
    have hprefix := (h _ (List.prefix_append (List.replicate n (Op.sconv 3 .zeros)) _)).2
    simp only [Op.scale, List.countP_replicate, Op.isStrided, Op.isUpsampling, ↓reduceIte,
      Bool.false_eq_true] at hprefix
    omega
  · intro hn before hbefore
    have hstrided := hbefore.sublist.countP_le (p := Op.isStrided)
    have hupsampling := hbefore.sublist.countP_le (p := Op.isUpsampling)
    rw [(countP_tower n).1] at hstrided
    rw [(countP_tower n).2] at hupsampling
    unfold Op.scale
    omega

/-- What a shortcut does cannot be told from whether the channels stay the same and whether there
are as many strided convolutions as upsamplings: the stride of a tall tower leaves the range of
double precision numbers, and its shortcut scales. -/
theorem policy_beyond_counts : ¬ ∃ policyOf : Bool → Bool → ShortcutPolicy,
    ∀ (text source : String) (spec : BlockSpec) (plan : List Nat) (b : Block) (sc : Shortcut),
      BlockSpec.read text = .ok spec → compile source spec plan = .ok b → b.shortcut = some sc →
      sc.policy = policyOf (b.inputs == b.outputs)
        (spec.ops.countP Op.isStrided == spec.ops.countP Op.isUpsampling) := by
  rintro ⟨policyOf, h⟩
  have hpolicy {n : Nat} (pos : 0 < n) : policyOf true true = .identity ↔ n ≤ 1023 := by
    obtain ⟨text, hread⟩ := exists_read_tower pos
    obtain ⟨b, sc, hb, hkeeps, hsc, hpolicy⟩ := policy_ones hread
      (fun op hop => by
        simp only [tower, List.mem_append, List.mem_replicate] at hop
        rcases hop with ⟨-, rfl⟩ | ⟨-, rfl⟩ <;> simp) rfl ""
    have hsame := h text "" _ _ b sc hread hb hsc
    obtain ⟨hstrided, hupsampling⟩ := countP_tower n
    rw [hkeeps, hstrided, hupsampling, beq_self_eq_true] at hsame
    rw [← hsame, hpolicy, hstrided, hupsampling, staysInRange_tower_iff]
    exact and_iff_right rfl
  have hlow := (hpolicy Nat.one_pos).mpr (by decide)
  have hhigh := (hpolicy (Nat.succ_pos 1023)).mp hlow
  exact absurd hhigh (by decide)

end Block

end Midframe
