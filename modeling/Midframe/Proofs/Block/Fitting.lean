import Midframe.Proofs.Block.Compiled
import Midframe.Proofs.Spec.Texts

/-!
# Operations and channel plans

Behind some operations the channels are the last entry that these took of a channel plan, divided by
four for every shuffle since. An operation fits there if the plan has an entry left for it, if its
weight can be addressed, and if a shuffle finds a multiple of four channels. A chain is compiled
exactly if all its operations fit; otherwise the first one that does not says what the fault is.
-/

namespace Midframe

namespace Block

/-- The channels behind operations: the last entry that they took of the plan, divided by four for
every shuffle behind it. -/
def channelsBehind (plan : List Nat) (ops : List Op) : Nat :=
  plan.getD (ops.countP Op.takesChannels) 0 / 4 ^ ops.foldl Op.shufflesBehind 0

/-- A weight can be addressed at four bytes a value. Where a factor is zero, the others count. -/
def Addressable (outputs inputs kernel : Nat) : Prop :=
  max 1 outputs * max 1 inputs * max 1 kernel * max 1 kernel ≤ addressable / 4

theorem weightFits_iff (outputs inputs kernel : Nat) :
    weightFits [outputs, inputs, kernel, kernel] = true ↔ Addressable outputs inputs kernel := by
  simp only [weightFits, List.map_cons, List.map_nil, volume, decide_eq_true_eq, Addressable,
    Nat.mul_one, Nat.mul_assoc]

theorem takesChannels_iff (op : Op) :
    op.takesChannels = true ↔ ∃ kernel, kernel? op = some kernel := by
  cases op <;> simp [Op.takesChannels, kernel?]

/-- An operation takes nothing of the plan, or one entry. -/
theorem countP_concat (ops : List Op) (op : Op) : (ops ++ [op]).countP Op.takesChannels
    = ops.countP Op.takesChannels + if op.takesChannels = true then 1 else 0 := by
  rw [List.countP_append, List.countP_singleton]

/-- The channels behind a convolution are the next entry of the plan. -/
theorem channelsBehind_of_kernel? {op : Op} {kernel : Nat} (h : kernel? op = some kernel)
    (plan : List Nat) (before : List Op) : channelsBehind plan (before ++ [op])
      = plan.getD (before.countP Op.takesChannels + 1) 0 := by
  have htakes := (takesChannels_iff op).mpr ⟨kernel, h⟩
  have hshuffles (k : Nat) : op.shufflesBehind k = 0 := by
    cases op <;> first | rfl | cases h
  rw [channelsBehind, countP_concat, if_pos htakes, List.foldl_append, List.foldl_cons,
    List.foldl_nil, hshuffles, Nat.pow_zero, Nat.div_one]

/-- The channels behind any other operation are those in front of it, or a quarter of them. -/
theorem channelsBehind_of_kernel?_none {op : Op} (h : kernel? op = none) (plan : List Nat)
    (before : List Op) : channelsBehind plan (before ++ [op])
      = channelsAfter op (channelsBehind plan before) (channelsBehind plan before) := by
  have htakes : ¬ op.takesChannels = true := fun htakes => by
    obtain ⟨kernel, hkernel⟩ := (takesChannels_iff op).mp htakes
    rw [h] at hkernel
    cases hkernel
  rw [channelsBehind, countP_concat, if_neg htakes, List.foldl_append, List.foldl_cons,
    List.foldl_nil, Nat.add_zero]
  cases op with
  | conv kernel border => cases h
  | sconv kernel border => cases h
  | up algorithm =>
    cases algorithm with
    | shuffle =>
      simp only [Op.shufflesBehind, channelsAfter, channelsBehind, Nat.pow_succ,
        Nat.div_div_eq_div_mul]
    | _ => rfl
  | _ => rfl

/-- An operation fits behind others: there is an entry of the plan for it and room for its weight,
and a shuffle finds channels to rearrange. -/
structure OpFits (plan : List Nat) (before : List Op) (op : Op) : Prop where
  /-- The plan does not run out. -/
  planned : op.takesChannels = true → before.countP Op.takesChannels + 1 < plan.length
  /-- The weight can be addressed. -/
  weight : ∀ kernel, kernel? op = some kernel →
    Addressable (channelsBehind plan (before ++ [op])) (channelsBehind plan before) kernel
  /-- The channels are a multiple of four. -/
  shuffle : op = .up .shuffle → channelsBehind plan before % 4 = 0

/-! ## One operation -/

variable {source : String} {flags : Flags} {plan : List Nat} {before : List Op} {op : Op}

/-- Nothing is asked of an `evenize`. -/
theorem opFits_evenize_self (plan : List Nat) (before : List Op) (border : Border) :
    OpFits plan before (.evenize border) := ⟨nofun, nofun, nofun⟩

theorem opFits_shuffle_iff :
    OpFits plan before (.up .shuffle) ↔ channelsBehind plan before % 4 = 0 :=
  ⟨fun fits => fits.shuffle rfl, fun hfour => ⟨nofun, nofun, fun _ => hfour⟩⟩

/-- What is done for an operation that fits. -/
theorem OpFits.step (fits : OpFits plan before op) (heven : op.isEvenize = false)
    (flags : Flags) (index : Nat) : ∃ outputs layer,
      takeOutputs plan index (channelsBehind plan before)
        (plan.drop (before.countP Op.takesChannels + 1)) op
          = .ok (outputs, plan.drop ((before ++ [op]).countP Op.takesChannels + 1)) ∧
      Layer.ofOp op flags (channelsBehind plan before) outputs = .ok layer ∧
      channelsAfter op (channelsBehind plan before) outputs = channelsBehind plan (before ++ [op]) ∧
      Layer.ofOp op flags (channelsBehind plan before) (channelsBehind plan (before ++ [op]))
        = .ok layer := by
  have hcount := countP_concat before op
  cases hkernel : kernel? op with
  | none =>
    have htakes : ¬ op.takesChannels = true := fun htakes => by
      obtain ⟨kernel, h⟩ := (takesChannels_iff op).mp htakes
      rw [hkernel] at h
      cases h
    have hlayer (outputs : Nat) : ∃ layer, Layer.ofOp op flags (channelsBehind plan before) outputs
        = .ok layer ∧ Layer.ofOp op flags (channelsBehind plan before)
          (channelsBehind plan (before ++ [op])) = .ok layer := by
      cases op with
      | evenize border => cases heven
      | conv kernel border => cases hkernel
      | sconv kernel border => cases hkernel
      | up algorithm =>
        cases algorithm with
        | shuffle =>
          have hfour : ¬ (channelsBehind plan before % 4 != 0) = true := by
            simp [fits.shuffle rfl]
          exact ⟨.up .shuffle, if_neg hfour, if_neg hfour⟩
        | _ => exact ⟨_, rfl, rfl⟩
      | prelu slope => exact ⟨_, rfl, rfl⟩
    obtain ⟨layer, hlayer, hlayer'⟩ := hlayer (channelsBehind plan before)
    refine ⟨_, layer, ?_, hlayer, (channelsBehind_of_kernel?_none hkernel plan before).symm,
      hlayer'⟩
    rw [hcount, if_neg htakes]
    simp only [takeOutputs, heven, Bool.false_eq_true, ↓reduceIte, hkernel, Nat.add_zero]
  | some kernel =>
    have htakes := (takesChannels_iff op).mpr ⟨kernel, hkernel⟩
    have hplanned := fits.planned htakes
    have hrest : plan.drop (before.countP Op.takesChannels + 1)
        = channelsBehind plan (before ++ [op]) ::
          plan.drop (before.countP Op.takesChannels + 1 + 1) := by
      rw [List.drop_eq_getElem_cons hplanned, channelsBehind_of_kernel? hkernel,
        List.getD_eq_getElem _ _ hplanned]
    have hlayer : ∃ layer, Layer.ofOp op flags (channelsBehind plan before)
        (channelsBehind plan (before ++ [op])) = .ok layer := by
      cases op <;> first | exact ⟨_, rfl⟩ | cases hkernel
    obtain ⟨layer, hlayer⟩ := hlayer
    obtain ⟨hafter, -⟩ := ofOp_of_kernel?_some hkernel hlayer
    refine ⟨_, layer, ?_, hlayer, hafter, hlayer⟩
    rw [hcount, if_pos htakes, hrest]
    simp only [takeOutputs, heven, Bool.false_eq_true, ↓reduceIte, hkernel,
      (weightFits_iff _ _ _).mpr (fits.weight kernel hkernel)]

/-- The fault for an operation that does not fit. -/
def Reports (source : String) (plan : List Nat) (before : List Op) (op : Op)
    (fault : Fault) : Prop :=
  (op = .up .shuffle ∧ fault = .shuffleChannels (channelsBehind plan before)) ∨
    (op ≠ .up .shuffle ∧ ∃ flaw, fault = .malformedSpec source flaw)

/-- A convolution that does not fit finds no entry of the plan, or is too large. -/
theorem takeOutputs_of_misfit (misfit : ¬ OpFits plan before op) (heven : op.isEvenize = false)
    (hop : op ≠ .up .shuffle) (index : Nat) : ∃ flaw,
      takeOutputs plan index (channelsBehind plan before)
        (plan.drop (before.countP Op.takesChannels + 1)) op = .error flaw := by
  have hfault : ∃ kernel, kernel? op = some kernel ∧
      (before.countP Op.takesChannels + 1 < plan.length → ¬ Addressable
        (channelsBehind plan (before ++ [op])) (channelsBehind plan before) kernel) := by
    by_contra hnone
    push Not at hnone
    refine misfit ⟨fun htakes => ?_, fun kernel hkernel => (hnone kernel hkernel).2,
      fun h => absurd h hop⟩
    obtain ⟨kernel, hkernel⟩ := (takesChannels_iff op).mp htakes
    exact (hnone kernel hkernel).1
  obtain ⟨kernel, hkernel, htoo⟩ := hfault
  by_cases hplanned : before.countP Op.takesChannels + 1 < plan.length
  · have hweight : weightFits [plan[before.countP Op.takesChannels + 1], channelsBehind plan before,
        kernel, kernel] = false := by
      rw [Bool.eq_false_iff, Ne, weightFits_iff, ← List.getD_eq_getElem _ 0 hplanned,
        ← channelsBehind_of_kernel? hkernel]
      exact htoo hplanned
    rw [List.drop_eq_getElem_cons hplanned]
    simp only [takeOutputs, heven, Bool.false_eq_true, ↓reduceIte, hkernel, hweight]
    exact ⟨_, rfl⟩
  · rw [List.drop_eq_nil_of_le (by omega)]
    simp only [takeOutputs, heven, Bool.false_eq_true, ↓reduceIte, hkernel]
    exact ⟨_, rfl⟩

/-- What is reported for an operation that does not fit. -/
theorem compileChain_of_misfit_head (misfit : ¬ OpFits plan before op)
    (heven : op.isEvenize = false) (index : Nat) (ops : List Op) : ∃ fault,
      compileChain source flags plan index (channelsBehind plan before)
        (plan.drop (before.countP Op.takesChannels + 1)) (op :: ops) = .error fault ∧
      Reports source plan before op fault := by
  by_cases hop : op = .up .shuffle
  · subst hop
    have hfour : (channelsBehind plan before % 4 != 0) = true := by
      rw [bne_iff_ne]
      exact opFits_shuffle_iff.not.mp misfit
    refine ⟨_, ?_, .inl ⟨rfl, rfl⟩⟩
    rw [compileChain]
    simp only [takeOutputs, Op.isEvenize, Bool.false_eq_true, ↓reduceIte, kernel?, Layer.ofOp,
      hfour]
    rfl
  · obtain ⟨flaw, hflaw⟩ := takeOutputs_of_misfit misfit heven hop index
    refine ⟨.malformedSpec source flaw, ?_, .inr ⟨hop, flaw, rfl⟩⟩
    rw [compileChain, hflaw]
    rfl

/-! ## Chains -/

/-- All operations fit, each behind those in front of it. -/
def AllFit (plan : List Nat) (before ops : List Op) : Prop :=
  ∀ mid op after, ops = mid ++ op :: after → OpFits plan (before ++ mid) op

theorem allFit_cons {ops : List Op} : AllFit plan before (op :: ops) ↔
    OpFits plan before op ∧ AllFit plan (before ++ [op]) ops := by
  constructor
  · intro h
    refine ⟨?_, fun mid o after hops => ?_⟩
    · simpa using h [] op ops rfl
    · simpa using h (op :: mid) o after (by rw [hops, List.cons_append])
  · rintro ⟨hop, hops⟩ mid o after heq
    cases mid with
    | nil =>
      obtain ⟨rfl, rfl⟩ := List.cons.inj heq
      simpa using hop
    | cons o' mid =>
      obtain ⟨rfl, rfl⟩ := List.cons.inj heq
      simpa using hops mid o after rfl

/-- Either all operations fit, or one is the first that does not. -/
theorem allFit_or_misfit (plan : List Nat) (before ops : List Op) : AllFit plan before ops ∨
    ∃ mid op after, ops = mid ++ op :: after ∧ AllFit plan before mid ∧
      ¬ OpFits plan (before ++ mid) op := by
  induction ops generalizing before with
  | nil => exact .inl fun mid op after h => by simp at h
  | cons op ops ih =>
    by_cases hop : OpFits plan before op
    · rcases ih (before ++ [op]) with hall | ⟨mid, o, after, rfl, hmid, ho⟩
      · exact .inl (allFit_cons.mpr ⟨hop, hall⟩)
      · exact .inr ⟨op :: mid, o, after, rfl, allFit_cons.mpr ⟨hop, hmid⟩, by simpa using ho⟩
    · exact .inr ⟨[], op, ops, rfl, fun mid o after h => by simp at h, by simpa using hop⟩

/-- A chain has one layer for every operation, compiled for the channels behind those in front of
it. -/
structure HasLayers (flags : Flags) (plan : List Nat) (before ops : List Op) (layers : List Layer) :
    Prop where
  /-- There are as many layers as operations. -/
  length : layers.length = ops.length
  /-- Each is compiled for the channels that reach it and those that it leaves. -/
  compiled : ∀ mid op after, ops = mid ++ op :: after → ∃ layer, layers[mid.length]? = some layer ∧
    Layer.ofOp op flags (channelsBehind plan (before ++ mid))
      (channelsBehind plan (before ++ mid ++ [op])) = .ok layer

/-- A chain whose operations all fit is compiled. -/
theorem compileChain_of_allFit (source : String) (flags : Flags) {ops : List Op}
    (fits : AllFit plan before ops) (heven : ∀ op ∈ ops, op.isEvenize = false)
    (index : Nat) : ∃ layers, compileChain source flags plan index (channelsBehind plan before)
        (plan.drop (before.countP Op.takesChannels + 1)) ops
          = .ok (layers, channelsBehind plan (before ++ ops),
            plan.drop ((before ++ ops).countP Op.takesChannels + 1)) ∧
      HasLayers flags plan before ops layers := by
  -- `before` are the operations compiled so far: the channels at hand and what is left of the plan
  -- are always those behind them.
  induction ops generalizing before index with
  | nil =>
    refine ⟨[], ?_, rfl, fun mid op after h => by simp at h⟩
    rw [List.append_nil]
    rfl
  | cons op ops ih =>
    obtain ⟨hop, hops⟩ := allFit_cons.mp fits
    obtain ⟨outputs, layer, htake, hlayer, hafter, hlayer'⟩ :=
      hop.step (heven op List.mem_cons_self) flags index
    obtain ⟨layers, htail, hlength, hcompiled⟩ :=
      ih hops (fun o ho => heven o (List.mem_cons_of_mem _ ho)) (index + 1)
    refine ⟨layer :: layers, ?_, congrArg Nat.succ hlength, fun mid o after heq => ?_⟩
    · rw [compileChain, htake]
      simp only [Except.mapError, hlayer, hafter, htail, List.append_assoc, List.cons_append,
        List.nil_append, bind, Except.bind, pure, Except.pure]
    · cases mid with
      | nil =>
        obtain ⟨rfl, rfl⟩ := List.cons.inj heq
        exact ⟨layer, rfl, by simpa using hlayer'⟩
      | cons o' mid =>
        obtain ⟨rfl, rfl⟩ := List.cons.inj heq
        simpa using hcompiled mid o after rfl

/-- A chain is refused with the fault for the first operation that does not fit. -/
theorem compileChain_of_misfit (source : String) (flags : Flags) {mid : List Op}
    (fits : AllFit plan before mid) (misfit : ¬ OpFits plan (before ++ mid) op) (after : List Op)
    (heven : ∀ o ∈ mid ++ [op], o.isEvenize = false) (index : Nat) : ∃ fault,
      compileChain source flags plan index (channelsBehind plan before)
        (plan.drop (before.countP Op.takesChannels + 1)) (mid ++ op :: after) = .error fault ∧
      Reports source plan (before ++ mid) op fault := by
  induction mid generalizing before index with
  | nil =>
    rw [List.append_nil] at misfit ⊢
    exact compileChain_of_misfit_head misfit (heven op (by simp)) index after
  | cons o mid ih =>
    obtain ⟨ho, hmid⟩ := allFit_cons.mp fits
    obtain ⟨outputs, layer, htake, hlayer, hnext, -⟩ := ho.step (heven o (by simp)) flags index
    obtain ⟨fault, hfault, hreports⟩ := ih hmid (by simpa using misfit)
      (fun p hp => heven p (List.mem_cons_of_mem _ hp)) (index + 1)
    refine ⟨fault, ?_, by simpa using hreports⟩
    rw [List.cons_append, compileChain, htake]
    simp only [Except.mapError, hlayer, hnext, hfault, bind, Except.bind]

/-! ## An `evenize` at the head -/

theorem channelsBehind_evenize (plan : List Nat) (border : Border) (ops : List Op) :
    channelsBehind plan (.evenize border :: ops) = channelsBehind plan ops := rfl

theorem opFits_evenize (border : Border) :
    OpFits plan (.evenize border :: before) op ↔ OpFits plan before op :=
  ⟨fun h => ⟨h.planned, h.weight, h.shuffle⟩, fun h => ⟨h.planned, h.weight, h.shuffle⟩⟩

theorem allFit_evenize (border : Border) {ops : List Op} :
    AllFit plan [] (.evenize border :: ops) ↔ AllFit plan [] ops := by
  rw [allFit_cons, and_iff_right (opFits_evenize_self plan [] border)]
  refine forall_congr' fun mid => forall_congr' fun op => forall_congr' fun after =>
    forall_congr' fun _ => ?_
  exact opFits_evenize border

theorem allFit_splitEvenize (ops : List Op) :
    AllFit plan [] (splitEvenize ops).2.2 ↔ AllFit plan [] ops := by
  rcases splitEvenize_cases ops with ⟨border, rest, rfl, hsplit⟩ | hsplit
  · rw [hsplit, allFit_evenize]
  · rw [hsplit]

theorem channelsBehind_splitEvenize (plan : List Nat) (ops : List Op) :
    channelsBehind plan (splitEvenize ops).2.2 = channelsBehind plan ops := by
  rcases splitEvenize_cases ops with ⟨border, rest, rfl, hsplit⟩ | hsplit
  · rw [hsplit, channelsBehind_evenize]
  · rw [hsplit]

/-- A specification that can be written has no other `evenize`. -/
theorem isEvenize_splitEvenize {spec : BlockSpec} (writable : spec.IsWritable) :
    ∀ op ∈ (splitEvenize spec.ops).2.2, op.isEvenize = false := by
  intro op hop
  cases op with
  | evenize border =>
    obtain ⟨i, hi⟩ := List.mem_iff_getElem?.mp hop
    rcases splitEvenize_cases spec.ops with ⟨b, rest, hops, hsplit⟩ | hsplit
    · rw [hsplit] at hi
      have := writable.evenize (i + 1) border (by rw [hops, List.getElem?_cons_succ, hi])
      omega
    · -- An `evenize` at the head would have been split off.
      rw [hsplit] at hi
      obtain rfl := writable.evenize i border hi
      obtain ⟨ops, hops⟩ : ∃ ops, spec.ops = .evenize border :: ops := by
        cases hspec : spec.ops with
        | nil => simp [hspec] at hi
        | cons o ops =>
          rw [hspec, List.getElem?_cons_zero, Option.some.injEq] at hi
          exact ⟨ops, by rw [hi]⟩
      rw [hops] at hsplit
      cases hsplit
  | _ => rfl

end Block

end Midframe
