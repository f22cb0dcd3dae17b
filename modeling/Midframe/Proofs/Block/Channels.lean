import Midframe.Proofs.Block.Form

/-!
# Channels through blocks

A convolution takes one channel count only and gives another one, a shuffle divides the count by
four, and every other layer keeps it. So the count that reaches a block decides the counts all along
its main chain, and the compilation follows them exactly. A block with a convolution takes the first
entry of its channel plan. What it gives is the last entry divided by four for every shuffle behind
the last convolution: those come too late for the plan to have a say in them.
-/

namespace Midframe

/-! ## Shuffles behind the last convolution -/

/-- The number of shuffles behind the last convolution up to an operation, given the number in front
of it. -/
def Op.shufflesBehind (k : Nat) : Op → Nat
  | conv .. | sconv .. => 0
  | up .shuffle => k + 1
  | _ => k

/-- The number of shuffles behind the last convolution of a block. -/
def BlockSpec.trailingShuffles (spec : BlockSpec) : Nat := spec.ops.foldl Op.shufflesBehind 0

/-! ## Layers -/

namespace Convolution

theorem forward_channels {c : Convolution} {x y : Tensor Float32} (h : c.forward x = .ok y) :
    x.shape.channels = c.inputs ∧ y.shape.channels = c.outputs := by
  simp only [forward, Tensor.convolve] at h
  split at h
  · cases h
  · next hchannels =>
    split at h
    · cases h
    · split at h
      · split at h
        · cases h
        · cases h
          exact ⟨(by simpa using hchannels : c.weight.shape.channels = x.shape.channels).symm, rfl⟩
      · cases h

end Convolution

namespace Layer

/-- What a layer makes of a channel count; none if it does not take that many. -/
def channels? (layer : Layer) (n : Nat) : Option Nat :=
  match layer with
  | conv c => if n = c.inputs then some c.outputs else none
  | up .shuffle => if n % 4 = 0 then some (n / 4) else none
  | _ => some n

theorem forward_channels {layer : Layer} {x y : Tensor Float32} (h : layer.forward x = .ok y) :
    layer.channels? x.shape.channels = some y.shape.channels := by
  have hresize {scale : Float} {filter : Filter} (h : x.resize scale filter = .ok y) :
      x.shape.channels = y.shape.channels := by
    obtain ⟨hshape, -⟩ := (x.resize_shape scale filter y.shape).mp (map_eq_ok.mpr ⟨y, h, rfl⟩)
    rw [← hshape]
    rfl
  cases layer with
  | evenize border =>
    obtain ⟨hshape, -⟩ := (x.pad_shape _ border y.shape).mp (map_eq_ok.mpr ⟨y, h, rfl⟩)
    rw [← hshape]
    rfl
  | conv c =>
    obtain ⟨hinputs, houtputs⟩ := Convolution.forward_channels h
    rw [houtputs]
    exact if_pos hinputs
  | up algorithm =>
    cases algorithm with
    | nearest => exact congrArg some (hresize h)
    | bilinear => exact congrArg some (hresize h)
    | pyramid =>
      obtain ⟨hshape, -⟩ := (x.expand_shape y.shape).mp (map_eq_ok.mpr ⟨y, h, rfl⟩)
      rw [← hshape]
      rfl
    | shuffle =>
      have hshape := x.shuffle_shape
      rw [show x.shuffle 2 = .ok y from h] at hshape
      split at hshape
      · cases hshape
      · next hfour =>
        have hy : y.shape = x.shape.shuffled 2 := Except.ok.inj hshape
        rw [hy]
        exact if_pos (by simpa using hfour)
  | prelu initial slope =>
    cases h
    rfl
  | resample scale => exact congrArg some (hresize h)

theorem outputShape_channels {layer : Layer} {s t : Shape} (h : layer.outputShape s = .ok t) :
    layer.channels? s.channels = some t.channels := by
  cases layer with
  | conv c =>
    obtain ⟨hchannels, _, _, -, -, rfl⟩ := Convolution.outputShape_eq_ok.mp h
    exact if_pos hchannels
  | up algorithm =>
    cases algorithm with
    | shuffle =>
      simp only [outputShape] at h
      split at h
      · cases h
      · next hfour =>
        cases h
        exact if_pos (by simpa using hfour)
    | _ =>
      cases h
      rfl
  | _ =>
    cases h
    rfl

theorem channels?_form (layer : Layer) : layer.form.channels? = layer.channels? := by
  cases layer with
  | up algorithm => cases algorithm <;> rfl
  | _ => rfl

/-- What a chain of layers makes of a channel count. -/
def chainChannels? (layers : List Layer) (n : Nat) : Option Nat :=
  layers.foldlM (fun n layer => layer.channels? n) n

theorem chainChannels?_cons (layer : Layer) (layers : List Layer) (n : Nat) :
    chainChannels? (layer :: layers) n = (layer.channels? n).bind (chainChannels? layers) :=
  List.foldlM_cons ..

theorem chainChannels?_form (layers : List Layer) (n : Nat) :
    chainChannels? (layers.map form) n = chainChannels? layers n := by
  unfold chainChannels?
  simp only [List.foldlM_map, channels?_form]

theorem chain_forward_channels {layers : List Layer} {x y : Tensor Float32}
    (h : layers.foldlM (fun x (layer : Layer) => layer.forward x) x = .ok y) :
    chainChannels? layers x.shape.channels = some y.shape.channels := by
  induction layers generalizing x with
  | nil =>
    cases h
    rfl
  | cons layer layers ih =>
    rw [List.foldlM_cons, bind_eq_ok] at h
    obtain ⟨u, hu, hy⟩ := h
    rw [chainChannels?_cons, forward_channels hu]
    exact ih hy

theorem chain_outputShape_channels {layers : List Layer} {s t : Shape}
    (h : layers.foldlM (fun s (layer : Layer) => layer.outputShape s) s = .ok t) :
    chainChannels? layers s.channels = some t.channels := by
  induction layers generalizing s with
  | nil =>
    cases h
    rfl
  | cons layer layers ih =>
    rw [List.foldlM_cons, bind_eq_ok] at h
    obtain ⟨u, hu, ht⟩ := h
    rw [chainChannels?_cons, outputShape_channels hu]
    exact ih ht

/-- Different counts stay different. -/
theorem channels?_injective {layer : Layer} {n n' m : Nat} (h : layer.channels? n = some m)
    (h' : layer.channels? n' = some m) : n = n' := by
  cases layer with
  | conv c =>
    simp only [channels?, Option.ite_none_right_eq_some] at h h'
    exact h.1.trans h'.1.symm
  | up algorithm =>
    cases algorithm with
    | shuffle =>
      simp only [channels?, Option.ite_none_right_eq_some, Option.some.injEq] at h h'
      omega
    | _ => exact Option.some.inj (h.trans h'.symm)
  | _ => exact Option.some.inj (h.trans h'.symm)

theorem chainChannels?_injective {layers : List Layer} {n n' m : Nat}
    (h : chainChannels? layers n = some m) (h' : chainChannels? layers n' = some m) : n = n' := by
  induction layers generalizing n n' with
  | nil => exact Option.some.inj (h.trans h'.symm)
  | cons layer layers ih =>
    rw [chainChannels?_cons, Option.bind_eq_some_iff] at h h'
    obtain ⟨u, hu, hm⟩ := h
    obtain ⟨u', hu', hm'⟩ := h'
    cases ih hm hm'
    exact channels?_injective hu hu'

end Layer

namespace Block

/-! ## Operations -/

theorem takeOutputs_eq_ok {plan : List Nat} {index inputs : Nat} {rest : List Nat} {op : Op}
    {outputs : Nat} {left : List Nat}
    (h : takeOutputs plan index inputs rest op = .ok (outputs, left)) :
    (kernel? op = none ∧ outputs = inputs ∧ left = rest) ∨
      ∃ kernel, kernel? op = some kernel ∧ rest = outputs :: left := by
  simp only [takeOutputs] at h
  split at h
  · cases h
  · split at h
    · next hkernel =>
      cases h
      exact .inl ⟨hkernel, rfl, rfl⟩
    · cases h
    · next kernel first rest hkernel =>
      split at h
      · cases h
        exact .inr ⟨kernel, hkernel, rfl⟩
      · cases h

/-- The count behind an operation is what its layer makes of the count in front of it. -/
theorem ofOp_channels {op : Op} {flags : Flags} {inputs outputs : Nat} {layer : Layer}
    (houtputs : kernel? op = none → outputs = inputs)
    (h : Layer.ofOp op flags inputs outputs = .ok layer) :
    layer.channels? inputs = some (channelsAfter op inputs outputs) := by
  cases op with
  | conv kernel border =>
    cases h
    exact if_pos rfl
  | sconv kernel border =>
    cases h
    exact if_pos rfl
  | up algorithm =>
    cases algorithm with
    | shuffle =>
      simp only [Layer.ofOp] at h
      split at h
      · cases h
      · next hfour =>
        cases h
        exact if_pos (by simpa using hfour)
    | _ =>
      cases h
      exact congrArg some (houtputs rfl).symm
  | _ =>
    cases h
    exact congrArg some (houtputs rfl).symm

/-- An operation that takes nothing of the plan keeps the count, or divides it by four and is a
shuffle. -/
theorem channelsAfter_of_kernel?_none {op : Op} {flags : Flags} {inputs : Nat} {layer : Layer}
    (hkernel : kernel? op = none) (h : Layer.ofOp op flags inputs inputs = .ok layer) (k : Nat) :
    channelsAfter op inputs inputs * 4 ^ op.shufflesBehind k = inputs * 4 ^ k := by
  cases op with
  | conv kernel border => cases hkernel
  | sconv kernel border => cases hkernel
  | up algorithm =>
    cases algorithm with
    | shuffle =>
      simp only [Layer.ofOp] at h
      split at h
      · cases h
      · next hfour =>
        have hdvd : inputs / 4 * 4 = inputs := Nat.div_mul_cancel
          (Nat.dvd_of_mod_eq_zero (by simpa using hfour))
        show inputs / 4 * 4 ^ (k + 1) = inputs * 4 ^ k
        rw [Nat.pow_succ', ← Nat.mul_assoc, hdvd]
    | _ => rfl
  | _ => rfl

/-- A convolution takes one count only, and gives that of the plan. -/
theorem ofOp_of_kernel?_some {op : Op} {flags : Flags} {kernel inputs outputs : Nat}
    {layer : Layer} (hkernel : kernel? op = some kernel)
    (h : Layer.ofOp op flags inputs outputs = .ok layer) :
    channelsAfter op inputs outputs = outputs ∧ (∀ k, op.shufflesBehind k = 0) ∧
      ∀ n m, layer.channels? n = some m → n = inputs := by
  cases op with
  | conv k border =>
    cases h
    exact ⟨rfl, fun _ => rfl, fun n m hn => (Option.ite_none_right_eq_some.mp hn).1⟩
  | sconv k border =>
    cases h
    exact ⟨rfl, fun _ => rfl, fun n m hn => (Option.ite_none_right_eq_some.mp hn).1⟩
  | _ => cases hkernel

/-! ## Chains -/

theorem compileChain_cons {source : String} {flags : Flags} {plan : List Nat}
    {index inputs : Nat} {rest : List Nat} {op : Op} {ops : List Op} {layers : List Layer}
    {last : Nat} {left : List Nat}
    (h : compileChain source flags plan index inputs rest (op :: ops) = .ok (layers, last, left)) :
    ∃ outputs mid layer tail, takeOutputs plan index inputs rest op = .ok (outputs, mid) ∧
      Layer.ofOp op flags inputs outputs = .ok layer ∧
      compileChain source flags plan (index + 1) (channelsAfter op inputs outputs) mid ops
        = .ok (tail, last, left) ∧ layers = layer :: tail := by
  simp only [compileChain, bind_eq_ok, mapError_eq_ok, pure_eq_ok, Prod.exists, Prod.mk.injEq] at h
  obtain ⟨outputs, mid, htake, layer, hlayer, tail, last', left', htail, rfl, rfl, rfl⟩ := h
  exact ⟨outputs, mid, layer, tail, htake, hlayer, htail, rfl⟩

/-- The compilation follows the counts: it gives back what the layers make of the count in front of
them, and this is the last entry that the chain took of the plan, divided by four for every shuffle
behind. A chain that took an entry takes no other count. -/
theorem compileChain_channels {source : String} {flags : Flags} {plan : List Nat}
    {index inputs : Nat} {rest : List Nat} {ops : List Op} {layers : List Layer} {last : Nat}
    {left : List Nat}
    (h : compileChain source flags plan index inputs rest ops = .ok (layers, last, left)) :
    Layer.chainChannels? layers inputs = some last ∧
      ∃ used, rest = used ++ left ∧
        (∀ k, last * 4 ^ ops.foldl Op.shufflesBehind k = used.getLastD (inputs * 4 ^ k)) ∧
        (used ≠ [] → ∀ n m, Layer.chainChannels? layers n = some m → n = inputs) := by
  induction ops generalizing index inputs rest layers with
  | nil =>
    cases h
    exact ⟨rfl, [], rfl, fun _ => rfl, fun h => absurd rfl h⟩
  | cons op ops ih =>
    obtain ⟨outputs, mid, layer, tail, htake, hlayer, htail, rfl⟩ := compileChain_cons h
    obtain ⟨hfollows, used, hmid, hlast, hmeets⟩ := ih htail
    rcases takeOutputs_eq_ok htake with ⟨hkernel, rfl, rfl⟩ | ⟨kernel, hkernel, rfl⟩
    · have hhead := ofOp_channels (fun _ => rfl) hlayer
      refine ⟨?_, used, hmid, fun k => ?_, fun hused n m hn => ?_⟩
      · rw [Layer.chainChannels?_cons, hhead]
        exact hfollows
      · rw [List.foldl_cons, hlast, channelsAfter_of_kernel?_none hkernel hlayer]
      · rw [Layer.chainChannels?_cons, Option.bind_eq_some_iff] at hn
        obtain ⟨u, hu, hm⟩ := hn
        cases hmeets hused u m hm
        exact Layer.channels?_injective hu hhead
    · obtain ⟨hafter, hshuffles, honly⟩ := ofOp_of_kernel?_some hkernel hlayer
      have hhead := ofOp_channels (fun hnone => by rw [hkernel] at hnone; cases hnone) hlayer
      refine ⟨?_, outputs :: used, congrArg _ hmid, fun k => ?_, fun _ n m hn => ?_⟩
      · rw [Layer.chainChannels?_cons, hhead]
        exact hfollows
      · rw [List.foldl_cons, hshuffles, hlast, hafter, List.getLastD_cons, Nat.pow_zero,
          Nat.mul_one]
      · rw [Layer.chainChannels?_cons, Option.bind_eq_some_iff] at hn
        obtain ⟨u, hu, -⟩ := hn
        exact honly n u hu

end Block

end Midframe
