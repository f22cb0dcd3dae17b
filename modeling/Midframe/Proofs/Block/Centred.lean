import Midframe.Proofs.Block.Compiled
import Midframe.Proofs.Block.Mirror

/-!
# Centred blocks

A chain whose kernels have a centre and are padded to it changes the extents of a batch in a way
that can be read off its operations: a convolution keeps them, a strided one halves them rounding
up, and an upsampling doubles them. Its channels are those of the plan.
-/

namespace Midframe

namespace Op

/-- Kernels have a centre, channels are left as they are, and it is not the one that may only come
first. -/
def IsCentred : Op → Bool
  | .conv kernel _ | .sconv kernel _ => kernel % 2 == 1
  | .up .shuffle => false
  | .evenize _ => false
  | _ => true

/-- The kernel has a centre, if there is one. -/
def IsOdd (op : Op) : Prop := ∀ kernel, Block.kernel? op = some kernel → kernel % 2 = 1

theorem isOdd_of_isCentred {op : Op} (h : op.IsCentred = true) : op.IsOdd := by
  intro kernel hkernel
  cases op with
  | conv k border =>
    cases hkernel
    simpa [IsCentred] using h
  | sconv k border =>
    cases hkernel
    simpa [IsCentred] using h
  | _ => cases hkernel

theorem isEvenize_of_isCentred {op : Op} (h : op.IsCentred = true) : op.isEvenize = false := by
  cases op <;> first | rfl | cases h

theorem channelsAfter_of_isCentred {op : Op} (h : op.IsCentred = true) (inputs outputs : Nat) :
    Block.channelsAfter op inputs outputs = outputs := by
  cases op with
  | up algorithm => cases algorithm <;> first | rfl | cases h
  | _ => rfl

/-- No mirror image is taken. -/
def IsMirrorless : Op → Bool
  | .conv _ border | .sconv _ border | .evenize border => border != .reflect
  | _ => true

/-- The extent behind a centred operation. -/
def extent : Op → Nat → Nat
  | .sconv .., n => (n + 1) / 2
  | .up _, n => n * 2
  | _, n => n

theorem extent_pos (op : Op) {n : Nat} (h : 0 < n) : 0 < op.extent n := by
  cases op <;> simp only [extent] <;> omega

/-- The extents that centred operations meet, the last one included. -/
def extents : List Op → Nat → List Nat
  | [], n => [n]
  | op :: ops, n => n :: extents ops (op.extent n)

/-- The extent behind centred operations. -/
def finalExtent (ops : List Op) (n : Nat) : Nat := ops.foldl (fun n op => op.extent n) n

end Op

/-- Windows around every sample, or every second one. -/
theorem Windows.count?_centred {kernel n stride : Nat} (odd : kernel % 2 = 1) (pos : 0 < n)
    (border : Border) (advances : 0 < stride) :
    (⟨stride, (kernel - 1) / 2, border⟩ : Windows).count? n kernel
      = some ((n - 1) / stride + 1) := by
  have hpadded : n + 2 * ((kernel - 1) / 2) = n + kernel - 1 := by omega
  simp only [Windows.count?, hpadded]
  rw [if_neg (by simp; omega), show n + kernel - 1 - kernel = n - 1 by omega]

namespace Layer

/-- A compiled convolution with a centre. -/
theorem ofKernel_outputShape {kernel stride inputs outputs n height width : Nat} {border : Border}
    {flags : Flags} (odd : kernel % 2 = 1) (padded : flags.noPad = false) (advances : 0 < stride)
    (hheight : 0 < height) (hwidth : 0 < width) :
    (ofKernel kernel stride border flags inputs outputs).outputShape ⟨n, inputs, height, width⟩
      = .ok ⟨n, outputs, (height - 1) / stride + 1, (width - 1) / stride + 1⟩ := by
  refine Convolution.outputShape_eq_ok.mpr ⟨rfl, _, _, ?_, ?_, rfl⟩
  · simp only [padded]
    exact Windows.count?_centred odd hheight border advances
  · simp only [padded]
    exact Windows.count?_centred odd hwidth border advances

/-- A padded layer whose kernel has a centre changes the extents as its operation says, and gives
the channels that it makes of those it is reached with. -/
theorem IsOf.outputShape_eq {flags : Flags} {op : Op} {layer : Layer} (h : layer.IsOf flags op)
    (odd : op.IsOdd) (padded : flags.noPad = false) {s : Shape} (spatial : s.IsSpatial) {m : Nat}
    (hm : layer.channels? s.channels = some m) :
    layer.outputShape s = .ok ⟨s.batch, m, op.extent s.height, op.extent s.width⟩ := by
  obtain ⟨n, channels, height, width⟩ := s
  obtain ⟨hheight, hwidth⟩ : 0 < height ∧ 0 < width := spatial
  obtain ⟨heven, inputs, outputs, blank, hblank, hform⟩ := h
  rw [← channels?_form, hform, channels?_form] at hm
  rw [← outputShape_form, hform, outputShape_form]
  cases op with
  | evenize border => cases heven
  | conv kernel border =>
    cases hblank
    obtain ⟨rfl, rfl⟩ := Option.ite_some_none_eq_some.mp hm
    refine (ofKernel_outputShape (odd kernel rfl) padded Nat.one_pos hheight hwidth).trans ?_
    simp only [Op.extent, Nat.div_one, Nat.sub_add_cancel hheight, Nat.sub_add_cancel hwidth]
    rfl
  | sconv kernel border =>
    cases hblank
    obtain ⟨rfl, rfl⟩ := Option.ite_some_none_eq_some.mp hm
    refine (ofKernel_outputShape (odd kernel rfl) padded Nat.two_pos hheight hwidth).trans ?_
    refine congrArg Except.ok (congrArg₂ (Shape.mk n outputs) ?_ ?_)
    · simp only [Op.extent]
      omega
    · simp only [Op.extent]
      omega
  | up algorithm =>
    cases algorithm with
    | shuffle =>
      simp only [ofOp] at hblank
      split at hblank
      · cases hblank
      · cases hblank
        obtain ⟨hfour, rfl⟩ := Option.ite_some_none_eq_some.mp hm
        exact if_neg (by simpa using hfour)
    | _ =>
      cases hblank
      cases hm
      rfl
  | prelu slope =>
    cases hblank
    cases hm
    rfl

/-- What a centred operation is compiled to. -/
theorem ofOp_outputShape {op : Op} {flags : Flags} {inputs outputs n height width : Nat}
    {layer : Layer} (centred : op.IsCentred = true) (padded : flags.noPad = false)
    (keeps : Block.kernel? op = none → outputs = inputs) (hheight : 0 < height)
    (hwidth : 0 < width) (h : ofOp op flags inputs outputs = .ok layer) :
    layer.outputShape ⟨n, inputs, height, width⟩
      = .ok ⟨n, outputs, op.extent height, op.extent width⟩ := by
  have hisOf : layer.IsOf flags op :=
    ⟨Op.isEvenize_of_isCentred centred, inputs, outputs, layer, h, rfl⟩
  have hchannels := Block.ofOp_channels keeps h
  rw [Op.channelsAfter_of_isCentred centred] at hchannels
  exact hisOf.outputShape_eq (s := ⟨n, inputs, height, width⟩) (Op.isOdd_of_isCentred centred)
    padded ⟨hheight, hwidth⟩ hchannels

theorem ofOp_mirrorFits {op : Op} {flags : Flags} {inputs outputs : Nat} {layer : Layer}
    (mirrorless : op.IsMirrorless = true) (h : ofOp op flags inputs outputs = .ok layer)
    (s : Shape) : layer.MirrorFits s := by
  cases op with
  | evenize border =>
    cases h
    intro hborder
    simp [Op.IsMirrorless, hborder] at mirrorless
  | conv kernel border =>
    cases h
    intro hborder
    simp [Op.IsMirrorless, show border = .reflect from hborder] at mirrorless
  | sconv kernel border =>
    cases h
    intro hborder
    simp [Op.IsMirrorless, show border = .reflect from hborder] at mirrorless
  | up algorithm =>
    cases algorithm with
    | shuffle =>
      simp only [ofOp] at h
      split at h
      · cases h
      · cases h
        trivial
    | _ => cases h; trivial
  | prelu slope =>
    cases h
    trivial

end Layer

/-- What a chain of layers does to shapes of the given channels: it leaves `outputs` channels, its
extents are those that the operations are expected to meet, and so is its result. -/
structure Layer.Follows (layers : List Layer) (ops : List Op)
    (inputs outputs n height width : Nat) :
    Prop where
  /-- The result. -/
  result : layers.foldlM (fun s (layer : Layer) => layer.outputShape s) ⟨n, inputs, height, width⟩
    = .ok ⟨n, outputs, Op.finalExtent ops height, Op.finalExtent ops width⟩
  /-- The extents on the way. -/
  trail : ∀ s ∈ trail layers ⟨n, inputs, height, width⟩,
    s.height ∈ Op.extents ops height ∧ s.width ∈ Op.extents ops width
  /-- Without mirror images none is too large. -/
  mirrors : (∀ op ∈ ops, op.IsMirrorless = true) →
    ChainMirrorsFit layers ⟨n, inputs, height, width⟩

/-- A chain of centred operations. -/
theorem Block.compileChain_centred {source : String} {flags : Flags} {plan : List Nat}
    {index inputs : Nat} {rest : List Nat} {ops : List Op} {layers : List Layer} {last : Nat}
    {left : List Nat} (centred : ∀ op ∈ ops, op.IsCentred = true) (padded : flags.noPad = false)
    (h : compileChain source flags plan index inputs rest ops = .ok (layers, last, left)) :
    ∃ used, rest = used ++ left ∧ last = used.getLastD inputs ∧
      ∀ n height width, 0 < height → 0 < width →
        Layer.Follows layers ops inputs last n height width := by
  induction ops generalizing index inputs rest layers with
  | nil =>
    cases h
    refine ⟨[], rfl, rfl, fun n height width _ _ => ⟨rfl, fun s hs => ?_, fun _ => trivial⟩⟩
    obtain rfl := List.mem_singleton.mp hs
    exact ⟨List.mem_cons_self, List.mem_cons_self⟩
  | cons op ops ih =>
    obtain ⟨outputs, mid, layer, tail, htake, hlayer, htail, rfl⟩ := compileChain_cons h
    have hop := centred op List.mem_cons_self
    rw [Op.channelsAfter_of_isCentred hop] at htail
    obtain ⟨used, hmid, hlast, hfollows⟩ :=
      ih (fun o ho => centred o (List.mem_cons_of_mem _ ho)) htail
    -- Whether the operation takes an entry of the plan only matters for what is used of it.
    have hused : (Block.kernel? op = none → outputs = inputs) ∧
        ∃ used, rest = used ++ left ∧ last = used.getLastD inputs := by
      rcases takeOutputs_eq_ok htake with ⟨hkernel, rfl, rfl⟩ | ⟨kernel, hkernel, rfl⟩
      · exact ⟨fun _ => rfl, used, hmid, hlast⟩
      · refine ⟨fun hnone => absurd (hnone.symm.trans hkernel) (by simp), outputs :: used, ?_, ?_⟩
        · rw [hmid]
          rfl
        · rw [hlast, List.getLastD_cons]
    obtain ⟨hkeeps, used', hrest, hlast'⟩ := hused
    refine ⟨used', hrest, hlast', fun n height width hheight hwidth => ?_⟩
    have hout := Layer.ofOp_outputShape (n := n) hop padded hkeeps hheight hwidth hlayer
    obtain ⟨hresult, htrail, hmirrors⟩ :=
      hfollows n _ _ (op.extent_pos hheight) (op.extent_pos hwidth)
    refine ⟨?_, fun s hs => ?_, fun hmirrorless => ⟨?_, fun t ht => ?_⟩⟩
    · rw [List.foldlM_cons, bind_eq_ok]
      exact ⟨_, hout, hresult⟩
    · simp only [Layer.trail, hout, List.mem_cons] at hs
      rcases hs with rfl | hs
      · exact ⟨List.mem_cons_self, List.mem_cons_self⟩
      · obtain ⟨hh, hw⟩ := htrail s hs
        exact ⟨List.mem_cons_of_mem _ hh, List.mem_cons_of_mem _ hw⟩
    · exact Layer.ofOp_mirrorFits (hmirrorless op List.mem_cons_self) hlayer _
    · obtain rfl := Except.ok.inj (hout.symm.trans ht)
      exact hmirrors fun o ho => hmirrorless o (List.mem_cons_of_mem _ ho)

/-! ## Blocks -/

/-- All operations of a specification are centred, and a shortcut finds the extents as they were. -/
structure BlockSpec.IsCentred (spec : BlockSpec) : Prop where
  /-- The operations are centred. -/
  ops : ∀ op ∈ spec.ops, op.IsCentred = true
  /-- Convolutions pad their input. -/
  padded : spec.flags.noPad = false
  /-- Behind a shortcut the extents are kept. -/
  skip : spec.flags.skip = true → (spec.stride == 1) = true ∧ ∀ n, Op.finalExtent spec.ops n = n

theorem BlockSpec.IsCentred.splitEvenize {spec : BlockSpec} (h : spec.IsCentred) :
    Block.splitEvenize spec.ops = (none, 0, spec.ops) := by
  have hops := h.ops
  cases hspec : spec.ops with
  | nil => rfl
  | cons op ops =>
    rw [hspec] at hops
    have hop := hops op List.mem_cons_self
    cases op <;> first | rfl | cases hop

namespace Block

/-- What a block does to shapes of the channels it takes. -/
structure Follows (b : Block) (ops : List Op) (inputs outputs n height width : Nat) : Prop where
  /-- The result. -/
  result : b.outputShape ⟨n, inputs, height, width⟩
    = .ok ⟨n, outputs, Op.finalExtent ops height, Op.finalExtent ops width⟩
  /-- The extents on the way. -/
  trail : ∀ s ∈ b.trail ⟨n, inputs, height, width⟩,
    s.height ∈ Op.extents ops height ∧ s.width ∈ Op.extents ops width
  /-- Without mirror images none is too large. -/
  mirrors : (∀ op ∈ ops, op.IsMirrorless = true) → b.MirrorsFit ⟨n, inputs, height, width⟩

/-- A shortcut that scales nothing gives the channels of its block. -/
theorem shortcut_outputShape {spec : BlockSpec} {inputs outputs : Nat} {sc : Shortcut}
    (unit : (spec.stride == 1) = true)
    (h : compileShortcut spec inputs outputs = .ok (some sc)) (n height width : Nat) :
    sc.projected (sc.resampled ⟨n, inputs, height, width⟩) = ⟨n, outputs, height, width⟩ := by
  rw [compileShortcut_eq_ok h, unit, Shortcut.resampled_ofPolicy, if_pos rfl]
  exact Shortcut.projected_ofPolicy rfl

/-- A block compiled from a centred specification. -/
theorem compile_centred {source : String} {spec : BlockSpec} {inputs : Nat} {rest : List Nat}
    {b : Block} (centred : spec.IsCentred) (h : compile source spec (inputs :: rest) = .ok b)
    (n : Nat) {height width : Nat} (hheight : 0 < height) (hwidth : 0 < width) :
    b.Follows spec.ops inputs (rest.getLastD inputs) n height width := by
  obtain ⟨_, _, main, outputs, shortcut, hplan, hchain, hshortcut, rfl⟩ := compile_eq_ok h
  obtain ⟨rfl, rfl⟩ := List.cons.inj hplan
  rw [centred.splitEvenize] at hchain ⊢
  obtain ⟨used, hused, hlast, hfollows⟩ :=
    compileChain_centred centred.ops centred.padded hchain
  rw [List.append_nil] at hused
  subst hused hlast
  obtain ⟨hresult, htrail, hmirrors⟩ := hfollows n height width hheight hwidth
  refine ⟨(outputShape_eq_ok _ _ _).mpr ⟨hresult, fun sc hsc => ?_⟩, htrail,
    fun hmirrorless => ⟨by simp, hmirrors hmirrorless⟩⟩
  cases hsc
  have hskip : spec.flags.skip = true := by
    cases hflag : spec.flags.skip with
    | true => rfl
    | false => simp [compileShortcut, hflag] at hshortcut
  obtain ⟨hunit, hextent⟩ := centred.skip hskip
  rw [hextent, hextent]
  exact shortcut_outputShape hunit hshortcut n height width

end Block

end Midframe
