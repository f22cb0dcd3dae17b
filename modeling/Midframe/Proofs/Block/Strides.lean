import Midframe.Proofs.Block.Centred
import Midframe.Proofs.Spec.Stride

/-!
# Blocks that change the resolution

The main chain of a block halves and doubles the extents one operation at a time, and every halving
rounds up; a shortcut scales them once by the reciprocal of the stride, and rounds down. The two
meet exactly if nothing is rounded at all: no strided convolution may be reached with an odd extent.
This is the only thing that can go wrong where kernels have a centre and are padded to it.
-/

namespace Midframe

namespace Op

/-- No strided convolution is reached with an odd extent. -/
def NeverRounds : List Op → Nat → Prop
  | [], _ => True
  | op :: ops, n => (op.isStrided = true → n % 2 = 0) ∧ NeverRounds ops (op.extent n)

/-- An operation leaves no less than its share of an extent, and nothing more exactly if it does not
round. -/
theorem extent_spec (op : Op) (n : Nat) :
    n * 2 ^ [op].countP isUpsampling ≤ op.extent n * 2 ^ [op].countP isStrided ∧
      (n * 2 ^ [op].countP isUpsampling = op.extent n * 2 ^ [op].countP isStrided ↔
        (op.isStrided = true → n % 2 = 0)) := by
  cases op with
  | sconv kernel border =>
    simp only [extent, isStrided, isUpsampling, List.countP_singleton, ↓reduceIte,
      Bool.false_eq_true, true_implies, Nat.pow_zero, Nat.pow_one]
    omega
  | _ => simp [extent, isStrided, isUpsampling]

/-- A chain leaves no less than its share of an extent, and nothing more exactly if it never
rounds. -/
theorem finalExtent_spec (ops : List Op) (n : Nat) :
    n * 2 ^ ops.countP isUpsampling ≤ finalExtent ops n * 2 ^ ops.countP isStrided ∧
      (n * 2 ^ ops.countP isUpsampling = finalExtent ops n * 2 ^ ops.countP isStrided ↔
        NeverRounds ops n) := by
  induction ops generalizing n with
  | nil => simp [finalExtent, NeverRounds]
  | cons op ops ih =>
    obtain ⟨hop, hop'⟩ := op.extent_spec n
    obtain ⟨hops, hops'⟩ := ih (op.extent n)
    have hup : n * 2 ^ (op :: ops).countP isUpsampling
        = n * 2 ^ [op].countP isUpsampling * 2 ^ ops.countP isUpsampling := by
      rw [← List.singleton_append, List.countP_append, Nat.pow_add, Nat.mul_assoc]
    have hstrided : finalExtent (op :: ops) n * 2 ^ (op :: ops).countP isStrided
        = finalExtent ops (op.extent n) * 2 ^ ops.countP isStrided * 2 ^ [op].countP isStrided := by
      rw [← List.singleton_append, List.countP_append, Nat.pow_add, Nat.mul_comm (2 ^ _),
        ← Nat.mul_assoc]
      rfl
    have hfirst := Nat.mul_le_mul_right (2 ^ ops.countP isUpsampling) hop
    have hsecond := Nat.mul_le_mul_right (2 ^ [op].countP isStrided) hops
    rw [Nat.mul_right_comm] at hsecond
    rw [hup, hstrided, NeverRounds, ← hop', ← hops']
    -- Both bounds multiply to the one for the whole chain, which is met only if both of them are.
    refine ⟨hfirst.trans hsecond, ⟨fun heq => ⟨?_, ?_⟩, ?_⟩⟩
    · exact Nat.eq_of_mul_eq_mul_right (Nat.two_pow_pos _)
        (Nat.le_antisymm hfirst (hsecond.trans heq.ge))
    · refine Nat.eq_of_mul_eq_mul_right (Nat.two_pow_pos ([op].countP isStrided)) ?_
      rw [Nat.mul_right_comm]
      exact Nat.le_antisymm hsecond (heq.ge.trans hfirst)
    · rintro ⟨heq, heq'⟩
      rw [heq, Nat.mul_right_comm, heq']

/-- What one scaling leaves of an extent, rounding down, is what a chain leaves exactly if it never
rounds. -/
theorem scaled_eq_finalExtent_iff (ops : List Op) (n : Nat) :
    n * 2 ^ ops.countP isUpsampling / 2 ^ ops.countP isStrided = finalExtent ops n ↔
      NeverRounds ops n := by
  obtain ⟨hle, heq⟩ := finalExtent_spec ops n
  rw [← heq]
  constructor
  · intro h
    refine Nat.le_antisymm hle ?_
    exact (Nat.le_div_iff_mul_le (Nat.two_pow_pos _)).mp h.ge
  · intro h
    rw [h, Nat.mul_div_cancel _ (Nat.two_pow_pos _)]

theorem neverRounds_of_countP_eq_zero {ops : List Op} (h : ops.countP isStrided = 0) (n : Nat) :
    NeverRounds ops n := by
  induction ops generalizing n with
  | nil => trivial
  | cons op ops ih =>
    rw [List.countP_cons, Nat.add_eq_zero_iff] at h
    refine ⟨fun hop => ?_, ih h.1 _⟩
    rw [if_pos hop] at h
    cases h.2

/-- From an even extent a chain with a single strided convolution never rounds. -/
theorem neverRounds_of_even {ops : List Op} (h : ops.countP isStrided ≤ 1) {n : Nat}
    (even : n % 2 = 0) : NeverRounds ops n := by
  induction ops generalizing n with
  | nil => trivial
  | cons op ops ih =>
    refine ⟨fun _ => even, ?_⟩
    rw [List.countP_cons] at h
    by_cases hop : op.isStrided = true
    · rw [if_pos hop] at h
      exact neverRounds_of_countP_eq_zero (by omega) _
    · refine ih (by omega) ?_
      cases op with
      | sconv kernel border => exact absurd rfl hop
      | up algorithm => exact Nat.mul_mod_left n 2
      | _ => exact even

end Op

/-! ## The main chain -/

namespace Layer

variable {flags : Flags} {ops : List Op} {layers : List Layer}

/-- A chain whose kernels have a centre leaves the extents that its operations do. -/
theorem chain_outputShape (h : List.Forall₂ (IsOf flags) ops layers)
    (odd : ∀ op ∈ ops, op.IsOdd) (padded : flags.noPad = false) {s : Shape} (spatial : s.IsSpatial)
    {m : Nat} (hm : chainChannels? layers s.channels = some m) :
    layers.foldlM (fun s (layer : Layer) => layer.outputShape s) s
      = .ok ⟨s.batch, m, Op.finalExtent ops s.height, Op.finalExtent ops s.width⟩ := by
  induction h generalizing s with
  | nil =>
    cases hm
    rfl
  | @cons op layer ops layers hlayer _ ih =>
    rw [chainChannels?_cons, Option.bind_eq_some_iff] at hm
    obtain ⟨n, hn, hm⟩ := hm
    rw [List.foldlM_cons, bind_eq_ok]
    exact ⟨_, hlayer.outputShape_eq (odd op List.mem_cons_self) padded spatial hn,
      ih (fun o ho => odd o (List.mem_cons_of_mem _ ho))
        ⟨op.extent_pos spatial.1, op.extent_pos spatial.2⟩ hm⟩

/-- Whether a chain rounds can be told from the shapes that its operations are reached with. -/
theorem neverRounds_iff (h : List.Forall₂ (IsOf flags) ops layers)
    (odd : ∀ op ∈ ops, op.IsOdd) (padded : flags.noPad = false) {s : Shape} (spatial : s.IsSpatial)
    {m : Nat} (hm : chainChannels? layers s.channels = some m) :
    (∀ p ∈ ops.zip (trail layers s), p.1.isStrided = true →
        p.2.height % 2 = 0 ∧ p.2.width % 2 = 0) ↔
      Op.NeverRounds ops s.height ∧ Op.NeverRounds ops s.width := by
  induction h generalizing s with
  | nil => simp [Op.NeverRounds]
  | @cons op layer ops layers hlayer _ ih =>
    rw [chainChannels?_cons, Option.bind_eq_some_iff] at hm
    obtain ⟨n, hn, hm⟩ := hm
    have hout := hlayer.outputShape_eq (odd op List.mem_cons_self) padded spatial hn
    have htail := ih (fun o ho => odd o (List.mem_cons_of_mem _ ho))
      (s := ⟨s.batch, n, op.extent s.height, op.extent s.width⟩)
      ⟨op.extent_pos spatial.1, op.extent_pos spatial.2⟩ hm
    simp only [trail, hout, List.zip_cons_cons, List.forall_mem_cons, htail, Op.NeverRounds]
    constructor
    · rintro ⟨hhead, hh, hw⟩
      exact ⟨⟨fun hop => (hhead hop).1, hh⟩, fun hop => (hhead hop).2, hw⟩
    · rintro ⟨⟨hheight, hh⟩, hwidth, hw⟩
      exact ⟨fun hop => ⟨hheight hop, hwidth hop⟩, hh, hw⟩

end Layer

/-! ## The shortcut -/

/-- A block adds a shortcut to a chain whose kernels have a centre and are padded to it, and changes
the resolution a moderate number of times. -/
structure BlockSpec.SkipsCentred (spec : BlockSpec) : Prop where
  /-- There is a shortcut. -/
  skip : spec.flags.skip = true
  /-- Convolutions pad their input. -/
  padded : spec.flags.noPad = false
  /-- Kernels have a centre. -/
  odd : ∀ op ∈ spec.ops, op.IsOdd
  /-- There are few strided convolutions. -/
  strided : spec.ops.countP Op.isStrided ≤ 1000
  /-- There are few upsamplings. -/
  upsampling : spec.ops.countP Op.isUpsampling ≤ 1000

theorem BlockSpec.SkipsCentred.isPower_stride {spec : BlockSpec} (h : spec.SkipsCentred) :
    IsPower spec.stride (Op.scale spec.ops) :=
  Op.isPower_strideProduct (Op.staysInRange_of_few h.strided h.upsampling)

/-- The shape that a shortcut gives, if the main chain makes nothing too large. -/
theorem Shortcut.projected_resampled {spec : BlockSpec} (h : spec.SkipsCentred)
    {inputs outputs : Nat} {bias : Bool} {sc : Shortcut}
    (hsc : sc.form = (ofPolicy (.select (inputs == outputs) (spec.stride == 1)) inputs outputs
      spec.stride bias).form)
    {s : Shape} (channels : s.channels = inputs) (exact : s.IsExact)
    (height : s.height * 2 ^ spec.ops.countP Op.isUpsampling
      ≤ 2 ^ 53 * 2 ^ spec.ops.countP Op.isStrided)
    (width : s.width * 2 ^ spec.ops.countP Op.isUpsampling
      ≤ 2 ^ 53 * 2 ^ spec.ops.countP Op.isStrided) :
    sc.projected (sc.resampled s) = ⟨s.batch, outputs,
      s.height * 2 ^ spec.ops.countP Op.isUpsampling / 2 ^ spec.ops.countP Op.isStrided,
      s.width * 2 ^ spec.ops.countP Op.isUpsampling / 2 ^ spec.ops.countP Op.isStrided⟩ := by
  rw [← projected_form, ← resampled_form, hsc, projected_form, resampled_form, resampled_ofPolicy]
  by_cases hunit : (spec.stride == 1) = true
  · obtain ⟨hcount, -⟩ := spec.stride_eq_one_iff.mp hunit
    rw [if_pos hunit, projected_ofPolicy channels, hcount, Nat.mul_div_cancel _ (Nat.two_pow_pos _),
      Nat.mul_div_cancel _ (Nat.two_pow_pos _)]
  · have hstrided := h.strided
    have hupsampling := h.upsampling
    have hscale : Op.scale spec.ops
        = spec.ops.countP Op.isStrided - spec.ops.countP Op.isUpsampling := rfl
    have hpower := h.isPower_stride.reciprocal (by omega) (by omega)
    rw [hscale, Int.neg_sub] at hpower
    rw [if_neg hunit, projected_ofPolicy (s := s.scaled _) channels]
    unfold Shape.scaled
    rw [scaledExtent_power hpower (by omega) exact.1 height,
      scaledExtent_power hpower (by omega) exact.2 width]
    rfl

namespace Block

theorem mem_of_mem_splitEvenize {ops : List Op} {op : Op} (h : op ∈ (splitEvenize ops).2.2) :
    op ∈ ops := by
  rcases splitEvenize_cases ops with ⟨border, rest, rfl, hsplit⟩ | hsplit
  · rw [hsplit] at h
    exact List.mem_cons_of_mem _ h
  · rwa [hsplit] at h

variable {b : Block} {spec : BlockSpec} {plan : List Nat} {s : Shape}

/-- The main chain of a block always leads to a shape, and the shortcut leads to the same one
exactly if no strided convolution is reached with an odd extent. -/
theorem IsCompiled.outputShape_eq (h : b.IsCompiled spec plan) (centred : spec.SkipsCentred)
    (channels : s.channels = b.inputs) (spatial : s.IsSpatial)
    (exact : ∀ u ∈ b.trail s, u.IsExact) :
    ∃ skip : Shape,
      let ops := (splitEvenize spec.ops).2.2
      let out : Shape := ⟨s.batch, b.outputs, Op.finalExtent ops (b.evenShape s).height,
        Op.finalExtent ops (b.evenShape s).width⟩
      (b.outputShape s = if skip = out then .ok out
        else .error (.shapeMismatch (.shortcutShape b.source out skip))) ∧
      (skip = out ↔ Op.NeverRounds ops (b.evenShape s).height ∧
        Op.NeverRounds ops (b.evenShape s).width) ∧
      ((∀ p ∈ b.reached s, p.1.isStrided = true → p.2.height % 2 = 0 ∧ p.2.width % 2 = 0) ↔
        Op.NeverRounds ops (b.evenShape s).height ∧ Op.NeverRounds ops (b.evenShape s).width) := by
  have hmain := h.main_isOf
  have hodd : ∀ op ∈ (splitEvenize spec.ops).2.2, op.IsOdd := fun op hop =>
    centred.odd op (mem_of_mem_splitEvenize hop)
  have hchannels : (b.evenShape s).channels = b.inputs := (b.evenShape_channels s).trans channels
  have hm : Layer.chainChannels? b.main (b.evenShape s).channels = some b.outputs :=
    hchannels ▸ h.main_channels
  have hspatial := b.evenShape_isSpatial spatial
  have hchain := Layer.chain_outputShape hmain hodd centred.padded hspatial hm
  have hup := countP_splitEvenize (p := Op.isUpsampling) (fun _ => rfl) spec.ops
  have hstrided := countP_splitEvenize (p := Op.isStrided) (fun _ => rfl) spec.ops
  -- The main chain leaves no less than the share that the shortcut leaves.
  have hfits {n : Nat} (hn : Op.finalExtent (splitEvenize spec.ops).2.2 n ≤ 2 ^ 53) :
      n * 2 ^ spec.ops.countP Op.isUpsampling ≤ 2 ^ 53 * 2 ^ spec.ops.countP Op.isStrided := by
    rw [← hup, ← hstrided]
    exact (Op.finalExtent_spec _ n).1.trans (Nat.mul_le_mul_right _ hn)
  have hlast := exact _ (Layer.end_mem_trail hchain)
  have hshortcut := h.shortcut_eq
  rw [if_pos centred.skip] at hshortcut
  obtain ⟨sc, hsc, hform⟩ := Option.map_eq_some_iff.mp hshortcut
  have hskip := Shortcut.projected_resampled centred hform hchannels
    (exact _ (Layer.start_mem_trail _ _)) (hfits hlast.1) (hfits hlast.2)
  rw [← hup, ← hstrided, b.evenShape_batch] at hskip
  rw [b.evenShape_batch] at hchain
  refine ⟨_, outputShape_of_chain hchain hsc, ?_, ?_⟩
  · rw [hskip]
    simp only [Shape.mk.injEq, true_and, Op.scaled_eq_finalExtent_iff]
  · rw [← Layer.neverRounds_iff hmain hodd centred.padded hspatial hm,
      h.forall_reached s fun op t => op.isStrided = true → t.height % 2 = 0 ∧ t.width % 2 = 0]
    exact and_iff_right fun _ _ hop => by cases hop

/-- What a chain that never rounds leaves is the share of the stride. -/
theorem finalExtent_eq_div {n : Nat} (h : Op.NeverRounds (splitEvenize spec.ops).2.2 n) :
    (Op.finalExtent (splitEvenize spec.ops).2.2 n : ℚ) = n / 2 ^ Op.scale spec.ops := by
  have heq := (Op.finalExtent_spec _ n).2.mpr h
  rw [countP_splitEvenize (p := Op.isUpsampling) (fun _ => rfl),
    countP_splitEvenize (p := Op.isStrided) (fun _ => rfl)] at heq
  rw [Op.scale, zpow_sub₀ (by norm_num), zpow_natCast, zpow_natCast, div_div_eq_mul_div,
    eq_div_iff (by positivity)]
  exact_mod_cast heq.symm

/-- Where a block adds a shortcut and its kernels have a centre and are padded to it, it gives a
shape exactly if no strided convolution is reached with an odd extent. The extents then are those
that the block starts from divided by its stride. A single rounding makes the shortcut impossible to
add, whatever the stride comes to in the end; behind `evenize` one strided convolution never
rounds. -/
theorem outputShape_isOk_iff_even (h : b.IsCompiled spec plan) (centred : spec.SkipsCentred)
    (channels : s.channels = b.inputs) (spatial : s.IsSpatial)
    (exact : ∀ u ∈ b.trail s, u.IsExact) :
    ((∃ t, b.outputShape s = .ok t) ↔ ∀ p ∈ b.reached s, p.1.isStrided = true →
      p.2.height % 2 = 0 ∧ p.2.width % 2 = 0) ∧
    (∀ t, b.outputShape s = .ok t → t.batch = s.batch ∧ t.channels = b.outputs ∧
      ∃ q : ℚ, exactValue b.stride = some q ∧ (t.height : ℚ) = (b.evenShape s).height / q ∧
        (t.width : ℚ) = (b.evenShape s).width / q) ∧
    (∀ p ∈ b.reached s, p.1.isStrided = true → ¬ (p.2.height % 2 = 0 ∧ p.2.width % 2 = 0) →
      ∃ out skip, b.outputShape s = .error (.shapeMismatch (.shortcutShape b.source out skip))) ∧
    (b.evenize.isSome = true → spec.ops.countP Op.isStrided ≤ 1 →
      ∃ t, b.outputShape s = .ok t) := by
  obtain ⟨skip, hshape, hskip, hreached⟩ := h.outputShape_eq centred channels spatial exact
  have hok {t : Shape} (ht : b.outputShape s = .ok t) :
      skip = ⟨s.batch, b.outputs, Op.finalExtent (splitEvenize spec.ops).2.2 (b.evenShape s).height,
        Op.finalExtent (splitEvenize spec.ops).2.2 (b.evenShape s).width⟩ ∧ t = skip := by
    rw [hshape] at ht
    split at ht
    · next heq =>
      cases ht
      exact ⟨heq, heq.symm⟩
    · cases ht
  refine ⟨?_, fun t ht => ?_, fun p hp hstrided hodd => ?_, fun heven hsingle => ?_⟩
  · rw [hreached, ← hskip]
    constructor
    · rintro ⟨t, ht⟩
      exact (hok ht).1
    · intro heq
      exact ⟨_, hshape.trans (if_pos heq)⟩
  · obtain ⟨heq, rfl⟩ := hok ht
    obtain ⟨hheight, hwidth⟩ := hskip.mp heq
    rw [heq]
    refine ⟨rfl, rfl, 2 ^ Op.scale spec.ops, ?_, finalExtent_eq_div hheight,
      finalExtent_eq_div hwidth⟩
    rw [h.stride_eq]
    exact exactValue_of_isPower centred.isPower_stride
  · refine ⟨_, skip, hshape.trans (if_neg fun heq => ?_)⟩
    exact hodd (hreached.mpr (hskip.mp heq) p hp hstrided)
  · refine ⟨_, hshape.trans (if_pos (hskip.mpr ?_))⟩
    rw [← countP_splitEvenize (p := Op.isStrided) (fun _ => rfl)] at hsingle
    have hshapeEven : (b.evenShape s).height % 2 = 0 ∧ (b.evenShape s).width % 2 = 0 := by
      rw [evenShape, if_pos heven]
      simp only [Shape.evenized, Shape.resized]
      omega
    exact ⟨Op.neverRounds_of_even hsingle hshapeEven.1, Op.neverRounds_of_even hsingle hshapeEven.2⟩

/-- Two rows and columns are halved and doubled again; three are not what they were. -/
theorem outputShape_isOk_iff_even_samples : ∃ b, ofText "sconv(3)-up(nearest)+skip" [1, 1] = .ok b ∧
    (∃ t, b.outputShape ⟨1, 1, 2, 2⟩ = .ok t) ∧
    ∃ out skip, b.outputShape ⟨1, 1, 3, 3⟩
      = .error (.shapeMismatch (.shortcutShape b.source out skip)) := by
  obtain ⟨b, hbuild, hrun⟩ := exists_eq_ok_of_map (show
      (ofText "sconv(3)-up(nearest)+skip" [1, 1]).toOption.map
      (fun (b : Block) => ((b.spec, b.inputs),
        decide (∀ s ∈ b.trail ⟨1, 1, 2, 2⟩, s.IsExact),
        decide (∀ s ∈ b.trail ⟨1, 1, 3, 3⟩, s.IsExact),
        decide (∀ p ∈ b.reached ⟨1, 1, 2, 2⟩, p.1.isStrided = true →
          p.2.height % 2 = 0 ∧ p.2.width % 2 = 0),
        decide (∃ p ∈ b.reached ⟨1, 1, 3, 3⟩, p.1.isStrided = true ∧
          ¬ (p.2.height % 2 = 0 ∧ p.2.width % 2 = 0))))
      = some ((⟨[.sconv 3 .zeros, .up .nearest], { skip := true }⟩, 1), true, true, true, true)
      by decide +kernel)
  simp only [Prod.mk.injEq, decide_eq_true_eq] at hrun
  obtain ⟨⟨hspec, hinputs⟩, hexact, hexact', heven, p, hp, hstrided, hodd⟩ := hrun
  have hcentred : b.spec.SkipsCentred := by
    rw [hspec]
    refine ⟨rfl, rfl, fun op hop => ?_, by decide, by decide⟩
    simp only [List.mem_cons, List.not_mem_nil, or_false] at hop
    rcases hop with rfl | rfl
    · intro kernel hkernel
      cases hkernel
      rfl
    · exact nofun
  have hcompiled := isCompiled_of_ofText hbuild
  have htwo := outputShape_isOk_iff_even hcompiled hcentred hinputs.symm (s := ⟨1, 1, 2, 2⟩)
    ⟨Nat.two_pos, Nat.two_pos⟩ hexact
  have hthree := outputShape_isOk_iff_even hcompiled hcentred hinputs.symm (s := ⟨1, 1, 3, 3⟩)
    ⟨Nat.succ_pos 2, Nat.succ_pos 2⟩ hexact'
  exact ⟨b, hbuild, htwo.1.mpr heven, hthree.2.2.1 p hp hstrided hodd⟩

end Block

end Midframe
