import Midframe.Proofs.Network.Entries
import Midframe.Proofs.Pyramid.Presence

/-!
# Kernels of built networks

Nothing compares the taps of the kernels with the border that the frames get before they are
filtered. It is not necessary: a kernel has an odd number of taps, a head that ends in a shuffle
cannot give that many channels, so the heads of every built network give as many channels as the
border was made for. Nor can the value that the heads start from be absent, since every level of a
built network has channels: the encoder leaves a value at level 1, and the decoder keeps it. What is
left to compare are the rows and columns of the kernels.
-/

namespace Midframe

/-! ## Faults around the pyramids -/

namespace Tensor

variable {α : Type} [Scalar α]

theorem concatChannels_faults (parts : List (Tensor α)) :
    FailsWith Fault.IsOfArrays (concatChannels parts) := by
  cases parts with
  | nil => exact .error trivial
  | cons first rest =>
    simp only [concatChannels]
    split
    · exact .ok _
    · exact .error trivial

theorem synthesisFrame_faults (t : Tensor α) (kernelSize : Nat) :
    FailsWith Fault.IsOfArrays (t.synthesisFrame kernelSize) :=
  (concatChannels_faults _).bind fun withOnes => withOnes.pad_faults _ .replicate

theorem normalizePair_faults (one two : Tensor Float32) :
    FailsWith Fault.IsOfArrays (normalizePair one two) := by
  rw [normalizePair, normalizePairBy_eq]
  split
  · exact .error trivial
  · exact .ok _

theorem separableFilter_faults (t vertical horizontal : Tensor α) :
    FailsWith Fault.IsOfArrays (t.separableFilter vertical horizontal) := by
  simp only [separableFilter]
  split
  · exact .error trivial
  · split
    · exact .error trivial
    · exact .ok _

theorem divideByNormalizer_faults (t : Tensor α) :
    FailsWith Fault.IsOfArrays t.divideByNormalizer := by
  simp only [divideByNormalizer]
  split
  · exact .error trivial
  · exact .ok _

end Tensor

theorem Heads.traverse_faults {α β : Type} {P : Fault → Prop} {f : String → α → Except Fault β}
    (hf : ∀ name a, FailsWith P (f name a)) (h : Heads α) : FailsWith P (h.traverse f) := by
  refine (hf _ _).bind fun verticalOne => (hf _ _).bind fun horizontalOne => ?_
  refine (hf _ _).bind fun verticalTwo => (hf _ _).bind fun horizontalTwo => ?_
  exact .ok _

namespace Network

theorem checkFrames_faults (one two : Shape) :
    FailsWith Fault.IsOfArrays (checkFrames one two) := by
  unfold checkFrames
  split
  · exact .error trivial
  · split
    · exact .error trivial
    · split
      · exact .error trivial
      · exact .ok ()

theorem features_faults (net : Network) (one two : Tensor Float32) :
    FailsWith Fault.IsOfArrays (net.features one two) := by
  have hinput (x : Tensor Float32) : FailsWith Fault.IsOfArrays (net.input.forward x) :=
    x.convolve_faults net.input.weight _ net.input.windows
  refine (Tensor.normalizePair_faults one two).bind fun p => ?_
  exact (hinput p.1).bind fun x => (hinput p.2).bind fun y => Tensor.concatChannels_faults [x, y]

theorem synthesize_faults {α : Type} [Scalar α] (one two : Tensor α) (kernels : Heads (Tensor α)) :
    FailsWith Fault.IsOfArrays (synthesize one two kernels) := by
  refine (Tensor.separableFilter_faults one _ _).bind fun a => ?_
  refine (Tensor.separableFilter_faults two _ _).bind fun b => ?_
  exact (a.add_faults b).bind fun c => c.divideByNormalizer_faults

variable {config : Config} {net : Network}

/-! ## The value of level 1 -/

/-- The second level of a pyramid whose levels have channels is there, and the one of an encoder has
a vertical block. -/
theorem exists_second_levels (hbuild : build config = .ok net) :
    (∃ l, net.encoder.levels[1]? = some l ∧ l.vertical.isSome = true) ∧
      ∃ m, net.decoder.levels[1]? = some m := by
  obtain ⟨hvalid, -, -, hencoder, hdecoder, -⟩ := build_eq_ok hbuild
  obtain ⟨hlevels, hnonzero, -, -⟩ := Config.isValid_of_validate hvalid
  have hencoder := Pyramid.IsBuilt.of_build hencoder
  have hdecoder := Pyramid.IsBuilt.of_build hdecoder
  have hchannels (i : Nat) (hi : i < 2) : config.channels[i]?.getD 0 ≠ 0 := by
    have hlt : i < config.channels.length := by omega
    rw [List.getElem?_eq_getElem hlt]
    exact hnonzero _ (List.getElem_mem hlt)
  have hl : 1 < net.encoder.levels.length := hencoder.length ▸ hlevels
  have hm : 1 < net.decoder.levels.length := by
    rw [hdecoder.length, List.length_set]
    exact hlevels
  have hsecond := List.getElem?_eq_getElem hl
  refine ⟨⟨_, hsecond, (hencoder.vertical_isSome hsecond).mpr ⟨?_, hchannels 1 (by omega)⟩⟩,
    _, List.getElem?_eq_getElem hm⟩
  rw [Direction.neighbourChannels_of_neighbour (Direction.neighbour?_fineToCoarse 0 _)]
  exact hchannels 0 (by omega)

/-- Behind both pyramids, the value that the heads start from is there. -/
theorem exists_coarse (hbuild : build config = .ok net) {τ : Type} [Flow τ]
    {inputs encoded decoded : List (Option τ)} {table : ShapeTable}
    (hencode : net.encoder.encode inputs Keyed.empty = (.ok encoded, table))
    (hdecode : net.decoder.decode encoded table = .ok decoded) :
    ∃ coarse, coarseValue decoded = .ok coarse := by
  obtain ⟨⟨l, hl, hvertical⟩, m, hm⟩ := exists_second_levels hbuild
  obtain ⟨v, hv⟩ := Pyramid.exists_encoded hencode hl (.inl hvertical)
  obtain ⟨w, hw⟩ := Pyramid.exists_decoded hdecode hm (.inr (by rw [hv]; rfl))
  refine ⟨w, ?_⟩
  unfold coarseValue
  rw [hw]
  rfl

/-- What starts from level 1 behind both pyramids is reached with a value there. -/
theorem pyramids_faults (hbuild : build config = .ok net) {τ β : Type} [Flow τ] [LevelFreeFlow τ]
    {inputs : List (Option τ)} {result : Except Fault (List (Option τ))} {table : ShapeTable}
    (hencode : net.encoder.encode inputs Keyed.empty = (result, table))
    {f : List (Option τ) → List (Option τ) → τ → Except Fault β}
    (hf : ∀ encoded decoded coarse, FailsWith Fault.IsOfPasses (f encoded decoded coarse)) :
    FailsWith Fault.IsOfPasses (do
      let encoded ← result
      let decoded ← net.decoder.decode encoded table
      let coarse ← coarseValue decoded
      f encoded decoded coarse) := by
  have hencoder := Pyramid.encode_faults net.encoder inputs Keyed.empty
  rw [hencode] at hencoder
  refine hencoder.bind_of_ok fun encoded hencoded => ?_
  obtain rfl : result = .ok encoded := hencoded
  refine (Pyramid.decode_faults net.decoder encoded table).bind_of_ok fun decoded hdecode => ?_
  obtain ⟨coarse, hcoarse⟩ := exists_coarse hbuild hencode hdecode
  rw [hcoarse]
  exact hf encoded decoded coarse

/-- A pass of a built network fails for its arrays, or for a contribution that cannot be fitted. -/
theorem forward_faults (hbuild : build config = .ok net) (one two : Tensor Float32) :
    FailsWith Fault.IsOfPasses (net.forward one two) := by
  have harrays {β : Type} {x : Except Fault β} (h : FailsWith Fault.IsOfArrays x) :
      FailsWith Fault.IsOfPasses x := h.mono fun _ => Fault.IsOfArrays.isOfPasses
  refine (harrays (checkFrames_faults one.shape two.shape)).bind fun _ => ?_
  refine (harrays (one.synthesisFrame_faults _)).bind fun framedOne => ?_
  refine (harrays (two.synthesisFrame_faults _)).bind fun framedTwo => ?_
  refine (harrays (net.features_faults one two)).bind fun features => ?_
  cases hencode : net.encoder.encode (net.encoderInputs features) Keyed.empty with
  | mk result table =>
    refine pyramids_faults hbuild hencode fun _ _ coarse => ?_
    refine (harrays (net.heads.traverse_faults fun _ b => b.forward_faults coarse)).bind
      fun kernels => ?_
    exact harrays (synthesize_faults framedOne framedTwo kernels)

/-- A plan of a built network fails for the same reasons. -/
theorem plan_faults (hbuild : build config = .ok net) (height width : Nat) :
    FailsWith Fault.IsOfPasses (net.plan height width) := by
  have hcheck := checkFrames_faults ⟨1, 3, height, width⟩ ⟨1, 3, height, width⟩
  refine (hcheck.mono fun _ => Fault.IsOfArrays.isOfPasses).bind fun _ => ?_
  dsimp only
  cases hencode : net.encoder.encode
      (net.encoderInputs (⟨1, 2 * net.input.outputs, height, width⟩ : Shape)) Keyed.empty with
  | mk result table =>
    refine pyramids_faults hbuild hencode fun _ _ coarse => ?_
    have hheads := net.heads.verticalOne.outputShape_faults coarse
    refine (hheads.mono fun _ => Fault.IsOfArrays.isOfPasses).bind fun kernels => ?_
    split
    · exact .error trivial
    · exact .ok _

/-! ## Taps -/

/-- The entries of the kernels are those of the frames. -/
theorem kernels_batch (net : Network) {one two x : Tensor Float32} (alike : two.shape = one.shape)
    (pos : 0 < one.shape.batch) (hfeatures : net.features one two = .ok x)
    {encoded decoded : List (Option (Tensor Float32))} {table : ShapeTable}
    (hencode : net.encoder.encode (net.encoderInputs x) Keyed.empty = (.ok encoded, table))
    (hdecode : net.decoder.decode encoded table = .ok decoded) {coarse : Tensor Float32}
    (hcoarse : coarseValue decoded = .ok coarse) {kernels : Heads (Tensor Float32)}
    (hkernels : net.heads.traverse (fun _ block => block.forward coarse) = .ok kernels) :
    kernels.Forall fun k => k.shape.batch = one.shape.batch := by
  -- Every stage is an entry wide for every entry of the frames, so one entry tells the batch.
  have hone := Tensor.isEntry_entry one 0
  have htwo := Tensor.isEntry_entry two 0
  rw [alike] at htwo
  obtain ⟨x', -, hx⟩ := (hfeatures ▸ net.features_entry pos hone htwo).exists_of_ok
  have hempty : ShapeTable.IsEntry Keyed.empty Keyed.empty := fun _ => rfl
  obtain ⟨hencoded, htable⟩ :=
    Pyramid.encode_entry pos net.encoder hempty (net.encoderInputs_entry hx)
  rw [hencode] at hencoded htable
  obtain ⟨encoded', -, hencoded⟩ := hencoded.exists_of_ok
  obtain ⟨decoded', -, hdecoded⟩ :=
    (hdecode ▸ Pyramid.decode_entry pos net.decoder htable hencoded).exists_of_ok
  obtain ⟨coarse', -, hcoarse⟩ := (hcoarse ▸ coarseValue_entry hdecoded).exists_of_ok
  obtain ⟨kernels', -, halike⟩ := (hkernels ▸ heads_entry pos net.heads hcoarse).exists_of_ok
  exact ⟨halike.verticalOne.batch, halike.horizontalOne.batch, halike.verticalTwo.batch,
    halike.horizontalTwo.batch⟩

/-- Every kernel has as many taps as the heads give channels. -/
theorem IsSound.kernels_channels (sound : net.IsSound) {coarse : Tensor Float32}
    {kernels : Heads (Tensor Float32)}
    (h : net.heads.traverse (fun _ block => block.forward coarse) = .ok kernels) :
    kernels.Forall fun k => k.shape.channels = net.config.kernelSize := by
  refine sound.heads.of_traverse h fun _ b k hb hk => ?_
  obtain ⟨_, hmaps⟩ := hb.maps
  exact (hmaps.forward coarse k hk).2

/-- Behind a border of half a kernel on every side, a kernel fits around every position. -/
theorem IsSound.synthesisFrame_shape (sound : net.IsSound) {t : Tensor Float32}
    (spatial : t.shape.IsSpatial) :
    ∃ framed, t.synthesisFrame net.config.kernelSize = .ok framed ∧
      framed.shape = ⟨t.shape.batch, t.shape.channels + 1,
        t.shape.height + (net.config.kernelSize - 1),
        t.shape.width + (net.config.kernelSize - 1)⟩ := by
  have hodd := sound.odd
  obtain ⟨framed, hframed, hshape⟩ := map_eq_ok.mp
    (Tensor.synthesisFrame_shape spatial net.config.kernelSize)
  refine ⟨framed, hframed, hshape.trans ?_⟩
  simp only [Shape.mk.injEq, true_and]
  omega

/-- Kernels with the rows and columns of the frames are all that a pass needs. -/
theorem IsSound.forward_of_kernels (sound : net.IsSound) {one two x : Tensor Float32}
    (hcheck : checkFrames one.shape two.shape = .ok ()) (hfeatures : net.features one two = .ok x)
    {encoded decoded : List (Option (Tensor Float32))} {table : ShapeTable}
    (hencode : net.encoder.encode (net.encoderInputs x) Keyed.empty = (.ok encoded, table))
    (hdecode : net.decoder.decode encoded table = .ok decoded) {coarse : Tensor Float32}
    (hcoarse : coarseValue decoded = .ok coarse) {kernels : Heads (Tensor Float32)}
    (hkernels : net.heads.traverse (fun _ block => block.forward coarse) = .ok kernels)
    (covers : kernels.Forall fun k =>
      k.shape.height = one.shape.height ∧ k.shape.width = one.shape.width) :
    ∃ y, net.forward one two = .ok y ∧ y.shape = one.shape := by
  obtain ⟨alike, -, pos, -⟩ := checkFrames_eq_ok.mp hcheck
  have hbatch := net.kernels_batch alike pos hfeatures hencode hdecode hcoarse hkernels
  have htaps := sound.kernels_channels hkernels
  have halike : kernels.Forall fun k => k.shape
      = ⟨one.shape.batch, net.config.kernelSize, one.shape.height, one.shape.width⟩ := by
    refine (hbatch.and (htaps.and covers)).mono fun k ⟨hb, hc, hh, hw⟩ => ?_
    rw [← hb, ← hc, ← hh, ← hw]
  have hpair := isPair_of_checkFrames hcheck
  obtain ⟨framedOne, framedTwo, y, hframedOne, hframedTwo, hy, hys⟩ :=
    (synthesize_framed (k := ⟨one.shape.batch, _, one.shape.height, one.shape.width⟩) sound hpair
      rfl rfl halike one.shape).mpr ⟨rfl, rfl, rfl⟩
  refine ⟨y, forward_eq_ok.mpr ⟨hcheck, ⟨x, encoded, table, decoded, coarse, kernels, y⟩, ?_, rfl⟩,
    hys⟩
  exact ⟨hfeatures, hencode, hdecode, hcoarse, hkernels, framedOne, framedTwo, hframedOne,
    hframedTwo, hy⟩

/-- The heads of a built network give as many channels as a kernel has taps. Over every pair of
frames that it takes, the border of the prepared frames leaves room for exactly that many taps, and
behind both pyramids there is a value for the heads to start from; the kernels have the entries of
the frames and the taps that there is room for, so the pass succeeds with the shape of the frames if
the kernels have their rows and columns. Neither a pass nor a plan ever misses the value of
level 1. -/
theorem kernels_fit_frames (hbuild : build config = .ok net) :
    (net.heads.Forall fun b => b.outputs = config.kernelSize) ∧
    (∀ (n height width : Nat) (one two : Tensor Float32), one.shape = ⟨n, 3, height, width⟩ →
      two.shape = ⟨n, 3, height, width⟩ → checkFrames one.shape two.shape = .ok () →
      ∃ framedOne framedTwo x, one.synthesisFrame config.kernelSize = .ok framedOne ∧
        two.synthesisFrame config.kernelSize = .ok framedTwo ∧
        framedOne.shape
          = ⟨n, 4, height + (config.kernelSize - 1), width + (config.kernelSize - 1)⟩ ∧
        framedTwo.shape = framedOne.shape ∧ net.features one two = .ok x ∧
        ∀ encoded table decoded,
          net.encoder.encode (net.encoderInputs x) Keyed.empty = (.ok encoded, table) →
          net.decoder.decode encoded table = .ok decoded →
          ∃ coarse, coarseValue decoded = .ok coarse ∧
            ∀ kernels, net.heads.traverse (fun _ block => block.forward coarse) = .ok kernels →
              (kernels.Forall fun k => k.shape.batch = n ∧ k.shape.channels = config.kernelSize) ∧
              ((kernels.Forall fun k => k.shape.height = height ∧ k.shape.width = width) →
                ∃ y, net.forward one two = .ok y ∧ y.shape = ⟨n, 3, height, width⟩)) ∧
    (∀ one two, net.forward one two ≠ .error (.invalid .noCoarseLevel)) ∧
    ∀ height width, net.plan height width ≠ .error (.invalid .noCoarseLevel) := by
  have sound := build_isSound hbuild
  obtain ⟨-, rfl, -⟩ := build_eq_ok hbuild
  refine ⟨?_, ?_, ?_, ?_⟩
  · refine sound.heads.mono fun b hb => ?_
    obtain ⟨_, hmaps⟩ := hb.maps
    exact hmaps.outputs_eq
  · intro n height width one two hone htwo hcheck
    obtain ⟨alike, channels, pos, spatial, -⟩ := checkFrames_eq_ok.mp hcheck
    obtain ⟨framedOne, hframedOne, hshapeOne⟩ := sound.synthesisFrame_shape spatial
    obtain ⟨framedTwo, hframedTwo, hshapeTwo⟩ := sound.synthesisFrame_shape (alike ▸ spatial)
    obtain ⟨x, hfeatures, -⟩ := map_eq_ok.mp (features_shape sound alike.symm channels spatial)
    refine ⟨framedOne, framedTwo, x, hframedOne, hframedTwo, ?_, ?_, hfeatures, ?_⟩
    · rw [hshapeOne, hone]
    · rw [hshapeOne, hshapeTwo, alike]
    · intro encoded table decoded hencode hdecode
      obtain ⟨coarse, hcoarse⟩ := exists_coarse hbuild hencode hdecode
      refine ⟨coarse, hcoarse, fun kernels hkernels => ⟨?_, fun covers => ?_⟩⟩
      · have hbatch := net.kernels_batch alike pos hfeatures hencode hdecode hcoarse hkernels
        have htaps := sound.kernels_channels hkernels
        rw [hone] at hbatch
        exact hbatch.and htaps
      · rw [← hone]
        exact sound.forward_of_kernels hcheck hfeatures hencode hdecode hcoarse hkernels
          (by rwa [hone])
  · intro one two h
    exact forward_faults hbuild one two _ h
  · intro height width h
    exact plan_faults hbuild height width _ h

/-- Kernels of three taps over two rows and two columns. -/
theorem kernels_fit_frames_three : ∃ (net : Network) (st : Stages) (y : Tensor Float32),
    build { pointwise with kernelSize := 3 } = .ok net ∧
    (net.heads.Forall fun b => b.outputs = 3) ∧
    st.IsPass net (.replicate ⟨1, 3, 2, 2⟩ Scalar.zero) (.replicate ⟨1, 3, 2, 2⟩ Scalar.one) ∧
    (st.kernels.Forall fun k => k.shape.batch = 1 ∧ k.shape.channels = 3) ∧
    net.forward (.replicate ⟨1, 3, 2, 2⟩ Scalar.zero) (.replicate ⟨1, 3, 2, 2⟩ Scalar.one) = .ok y ∧
    y.shape = ⟨1, 3, 2, 2⟩ ∧ net.plan 2 2 ≠ .error (.invalid .noCoarseLevel) := by
  obtain ⟨net, hbuild, hrun⟩ := exists_eq_ok_of_map (show
      (build { pointwise with kernelSize := 3 }).toOption.map
      (fun net => ((net.forward (.replicate ⟨1, 3, 2, 2⟩ Scalar.zero)
          (.replicate ⟨1, 3, 2, 2⟩ Scalar.one)).isOk,
        decide (∀ a ∈ net.applications (net.featureShape ⟨1, 3, 2, 2⟩), a.IsExact)))
      = some (true, true) by decide +kernel)
  simp only [Prod.mk.injEq, decide_eq_true_eq] at hrun
  obtain ⟨z, hz⟩ := exists_eq_ok_of_isOk hrun.1
  obtain ⟨hcheck, st, hst, -⟩ := forward_eq_ok.mp hz
  obtain ⟨c, -, hheight, hwidth, -, hshapes⟩ :=
    hst.exists_course (build_isSound hbuild) (isPair_of_checkFrames hcheck) hrun.2
  obtain ⟨houtputs, hpass, -, hplan⟩ := kernels_fit_frames hbuild
  obtain ⟨_, _, x, -, -, -, -, hfeatures, hbehind⟩ := hpass 1 2 2 _ _ rfl rfl hcheck
  obtain rfl : st.features = x := Except.ok.inj (hst.features.symm.trans hfeatures)
  obtain ⟨coarse, hcoarse, hkernels⟩ := hbehind _ _ _ hst.encoder hst.decoder
  obtain rfl : st.coarse = coarse := Except.ok.inj (hst.coarse.symm.trans hcoarse)
  obtain ⟨hfit, hforward⟩ := hkernels _ hst.kernels
  obtain ⟨y, hy, hys⟩ := hforward (hshapes.kernels.mono fun k hk => by
    rw [hk]
    exact ⟨hheight, hwidth⟩)
  exact ⟨net, st, y, hbuild, houtputs, hst, hfit, hy, hys, hplan 2 2⟩

end Network

end Midframe
