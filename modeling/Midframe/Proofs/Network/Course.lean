import Midframe.Proofs.Network.Extents

/-!
# The course of a pass

A pass of a network goes through stages: features, the values of the encoder, those of the decoder,
kernels and the result. Its course is what the stages do to shapes. A pass over two frames succeeds
exactly if its course does, the kernels cover the frames, and every mirror image that a block of the
course takes reaches far enough; the batches of its stages then have the shapes of the course.
-/

namespace Midframe

namespace Network

/-- The batches of every stage of a pass. -/
structure Stages where
  /-- The features of both frames. -/
  features : Tensor Float32
  /-- What the encoder leaves at every level. -/
  encoder : List (Option (Tensor Float32))
  /-- What it records. -/
  shapeTable : ShapeTable
  /-- What the decoder leaves at every level. -/
  decoder : List (Option (Tensor Float32))
  /-- The value that the heads start from. -/
  coarse : Tensor Float32
  /-- The kernels of the heads. -/
  kernels : Heads (Tensor Float32)
  /-- The result. -/
  output : Tensor Float32

/-- The stages are those of the pass of a network over two frames. -/
structure Stages.IsPass (st : Stages) (net : Network) (one two : Tensor Float32) : Prop where
  /-- The features are taken from the frames. -/
  features : net.features one two = .ok st.features
  /-- The encoder starts from the features. -/
  encoder : net.encoder.encode (net.encoderInputs st.features) Keyed.empty
    = (.ok st.encoder, st.shapeTable)
  /-- The decoder starts from what the encoder leaves. -/
  decoder : net.decoder.decode st.encoder st.shapeTable = .ok st.decoder
  /-- The heads start from level 1. -/
  coarse : coarseValue st.decoder = .ok st.coarse
  /-- Every head makes its kernels. -/
  kernels : net.heads.traverse (fun _ block => block.forward st.coarse) = .ok st.kernels
  /-- The result is synthesized. -/
  output : ∃ framedOne framedTwo, one.synthesisFrame net.config.kernelSize = .ok framedOne ∧
    two.synthesisFrame net.config.kernelSize = .ok framedTwo ∧
    synthesize framedOne framedTwo st.kernels = .ok st.output

/-- A pass succeeds exactly if the frames are taken and all stages do. -/
theorem forward_eq_ok {net : Network} {one two y : Tensor Float32} :
    net.forward one two = .ok y ↔ checkFrames one.shape two.shape = .ok () ∧
      ∃ st : Stages, st.IsPass net one two ∧ st.output = y := by
  simp only [forward, bind_eq_ok]
  constructor
  · rintro ⟨⟨⟩, hcheck, framedOne, hone, framedTwo, htwo, features, hfeatures, h⟩
    cases hencode : net.encoder.encode (net.encoderInputs features) Keyed.empty with
    | mk encoded table =>
      rw [hencode] at h
      simp only at h
      obtain ⟨encoder, rfl, decoder, hdecoder, coarse, hcoarse, kernels, hkernels, hy⟩ := h
      exact ⟨hcheck, ⟨features, encoder, table, decoder, coarse, kernels, y⟩,
        ⟨hfeatures, hencode, hdecoder, hcoarse, hkernels, framedOne, framedTwo, hone, htwo, hy⟩,
        rfl⟩
  · rintro ⟨hcheck, st, hst, rfl⟩
    obtain ⟨framedOne, framedTwo, hone, htwo, hy⟩ := hst.output
    refine ⟨(), hcheck, framedOne, hone, framedTwo, htwo, st.features, hst.features, ?_⟩
    rw [hst.encoder]
    simp only
    exact ⟨st.encoder, rfl, st.decoder, hst.decoder, st.coarse, hst.coarse, st.kernels,
      hst.kernels, hy⟩

/-! ## In shapes -/

/-- The shapes of a course behind the features. -/
structure Course where
  /-- What the encoder leaves at every level. -/
  encoder : List (Option Shape)
  /-- What it records. -/
  shapeTable : ShapeTable
  /-- What the decoder leaves at every level. -/
  decoder : List (Option Shape)
  /-- What the heads start from. -/
  coarse : Shape
  /-- The kernels of each head. -/
  kernels : Shape

/-- The course of a pass whose features have the given shape. -/
structure Course.IsCourse (c : Course) (net : Network) (features : Shape) : Prop where
  /-- The encoder starts from the features. -/
  encoder : net.encoder.encode (net.encoderInputs features) Keyed.empty
    = (.ok c.encoder, c.shapeTable)
  /-- The decoder starts from what the encoder leaves. -/
  decoder : net.decoder.decode c.encoder c.shapeTable = .ok c.decoder
  /-- The heads start from level 1. -/
  coarse : coarseValue c.decoder = .ok c.coarse
  /-- The kernels are those of the first head. -/
  kernels : net.heads.verticalOne.outputShape c.coarse = .ok c.kernels

/-- The shape of the features of frames of the given shape. -/
def featureShape (net : Network) (frame : Shape) : Shape :=
  ⟨frame.batch, 2 * net.input.outputs, frame.height, frame.width⟩

/-- The blocks that a pass applies, with the shapes it applies them to, as far as its course goes.
The four heads stand as one. -/
def applications (net : Network) (features : Shape) : List Application :=
  net.encoder.encoderApplications (net.encoderInputs features) ++
  match net.encoder.encode (net.encoderInputs features) Keyed.empty with
  | (.error _, _) => []
  | (.ok encoded, table) => net.decoder.decoderApplications encoded table ++
    match net.decoder.decode encoded table with
    | .error _ => []
    | .ok decoded => match coarseValue decoded with
      | .error _ => []
      | .ok coarse => [⟨net.heads.verticalOne, coarse⟩]

/-- The plan of a network is the course of a pass over one entry whose kernels cover the frames. -/
theorem plan_eq_ok {net : Network} {height width : Nat} {p : Plan} :
    net.plan height width = .ok p ↔
      checkFrames ⟨1, 3, height, width⟩ ⟨1, 3, height, width⟩ = .ok () ∧
      ∃ c : Course, c.IsCourse net (net.featureShape ⟨1, 3, height, width⟩) ∧
        c.kernels.height = height ∧ c.kernels.width = width ∧
        p = ⟨⟨1, 3, height, width⟩, net.featureShape ⟨1, 3, height, width⟩, c.encoder,
          c.shapeTable, c.decoder, c.kernels, ⟨1, 3, height, width⟩,
          total (net.inventory.map fun p => volume p.2)⟩ := by
  simp only [plan, bind_eq_ok]
  constructor
  · rintro ⟨⟨⟩, hcheck, h⟩
    cases hencode : net.encoder.encode
        (net.encoderInputs (net.featureShape ⟨1, 3, height, width⟩)) Keyed.empty with
    | mk encoded table =>
      simp only [featureShape] at hencode
      rw [hencode] at h
      simp only at h
      obtain ⟨encoder, rfl, decoder, hdecoder, coarse, hcoarse, kernels, hkernels, h⟩ := h
      split at h
      · cases h
      · next hcover =>
        simp only [Bool.or_eq_true, bne_iff_ne, ne_eq, not_or, Decidable.not_not] at hcover
        cases h
        exact ⟨hcheck, ⟨encoder, table, decoder, coarse, kernels⟩,
          ⟨hencode, hdecoder, hcoarse, hkernels⟩, hcover.1, hcover.2, rfl⟩
  · rintro ⟨hcheck, c, hc, hheight, hwidth, rfl⟩
    have hencode := hc.encoder
    simp only [featureShape] at hencode
    refine ⟨(), hcheck, ?_⟩
    rw [hencode]
    simp only
    refine ⟨c.encoder, rfl, c.decoder, hc.decoder, c.coarse, hc.coarse, c.kernels, hc.kernels, ?_⟩
    rw [if_neg (by simp [hheight, hwidth])]
    rfl

/-- A network has no more than one course from features of a shape. -/
theorem Course.IsCourse.applications_eq {net : Network} {features : Shape} {c : Course}
    (h : c.IsCourse net features) : net.applications features =
      net.encoder.encoderApplications (net.encoderInputs features) ++
        (net.decoder.decoderApplications c.encoder c.shapeTable ++
          [⟨net.heads.verticalOne, c.coarse⟩]) := by
  simp only [applications, h.encoder, h.decoder, h.coarse]

theorem shapesOf_encoderInputs (net : Network) (x : Tensor Float32) :
    shapesOf (net.encoderInputs x) = net.encoderInputs x.shape := by
  simp [encoderInputs]

theorem coarseValue_shape (decoded : List (Option (Tensor Float32))) (s : Shape) :
    (∃ x, coarseValue decoded = .ok x ∧ x.shape = s) ↔
      coarseValue (shapesOf decoded) = .ok s := by
  unfold coarseValue
  rw [show (shapesOf decoded)[1]?.join = decoded[1]?.join.map Tensor.shape by
    rw [List.getElem?_map]; cases decoded[1]? <;> rfl]
  cases decoded[1]?.join <;> simp

/-! ## The two together -/

/-- What a head makes of a batch is what the first one makes of its shape. -/
theorem head_shape {net : Network} {b : Block}
    (h : b.IsHead net.heads.verticalOne.form net.config.kernelSize) {x : Tensor Float32}
    (exact : Application.IsExact ⟨net.heads.verticalOne, x.shape⟩) (s : Shape) :
    (∃ y, b.forward x = .ok y ∧ y.shape = s) ↔
      net.heads.verticalOne.outputShape x.shape = .ok s ∧
        Application.Readable ⟨net.heads.verticalOne, x.shape⟩ := by
  have htrail : ∀ u ∈ b.trail x.shape, u.IsExact := by
    rw [← Block.trail_form, h.form_eq, Block.trail_form]
    exact exact
  have hforward := Block.forward_shape h.regular.isSound htrail s
  rw [map_eq_ok, ← Block.outputShape_form, ← Block.readable_form, h.form_eq,
    Block.outputShape_form, Block.readable_form] at hforward
  exact hforward

theorem heads_shape {net : Network} (sound : net.IsSound) {x : Tensor Float32}
    (exact : Application.IsExact ⟨net.heads.verticalOne, x.shape⟩) (s : Shape) :
    (∃ ks : Heads (Tensor Float32), net.heads.traverse (fun _ block => block.forward x) = .ok ks ∧
        ks.Forall fun k => k.shape = s) ↔
      net.heads.verticalOne.outputShape x.shape = .ok s ∧
        Application.Readable ⟨net.heads.verticalOne, x.shape⟩ := by
  constructor
  · rintro ⟨ks, hks, hshape⟩
    obtain ⟨hone, -⟩ := Heads.traverse_eq_ok.mp hks
    exact (head_shape sound.heads.verticalOne exact s).mp ⟨_, hone, hshape.verticalOne⟩
  · intro h
    obtain ⟨a, ha, has⟩ := (head_shape sound.heads.verticalOne exact s).mpr h
    obtain ⟨b, hb, hbs⟩ := (head_shape sound.heads.horizontalOne exact s).mpr h
    obtain ⟨c, hc, hcs⟩ := (head_shape sound.heads.verticalTwo exact s).mpr h
    obtain ⟨d, hd, hds⟩ := (head_shape sound.heads.horizontalTwo exact s).mpr h
    exact ⟨⟨a, b, c, d⟩, Heads.traverse_eq_ok.mpr ⟨ha, hb, hc, hd⟩, has, hbs, hcs, hds⟩

/-- The batches of the stages have the shapes of a course over frames of the given shape. -/
structure Stages.HasShapes (st : Stages) (net : Network) (frame : Shape) (c : Course) : Prop where
  /-- The features. -/
  features : st.features.shape = net.featureShape frame
  /-- The values of the encoder, level by level. -/
  encoder : shapesOf st.encoder = c.encoder
  /-- What it records. -/
  shapeTable : st.shapeTable = c.shapeTable
  /-- The values of the decoder, level by level. -/
  decoder : shapesOf st.decoder = c.decoder
  /-- What the heads start from. -/
  coarse : st.coarse.shape = c.coarse
  /-- All four kernels. -/
  kernels : st.kernels.Forall fun k => k.shape = c.kernels
  /-- The result. -/
  output : st.output.shape = frame

/-- The frames are a pair that a network takes, apart from the parity of their extents. -/
structure IsPair (one two : Tensor Float32) : Prop where
  /-- They have the same shape. -/
  alike : two.shape = one.shape
  /-- They have three channels. -/
  channels : one.shape.channels = 3
  /-- They have rows and columns. -/
  spatial : one.shape.IsSpatial

theorem checkFrames_eq_ok {one two : Shape} : checkFrames one two = .ok () ↔
    two = one ∧ one.channels = 3 ∧ 0 < one.batch ∧ one.IsSpatial ∧ one.height % 2 = 0 ∧
      one.width % 2 = 0 := by
  unfold checkFrames Shape.IsSpatial
  by_cases halike : one = two
  · by_cases hchannels : one.channels = 3
    · have hempty : one.isEmpty = true ↔ one.batch = 0 ∨ one.height = 0 ∨ one.width = 0 := by
        simp [Shape.isEmpty, Shape.size, hchannels, or_assoc]
      by_cases hbad : one.isEmpty = true ∨ one.height % 2 ≠ 0 ∨ one.width % 2 ≠ 0
      · rw [if_neg (by simpa using halike), if_neg (by simpa using hchannels),
          if_pos (by simpa [or_assoc] using hbad)]
        rw [hempty] at hbad
        constructor
        · intro h
          cases h
        · intro h
          omega
      · rw [if_neg (by simpa using halike), if_neg (by simpa using hchannels),
          if_neg (by simpa [or_assoc] using hbad)]
        rw [hempty] at hbad
        constructor
        · intro _
          refine ⟨halike.symm, hchannels, ?_⟩
          omega
        · intro _
          rfl
    · rw [if_neg (by simpa using halike), if_pos (by simpa using hchannels)]
      constructor
      · intro h
        cases h
      · rintro ⟨-, h, -⟩
        exact absurd h hchannels
  · rw [if_pos (by simpa using halike)]
    constructor
    · intro h
      cases h
    · rintro ⟨h, -⟩
      exact absurd h.symm halike

theorem isPair_of_checkFrames {one two : Tensor Float32}
    (h : checkFrames one.shape two.shape = .ok ()) : IsPair one two := by
  obtain ⟨halike, hchannels, -, hspatial, -⟩ := checkFrames_eq_ok.mp h
  exact ⟨halike, hchannels, hspatial⟩

section Pass

variable {net : Network} {one two : Tensor Float32}

/-- Kernels that are as long as the configuration says fit prepared frames exactly if they cover the
frames themselves. -/
theorem synthesize_framed (sound : net.IsSound) (pair : IsPair one two) {k : Shape}
    (taps : k.channels = net.config.kernelSize) (batch : k.batch = one.shape.batch)
    {kernels : Heads (Tensor Float32)} (alike : kernels.Forall fun t => t.shape = k) (s : Shape) :
    (∃ framedOne framedTwo y, one.synthesisFrame net.config.kernelSize = .ok framedOne ∧
        two.synthesisFrame net.config.kernelSize = .ok framedTwo ∧
        synthesize framedOne framedTwo kernels = .ok y ∧ y.shape = s) ↔
      k.height = one.shape.height ∧ k.width = one.shape.width ∧ one.shape = s := by
  have hodd := sound.odd
  have hframe : one.shape = ⟨one.shape.batch, 3, one.shape.height, one.shape.width⟩ := by
    rw [← pair.channels]
  obtain ⟨f, hf, hfs⟩ := map_eq_ok.mp
    (Tensor.synthesisFrame_shape pair.spatial net.config.kernelSize)
  obtain ⟨g, hg, hgs⟩ := map_eq_ok.mp (Tensor.synthesisFrame_shape
    (t := two) (pair.alike ▸ pair.spatial) net.config.kernelSize)
  have halike : g.shape = f.shape := by rw [hfs, hgs, pair.alike]
  have hsynth := synthesize_shape halike alike s
  simp only [map_eq_ok, hfs, taps, batch, pair.channels] at hsynth
  have houter : (∃ framedOne framedTwo y, one.synthesisFrame net.config.kernelSize = .ok framedOne ∧
        two.synthesisFrame net.config.kernelSize = .ok framedTwo ∧
        synthesize framedOne framedTwo kernels = .ok y ∧ y.shape = s) ↔
      ∃ y, synthesize f g kernels = .ok y ∧ y.shape = s := by
    rw [hf, hg]
    simp
  rw [houter, hsynth]
  constructor
  · rintro ⟨-, -, hheight, hwidth, -, rfl⟩
    have hh : k.height = one.shape.height := by omega
    have hw : k.width = one.shape.width := by omega
    refine ⟨hh, hw, ?_⟩
    rw [hh, hw]
    exact hframe
  · rintro ⟨hh, hw, rfl⟩
    refine ⟨by omega, trivial, by omega, by omega, by omega, ?_⟩
    rw [hh, hw]
    exact hframe.symm

/-- What holds of a course over frames of `n` entries. -/
theorem Course.IsCourse.proper (sound : net.IsSound) {c : Course} {features : Shape} {n : Nat}
    (filled : features.IsBatchOf n) (hc : c.IsCourse net features) :
    (∀ a ∈ net.applications features, a.IsProper) ∧ c.kernels.batch = n ∧
      c.kernels.channels = net.config.kernelSize := by
  have hinputs : ∀ v ∈ net.encoderInputs features, ∀ s ∈ v, s.IsBatchOf n := by
    simp only [encoderInputs, List.mem_cons, List.mem_replicate]
    rintro v (rfl | ⟨-, rfl⟩) s hs
    · cases hs
      exact filled
    · cases hs
  have hempty : ShapeTable.IsSpatial Keyed.empty := by
    intro e he
    cases he
  obtain ⟨hencoder, hencoded, htable⟩ :=
    Pyramid.encode_isBatchOf sound.encoder hinputs hempty hc.encoder
  obtain ⟨hdecoder, hdecoded⟩ := Pyramid.decode_isBatchOf sound.decoder hencoded htable hc.decoder
  have hcoarse : c.coarse.IsBatchOf n := by
    have h := hc.coarse
    unfold coarseValue at h
    cases hone : c.decoder[1]?.join with
    | none =>
      rw [hone] at h
      cases h
    | some s =>
      rw [hone] at h
      cases h
      exact hdecoded _ (List.mem_of_getElem? (Option.join_eq_some_iff.mp hone)) _ rfl
  have hhead := sound.heads.verticalOne
  refine ⟨?_, (Block.outputShape_batch hc.kernels).trans hcoarse.batch,
    hhead.taps hc.kernels⟩
  rw [hc.applications_eq]
  simp only [List.forall_mem_append, List.forall_mem_singleton]
  exact ⟨hencoder, hdecoder, hhead.regular, hcoarse.spatial, c.kernels, hc.kernels⟩

theorem featureShape_isBatchOf (net : Network) {frame : Shape} (spatial : frame.IsSpatial) :
    (net.featureShape frame).IsBatchOf frame.batch := ⟨rfl, spatial⟩

/-- A pass that succeeds has a course, whose shapes are those of its batches. -/
theorem Stages.IsPass.exists_course (sound : net.IsSound) (pair : IsPair one two)
    (exact : ∀ a ∈ net.applications (net.featureShape one.shape), a.IsExact) {st : Stages}
    (hst : st.IsPass net one two) :
    ∃ c : Course, c.IsCourse net (net.featureShape one.shape) ∧
      c.kernels.height = one.shape.height ∧ c.kernels.width = one.shape.width ∧
      (∀ a ∈ net.applications (net.featureShape one.shape), a.Readable) ∧
      st.HasShapes net one.shape c := by
  have hfeatures : st.features.shape = net.featureShape one.shape := by
    obtain ⟨f, hf, hfs⟩ := map_eq_ok.mp
      (features_shape sound pair.alike.symm pair.channels pair.spatial)
    obtain rfl : f = st.features := Except.ok.inj (hf.symm.trans hst.features)
    exact hfs
  have hinputs := shapesOf_encoderInputs net st.features
  rw [hfeatures] at hinputs
  -- Every stage is carried over to shapes, which settles what the next one is applied to.
  have hexact := exact
  unfold applications at hexact
  rw [List.forall_mem_append, ← hinputs] at hexact
  obtain ⟨hencode, hread⟩ := (Pyramid.encode_shape sound.encoder hexact.1 _).mp
    ⟨st.encoder, hst.encoder, rfl⟩
  have hexact := hexact.2
  simp only [hencode, List.forall_mem_append] at hexact
  obtain ⟨hdecode, hread'⟩ := (Pyramid.decode_shape sound.decoder hexact.1 _).mp
    ⟨st.decoder, hst.decoder, rfl⟩
  have hcoarse := (coarseValue_shape st.decoder st.coarse.shape).mp ⟨st.coarse, hst.coarse, rfl⟩
  have hexact := hexact.2
  simp only [hdecode, hcoarse, List.forall_mem_singleton] at hexact
  obtain ⟨hone, htwo, hthree, hfour⟩ := Heads.traverse_eq_ok.mp hst.kernels
  obtain ⟨hkernels, hread''⟩ := (head_shape sound.heads.verticalOne hexact _).mp ⟨_, hone, rfl⟩
  have halike {b : Block} (hb : b.IsHead net.heads.verticalOne.form net.config.kernelSize)
      {k : Tensor Float32} (hk : b.forward st.coarse = .ok k) :
      k.shape = st.kernels.verticalOne.shape :=
    Except.ok.inj (((head_shape hb hexact _).mp ⟨k, hk, rfl⟩).1.symm.trans hkernels)
  have hc : Course.IsCourse ⟨shapesOf st.encoder, st.shapeTable, shapesOf st.decoder,
      st.coarse.shape, st.kernels.verticalOne.shape⟩ net (net.featureShape one.shape) :=
    ⟨hinputs ▸ hencode, hdecode, hcoarse, hkernels⟩
  obtain ⟨-, hbatch, htaps⟩ := hc.proper sound (net.featureShape_isBatchOf pair.spatial)
  have hforall : st.kernels.Forall fun k => k.shape = st.kernels.verticalOne.shape :=
    ⟨rfl, halike sound.heads.horizontalOne htwo, halike sound.heads.verticalTwo hthree,
      halike sound.heads.horizontalTwo hfour⟩
  obtain ⟨framedOne, framedTwo, hf, hg, hy⟩ := hst.output
  obtain ⟨hheight, hwidth, houtput⟩ := (synthesize_framed sound pair htaps hbatch hforall _).mp
    ⟨framedOne, framedTwo, st.output, hf, hg, hy, rfl⟩
  refine ⟨_, hc, hheight, hwidth, ?_, hfeatures, rfl, rfl, rfl, rfl, hforall, houtput.symm⟩
  rw [hc.applications_eq]
  simp only [List.forall_mem_append, List.forall_mem_singleton]
  exact ⟨hinputs ▸ hread, hread', hread''⟩

/-- A course whose kernels cover the frames, and whose blocks can read their batches, is that of a
pass. -/
theorem Course.IsCourse.exists_pass (sound : net.IsSound) (pair : IsPair one two)
    (exact : ∀ a ∈ net.applications (net.featureShape one.shape), a.IsExact) {c : Course}
    (hc : c.IsCourse net (net.featureShape one.shape))
    (height : c.kernels.height = one.shape.height) (width : c.kernels.width = one.shape.width)
    (readable : ∀ a ∈ net.applications (net.featureShape one.shape), a.Readable) :
    ∃ st : Stages, st.IsPass net one two ∧ st.HasShapes net one.shape c := by
  obtain ⟨-, hbatch, htaps⟩ := hc.proper sound (net.featureShape_isBatchOf pair.spatial)
  rw [hc.applications_eq] at exact readable
  simp only [List.forall_mem_append, List.forall_mem_singleton] at exact readable
  obtain ⟨f, hf, hfs⟩ := map_eq_ok.mp
    (features_shape sound pair.alike.symm pair.channels pair.spatial)
  have hinputs : shapesOf (net.encoderInputs f) = net.encoderInputs (net.featureShape one.shape) :=
    (shapesOf_encoderInputs net f).trans (congrArg _ hfs)
  obtain ⟨encoder, hencode, hencoder⟩ := (Pyramid.encode_shape sound.encoder
    (by rw [hinputs]; exact exact.1) c.encoder).mpr
      ⟨hinputs ▸ hc.encoder, by rw [hinputs]; exact readable.1⟩
  obtain ⟨decoder, hdecode, hdecoder⟩ := (Pyramid.decode_shape sound.decoder
    (by rw [hencoder]; exact exact.2.1) c.decoder).mpr
      ⟨hencoder ▸ hc.decoder, by rw [hencoder]; exact readable.2.1⟩
  obtain ⟨coarse, hcoarse, hcoarses⟩ := (coarseValue_shape decoder c.coarse).mpr
    (hdecoder ▸ hc.coarse)
  obtain ⟨kernels, hkernels, hforall⟩ := (heads_shape sound (by rw [hcoarses]; exact exact.2.2)
    c.kernels).mpr ⟨hcoarses ▸ hc.kernels, by rw [hcoarses]; exact readable.2.2⟩
  obtain ⟨framedOne, framedTwo, y, hframedOne, hframedTwo, hy, hys⟩ :=
    (synthesize_framed sound pair htaps hbatch hforall one.shape).mpr ⟨height, width, rfl⟩
  exact ⟨⟨f, encoder, c.shapeTable, decoder, coarse, kernels, y⟩,
    ⟨hf, hencode, hdecode, hcoarse, hkernels, framedOne, framedTwo, hframedOne, hframedTwo, hy⟩,
    ⟨hfs, hencoder, rfl, hdecoder, hcoarses, hforall, hys⟩⟩

end Pass

end Network

end Midframe
