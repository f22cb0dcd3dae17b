import Midframe.Proofs.Network.Course

/-!
# Plans and passes

A plan is meant to tell what a pass over frames of one entry would produce, or why it would fail.
Whatever a plan and a pass both reach has the same shapes. But inference does not look at how far
mirror images reach, so there are plans of passes that fail: a pass succeeds exactly if its plan
does and all mirror images on the way reach far enough.
-/

namespace Midframe

namespace Network

variable {config : Config} {net : Network} {height width : Nat} {one two : Tensor Float32}

theorem checkFrames_of_shapes {frame : Shape} (hone : one.shape = frame)
    (htwo : two.shape = frame) : checkFrames one.shape two.shape = checkFrames frame frame := by
  rw [hone, htwo]

/-- The blocks of a plan can read their batches exactly if all mirror images reach far enough. -/
theorem readable_iff_mirrorsFit (sound : net.IsSound)
    (exact : ∀ a ∈ net.applications (net.featureShape ⟨1, 3, height, width⟩), a.IsExact) {p : Plan}
    (hplan : net.plan height width = .ok p) :
    (∀ a ∈ net.applications (net.featureShape ⟨1, 3, height, width⟩), a.Readable) ↔
      ∀ a ∈ net.applications (net.featureShape ⟨1, 3, height, width⟩), a.MirrorsFit := by
  obtain ⟨hcheck, c, hc, -⟩ := plan_eq_ok.mp hplan
  obtain ⟨-, -, -, hspatial, -⟩ := checkFrames_eq_ok.mp hcheck
  obtain ⟨hproper, -⟩ := hc.proper sound (net.featureShape_isBatchOf hspatial)
  constructor <;> intro h a ha
  · exact ((hproper a ha).readable_iff (exact a ha)).mp (h a ha)
  · exact ((hproper a ha).readable_iff (exact a ha)).mpr (h a ha)

/-- Where the pass over frames of one entry succeeds, so does the plan, and all blocks of the plan
can read their batches. -/
theorem plan_of_forward (sound : net.IsSound) (hone : one.shape = ⟨1, 3, height, width⟩)
    (htwo : two.shape = ⟨1, 3, height, width⟩)
    (exact : ∀ a ∈ net.applications (net.featureShape ⟨1, 3, height, width⟩), a.IsExact)
    {y : Tensor Float32} (h : net.forward one two = .ok y) :
    ∃ (st : Stages) (c : Course) (p : Plan), st.IsPass net one two ∧ st.output = y ∧
      st.HasShapes net ⟨1, 3, height, width⟩ c ∧ net.plan height width = .ok p ∧
      p = ⟨⟨1, 3, height, width⟩, net.featureShape ⟨1, 3, height, width⟩, c.encoder, c.shapeTable,
        c.decoder, c.kernels, ⟨1, 3, height, width⟩,
        total (net.inventory.map fun p => volume p.2)⟩ ∧
      ∀ a ∈ net.applications (net.featureShape ⟨1, 3, height, width⟩), a.Readable := by
  obtain ⟨hcheck, st, hst, hy⟩ := forward_eq_ok.mp h
  obtain ⟨c, hc, hheight, hwidth, hreadable, hshapes⟩ :=
    hst.exists_course sound (isPair_of_checkFrames hcheck) (by rw [hone]; exact exact)
  rw [hone] at hc hheight hwidth hreadable hshapes
  rw [checkFrames_of_shapes hone htwo] at hcheck
  exact ⟨st, c, _, hst, hy, hshapes, plan_eq_ok.mpr ⟨hcheck, c, hc, hheight, hwidth, rfl⟩, rfl,
    hreadable⟩

/-- Where the plan succeeds and its blocks can read their batches, so does the pass. -/
theorem forward_of_plan (sound : net.IsSound) (hone : one.shape = ⟨1, 3, height, width⟩)
    (htwo : two.shape = ⟨1, 3, height, width⟩)
    (exact : ∀ a ∈ net.applications (net.featureShape ⟨1, 3, height, width⟩), a.IsExact) {p : Plan}
    (hplan : net.plan height width = .ok p)
    (readable : ∀ a ∈ net.applications (net.featureShape ⟨1, 3, height, width⟩), a.Readable) :
    ∃ y, net.forward one two = .ok y := by
  obtain ⟨hcheck, c, hc, hheight, hwidth, -⟩ := plan_eq_ok.mp hplan
  rw [← checkFrames_of_shapes hone htwo] at hcheck
  have hpair := isPair_of_checkFrames hcheck
  rw [← hone] at exact hc readable
  obtain ⟨st, hst, -⟩ := hc.exists_pass sound hpair exact (by rw [hheight, hone])
    (by rw [hwidth, hone]) readable
  exact ⟨st.output, forward_eq_ok.mpr ⟨hcheck, st, hst, rfl⟩⟩

/-- Over frames of one entry, and as long as all extents on the way are exact, a pass of a built
network succeeds exactly if its plan does and all mirror images that its blocks take reach far
enough; and where both succeed, the plan has the shapes of the features, of what the encoder and the
decoder leave at every level, of what is recorded, of all four kernels and of the result. -/
theorem forward_iff_plan (hbuild : build config = .ok net)
    (hone : one.shape = ⟨1, 3, height, width⟩) (htwo : two.shape = ⟨1, 3, height, width⟩)
    (exact : ∀ a ∈ net.applications (net.featureShape ⟨1, 3, height, width⟩), a.IsExact) :
    ((∃ y, net.forward one two = .ok y) ↔ (∃ p, net.plan height width = .ok p) ∧
      ∀ a ∈ net.applications (net.featureShape ⟨1, 3, height, width⟩), a.MirrorsFit) ∧
    ∀ y p, net.forward one two = .ok y → net.plan height width = .ok p →
      ∃ st : Stages, st.IsPass net one two ∧ st.output = y ∧
        st.features.shape = p.features ∧ shapesOf st.encoder = p.encoder ∧
        st.shapeTable = p.shapeTable ∧ shapesOf st.decoder = p.decoder ∧
        (st.kernels.Forall fun k => k.shape = p.kernels) ∧ y.shape = p.output := by
  have sound := build_isSound hbuild
  refine ⟨⟨?_, ?_⟩, ?_⟩
  · rintro ⟨y, hy⟩
    obtain ⟨-, -, p, -, -, -, hplan, -, hreadable⟩ := plan_of_forward sound hone htwo exact hy
    exact ⟨⟨p, hplan⟩, (readable_iff_mirrorsFit sound exact hplan).mp hreadable⟩
  · rintro ⟨⟨p, hplan⟩, hfit⟩
    exact forward_of_plan sound hone htwo exact hplan
      ((readable_iff_mirrorsFit sound exact hplan).mpr hfit)
  · intro y p hy hplan
    obtain ⟨st, c, q, hst, rfl, hshapes, hplan', hq, -⟩ := plan_of_forward sound hone htwo exact hy
    obtain rfl : p = q := Except.ok.inj (hplan.symm.trans hplan')
    subst hq
    exact ⟨st, hst, rfl, hshapes.features, hshapes.encoder, hshapes.shapeTable, hshapes.decoder,
      hshapes.kernels, hshapes.output⟩

/-- Two levels of blocks whose windows have one row and one column. -/
def pointwise : Config where
  channels := [2, 1]
  encoderHorizontal := "conv(1)-conv(1)"
  encoderVertical := "sconv(1)-conv(1)"
  decoderHorizontal := "conv(1)-conv(1)"
  decoderVertical := "conv(1)-conv(1)"
  head := "up(nearest)-conv(1)-conv(1)"
  kernelSize := 1

/-- A pass over two rows and two columns, and its plan. -/
theorem forward_iff_plan_pointwise : ∃ (net : Network) (p : Plan) (st : Stages),
    build pointwise = .ok net ∧ net.plan 2 2 = .ok p ∧
    st.IsPass net (.replicate ⟨1, 3, 2, 2⟩ Scalar.zero) (.replicate ⟨1, 3, 2, 2⟩ Scalar.zero) ∧
    shapesOf st.decoder = p.decoder ∧ st.output.shape = p.output := by
  obtain ⟨net, hbuild, hrun⟩ := exists_eq_ok_of_map (show (build pointwise).toOption.map
      (fun net => ((net.plan 2 2).isOk,
        (net.forward (.replicate ⟨1, 3, 2, 2⟩ Scalar.zero)
          (.replicate ⟨1, 3, 2, 2⟩ Scalar.zero)).isOk,
        decide (∀ a ∈ net.applications (net.featureShape ⟨1, 3, 2, 2⟩), a.IsExact)))
      = some (true, true, true) by decide +kernel)
  simp only [Prod.mk.injEq, decide_eq_true_eq] at hrun
  obtain ⟨p, hplan⟩ := exists_eq_ok_of_isOk hrun.1
  obtain ⟨y, hy⟩ := exists_eq_ok_of_isOk hrun.2.1
  obtain ⟨st, hst, rfl, -, -, -, hdecoder, -, houtput⟩ :=
    (forward_iff_plan hbuild rfl rfl hrun.2.2).2 y p hy hplan
  exact ⟨net, p, st, hbuild, hplan, hst, hdecoder, houtput⟩

/-- A network that takes a mirror image of a single row has a plan, but no pass. -/
theorem plan_without_forward :
    ∃ net, build { pointwise with encoderVertical := "sconv(1)-conv(3,reflpad)" } = .ok net ∧
      (∃ p, net.plan 2 2 = .ok p) ∧
      ∀ y, net.forward (.replicate ⟨1, 3, 2, 2⟩ Scalar.zero)
        (.replicate ⟨1, 3, 2, 2⟩ Scalar.zero) ≠ .ok y := by
  obtain ⟨net, hbuild, hrun⟩ := exists_eq_ok_of_map (show
      (build { pointwise with encoderVertical := "sconv(1)-conv(3,reflpad)" }).toOption.map
      (fun net => ((net.plan 2 2).isOk,
        (net.forward (.replicate ⟨1, 3, 2, 2⟩ Scalar.zero)
          (.replicate ⟨1, 3, 2, 2⟩ Scalar.zero)).isOk))
      = some (true, false) by decide +kernel)
  simp only [Prod.mk.injEq] at hrun
  refine ⟨net, hbuild, exists_eq_ok_of_isOk hrun.1, fun y hy => ?_⟩
  rw [hy] at hrun
  cases hrun.2

end Network

end Midframe
