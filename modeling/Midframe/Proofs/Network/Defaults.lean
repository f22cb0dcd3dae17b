import Midframe.Network.Estimate
import Midframe.Proofs.Network.Course
import Midframe.Proofs.Pyramid.Defaults

/-!
# Networks of the default specifications

Whatever the channels, the number of levels and the length of the kernels are: a network that keeps
the default specifications takes every pair of frames with even extents. On the way down every
extent is halved, rounding up, on the way up every level gets its recorded shape, and the heads give
kernels for every position. Pictures of all sizes up to the limits are taken, odd ones included.
-/

namespace Midframe

namespace Network

variable {config : Config} {net : Network} {n height width : Nat}

/-- The encoder, the decoder and the heads of a built network with the default specifications. -/
structure IsDefault (net : Network) (first second : Nat) (rest : List Nat) : Prop where
  /-- The network is sound. -/
  sound : net.IsSound
  /-- The channels of the levels. -/
  channels : net.config.channels = first :: second :: rest
  /-- The features fill the first level. -/
  input : 2 * net.input.outputs = first
  /-- Every level has channels. -/
  nonzero : ∀ c ∈ first :: second :: rest, c ≠ 0
  /-- The levels of the encoder. -/
  encoder : Pyramid.buildLevels .fineToCoarse net.encoder.scope
    ⟨({} : Config).encoderHorizontal, residualSpec⟩ ⟨({} : Config).encoderVertical, halvingSpec⟩
    (first :: second :: rest) 0
    ((0 :: List.replicate (second :: rest).length 0).zip (first :: second :: rest))
    = .ok net.encoder.levels
  /-- The levels of the decoder. -/
  decoder : Pyramid.buildLevels .coarseToFine net.decoder.scope
    ⟨({} : Config).decoderHorizontal, residualSpec⟩ ⟨({} : Config).decoderVertical, doublingSpec⟩
    (0 :: second :: rest) 0 ((0 :: second :: rest).zip (0 :: second :: rest))
    = .ok net.decoder.levels
  /-- The heads. -/
  heads : net.heads.Forall fun b => ∃ scope, Block.build scope ({} : Config).head headSpec
    [second, second, net.config.kernelSize] = .ok b

theorem isDefault_of_build (specs : config.specs = ({} : Config).specs)
    (h : build config = .ok net) : ∃ first second rest, net.IsDefault first second rest := by
  obtain ⟨hvalid, rfl, hinput, hencoder, hdecoder, spec, hspec, hheads⟩ := build_eq_ok h
  obtain ⟨hlevels, hnonzero, heven, -⟩ := Config.isValid_of_validate hvalid
  simp only [Config.specs, List.cons.injEq, and_true] at specs
  obtain ⟨h1, h2, h3, h4, h5⟩ := specs
  obtain ⟨first, second, rest, hchannels⟩ :
      ∃ first second rest, net.config.channels = first :: second :: rest := by
    match hc : net.config.channels with
    | [] => simp [hc] at hlevels
    | [_] => simp [hc] at hlevels
    | first :: second :: rest => exact ⟨first, second, rest, rfl⟩
  rw [h1, h2] at hencoder
  rw [h3, h4] at hdecoder
  rw [h5] at hspec hheads
  obtain ⟨-, hscope, hdown⟩ := Pyramid.build_levels read_residual read_halving hencoder
  obtain ⟨-, hscope', hup⟩ := Pyramid.build_levels read_residual read_doubling hdecoder
  obtain rfl : spec = headSpec := Except.ok.inj (hspec.symm.trans read_head)
  obtain ⟨hone, htwo, hthree, hfour⟩ := Heads.traverse_eq_ok.mp hheads
  rw [hchannels] at heven hnonzero hdown hup hone htwo hthree hfour
  refine ⟨first, second, rest, build_isSound h, hchannels, ?_, hnonzero, ?_, ?_, ?_⟩
  · rw [hinput, buildInput_outputs, Config.inputChannels?, hchannels]
    simp only [List.headD_cons] at heven
    simp only [List.head?_cons, Option.map_some, Option.getD_some]
    omega
  · rw [hscope]
    exact hdown
  · rw [hscope']
    exact hup
  · exact ⟨⟨_, hone⟩, ⟨_, htwo⟩, ⟨_, hthree⟩, ⟨_, hfour⟩⟩

section Course

variable {τ : Type} [Flow τ] [LawfulFlow τ] {first second : Nat} {rest : List Nat}

/-- The encoder leaves the features at level 0 and halves the extents from there on. -/
theorem IsDefault.encode (d : net.IsDefault first second rest) (finest : IsFinest height width)
    {x : τ} (hx : Flow.shape x = ⟨n, first, height, width⟩) :
    ∃ (vs : List τ) (table : ShapeTable),
      net.encoder.encode (net.encoderInputs x) Keyed.empty = (.ok (vs.map some), table) ∧
      vs.map Flow.shape = descent n height width 0 (first :: second :: rest) ∧
      table.entries = underLevels 0 (descent n height width 0 (first :: second :: rest)) := by
  unfold encoderInputs
  rw [d.channels]
  exact Pyramid.encode_descends (scales_halving _) d.nonzero finest rfl d.encoder fun l hl =>
    ⟨x, Pyramid.encode_bare (Pyramid.horizontal_eq_none hl)
      (Pyramid.vertical_eq_none (.inl rfl) hl) _ _ _ _, hx⟩

/-- The decoder leaves level 0 as it is and brings every other level to its recorded shape. -/
theorem IsDefault.decode (d : net.IsDefault first second rest) (finest : IsFinest height width)
    {vs : List τ} (hvs : vs.map Flow.shape = descent n height width 0 (first :: second :: rest))
    {table : ShapeTable}
    (htable : table.entries = underLevels 0 (descent n height width 0 (first :: second :: rest))) :
    ∃ ws : List τ, net.decoder.decode (vs.map some) table = .ok (ws.map some) ∧
      ws.map Flow.shape = descent n height width 0 (first :: second :: rest) := by
  have hlevels := d.decoder
  have hlength := Pyramid.buildLevels_length hlevels
  have hcount : vs.length = (first :: second :: rest).length := by
    rw [← List.length_map Flow.shape, hvs, descent, List.length_mapIdx]
  rw [zip_self] at hlevels
  simp only [List.map_cons (a := 0), Pyramid.buildLevels, bind_eq_ok, pure_eq_ok] at hlevels
  obtain ⟨l, hl, tail, htail, hcons⟩ := hlevels
  rw [descent_cons] at hvs
  obtain ⟨v, vs', rfl, hv, hvs'⟩ := List.map_eq_cons_iff.mp hvs
  have htail' : Pyramid.buildLevels .coarseToFine net.decoder.scope
      ⟨({} : Config).decoderHorizontal, residualSpec⟩
      ⟨({} : Config).decoderVertical, doublingSpec⟩ (0 :: second :: rest) 1
      ((second :: rest).map fun c => (c, c)) = .ok tail := htail
  rw [descent_cons, underLevels_cons] at htable
  obtain ⟨ws, hrun, hws⟩ := Pyramid.decodeLevels_doubles (scales_residual _) (scales_doubling _)
    finest net.decoder.scope (List.forall_mem_cons.mp d.nonzero).2
    (Pyramid.feeds_all (by simp) hvs') rfl
    (fun e he => Keyed.get?_of_mem (by rw [htable]; exact List.mem_cons_of_mem _ he)) htail'
  refine ⟨v :: ws, ?_, by rw [List.map_cons, hv, hws, ← descent_cons]⟩
  unfold Pyramid.decode Pyramid.checkInputs
  rw [if_neg (by rw [hlength, List.length_map, hcount]; simp), ← hcons]
  exact Pyramid.decodeLevels_cons.mpr ⟨some v, ws.map some, hrun,
    Pyramid.decode_bare (Pyramid.horizontal_eq_none hl) (Pyramid.vertical_eq_none (.inr rfl) hl)
      _ _ _ _ _, rfl⟩

/-- Both pyramids in sequence, and what the heads start from. -/
theorem IsDefault.pyramids (d : net.IsDefault first second rest) (finest : IsFinest height width)
    {x : τ} (hx : Flow.shape x = ⟨n, first, height, width⟩) :
    ∃ (vs : List τ) (table : ShapeTable) (ws : List τ) (coarse : τ),
      net.encoder.encode (net.encoderInputs x) Keyed.empty = (.ok (vs.map some), table) ∧
      vs.map Flow.shape = descent n height width 0 (first :: second :: rest) ∧
      table.entries = underLevels 0 (descent n height width 0 (first :: second :: rest)) ∧
      net.decoder.decode (vs.map some) table = .ok (ws.map some) ∧
      ws.map Flow.shape = descent n height width 0 (first :: second :: rest) ∧
      coarseValue (ws.map some) = .ok coarse ∧
      Flow.shape coarse = levelShape n second height width 1 := by
  obtain ⟨vs, table, hencode, hvs, htable⟩ := d.encode finest hx
  obtain ⟨ws, hdecode, hws⟩ := d.decode finest hvs htable
  have hlevels := hws
  rw [descent_cons, descent_cons] at hlevels
  obtain ⟨w, ws', rfl, -, hws'⟩ := List.map_eq_cons_iff.mp hlevels
  obtain ⟨coarse, ws'', rfl, hcoarse, -⟩ := List.map_eq_cons_iff.mp hws'
  exact ⟨vs, table, _, coarse, hencode, hvs, htable, hdecode, hws, rfl, hcoarse⟩

end Course

/-- A level whose extents are halves of even ones is doubled by every head. -/
theorem IsDefault.head_gives {first second : Nat} {rest : List Nat}
    (d : net.IsDefault first second rest) (finest : IsFinest height width) (evenh : height % 2 = 0)
    (evenw : width % 2 = 0) :
    net.heads.Forall fun b => b.Gives (levelShape n second height width 1)
      ⟨n, net.config.kernelSize, height, width⟩ := by
  have hdouble {e : Nat} (even : e % 2 = 0) : levelExtent e 1 * 2 = e := by
    rw [levelExtent_succ, levelExtent_zero]
    omega
  have hgives {b : Block} (hb : ∃ scope, Block.build scope ({} : Config).head headSpec
      [second, second, net.config.kernelSize] = .ok b) :
      b.Gives (levelShape n second height width 1)
        ⟨n, net.config.kernelSize, height, width⟩ := by
    obtain ⟨scope, hb⟩ := hb
    have h := scales_head ({} : Config).head hb n (finest.level 1).height_pos
      (finest.level 1).width_pos (levelExtent_bounds finest.height_pos finest.height_le 0).2
      (levelExtent_bounds finest.width_pos finest.width_le 0).2
    simp only [hdouble evenh, hdouble evenw] at h
    exact h
  exact ⟨hgives d.heads.verticalOne, hgives d.heads.horizontalOne, hgives d.heads.verticalTwo,
    hgives d.heads.horizontalTwo⟩

section Frames

variable {first second : Nat} {rest : List Nat}

/-- The course over one pair of frames. -/
theorem IsDefault.plan_eq (d : net.IsDefault first second rest) (finest : IsFinest height width)
    (evenh : height % 2 = 0) (evenw : width % 2 = 0) :
    ∃ p, net.plan height width = .ok p ∧
      p.encoder = (descent 1 height width 0 (first :: second :: rest)).map some ∧
      p.decoder = (descent 1 height width 0 (first :: second :: rest)).map some ∧
      p.shapeTable.entries = underLevels 0 (descent 1 height width 0 (first :: second :: rest)) ∧
      p.kernels = ⟨1, net.config.kernelSize, height, width⟩ := by
  obtain ⟨vs, table, ws, coarse, hencode, hvs, htable, hdecode, hws, hcoarse, hshape⟩ :=
    d.pyramids finest
      (x := net.featureShape ⟨1, 3, height, width⟩) (n := 1) (by rw [featureShape, d.input]; rfl)
  have hid (ss : List Shape) : ss.map Flow.shape = ss := List.map_id ss
  rw [hid] at hvs hws
  obtain rfl : coarse = levelShape 1 second height width 1 := hshape
  have hcheck : checkFrames ⟨1, 3, height, width⟩ ⟨1, 3, height, width⟩ = .ok () :=
    checkFrames_eq_ok.mpr ⟨rfl, rfl, Nat.one_pos, ⟨finest.height_pos, finest.width_pos⟩, evenh,
      evenw⟩
  have hcourse : Course.IsCourse ⟨vs.map some, table, ws.map some, _, _⟩ net _ :=
    ⟨hencode, hdecode, hcoarse, (d.head_gives finest evenh evenw).verticalOne.result⟩
  refine ⟨_, plan_eq_ok.mpr ⟨hcheck, _, hcourse, rfl, rfl, rfl⟩, ?_, ?_, htable, rfl⟩
  · rw [hvs]
  · rw [hws]

/-- Two frames of even extents have a frame between them. -/
theorem IsDefault.forward_shape (d : net.IsDefault first second rest)
    (finest : IsFinest height width) (evenh : height % 2 = 0) (evenw : width % 2 = 0) (hn : 0 < n)
    {one two : Tensor Float32}
    (hone : one.shape = ⟨n, 3, height, width⟩) (htwo : two.shape = ⟨n, 3, height, width⟩) :
    ∃ y, net.forward one two = .ok y ∧ y.shape = ⟨n, 3, height, width⟩ := by
  have hcheck : checkFrames one.shape two.shape = .ok () := by
    rw [hone, htwo]
    exact checkFrames_eq_ok.mpr ⟨rfl, rfl, hn, ⟨finest.height_pos, finest.width_pos⟩, evenh, evenw⟩
  have hpair := isPair_of_checkFrames hcheck
  obtain ⟨f, hf, hfs⟩ := map_eq_ok.mp
    (features_shape d.sound hpair.alike.symm hpair.channels hpair.spatial)
  have hfeatures : f.shape = ⟨n, first, height, width⟩ := by rw [hfs, hone, d.input]
  obtain ⟨vs, table, ws, coarse, hencode, -, -, hdecode, -, hcoarse, hshape⟩ :=
    d.pyramids finest (x := f) hfeatures
  have hheads := d.head_gives finest evenh evenw (n := n)
  obtain ⟨a, ha, has⟩ := LawfulFlow.apply_shape hheads.verticalOne coarse hshape
  obtain ⟨b, hb, hbs⟩ := LawfulFlow.apply_shape hheads.horizontalOne coarse hshape
  obtain ⟨c, hc, hcs⟩ := LawfulFlow.apply_shape hheads.verticalTwo coarse hshape
  obtain ⟨e, he, hes⟩ := LawfulFlow.apply_shape hheads.horizontalTwo coarse hshape
  have halike : Heads.Forall (fun t => t.shape = ⟨n, net.config.kernelSize, height, width⟩)
      ⟨a, b, c, e⟩ := ⟨has, hbs, hcs, hes⟩
  obtain ⟨framedOne, framedTwo, y, hframedOne, hframedTwo, hy, hys⟩ :=
    (synthesize_framed d.sound hpair rfl (by rw [hone]) halike _).mpr
      ⟨by rw [hone], by rw [hone], hone⟩
  have hpass : Stages.IsPass
      ⟨f, vs.map some, table, ws.map some, coarse, ⟨a, b, c, e⟩, y⟩ net one two :=
    ⟨hf, hencode, hdecode, hcoarse, Heads.traverse_eq_ok.mpr ⟨ha, hb, hc, he⟩, framedOne, framedTwo,
      hframedOne, hframedTwo, hy⟩
  exact ⟨y, forward_eq_ok.mpr ⟨hcheck, _, hpass, rfl⟩, hys⟩

/-- Two pictures of any size up to the limits have a picture between them. -/
theorem IsDefault.estimate_size (d : net.IsDefault first second rest) (hheight : 0 < height)
    (hwidth : 0 < width) (boundh : height < 2 ^ 53) (boundw : width < 2 ^ 53)
    (limith : height ≤ net.config.maxHeight) (limitw : width ≤ net.config.maxWidth)
    {one two : Picture} (hone : one.batch.shape = ⟨1, 3, height, width⟩)
    (htwo : two.batch.shape = ⟨1, 3, height, width⟩) :
    ∃ y, net.estimate one two = .ok y ∧ y.batch.shape = ⟨1, 3, height, width⟩ := by
  have hcheck : checkPictures net.config one two = .ok () := by
    unfold checkPictures Picture.planes Picture.height Picture.width
    rw [hone, htwo, if_neg (by simp), if_neg (by simp), if_neg (by simp; omega)]
  have heven {t : Tensor Float32} (ht : t.shape = ⟨1, 3, height, width⟩) :
      ∃ u, t.padToEven .replicate = .ok u ∧
        u.shape = ⟨1, 3, height + height % 2, width + width % 2⟩ := by
    obtain ⟨u, hu, hus⟩ := map_eq_ok.mp ((t.pad_shape
      (Padding.trailing (t.shape.height % 2) (t.shape.width % 2)) .replicate _).mpr
        ⟨rfl, Border.fits_replicate (by rw [ht]; exact hheight) (by rw [ht]; exact hwidth)⟩)
    refine ⟨u, hu, ?_⟩
    rw [hus, ht]
    rfl
  obtain ⟨u, hu, hus⟩ := heven hone
  obtain ⟨v, hv, hvs⟩ := heven htwo
  have finest : IsFinest (height + height % 2) (width + width % 2) :=
    ⟨by omega, by omega, by omega, by omega⟩
  obtain ⟨y, hy, hys⟩ := d.forward_shape finest (by omega) (by omega) (by decide) hus hvs
  refine ⟨_, bind_eq_ok.mpr ⟨(), hcheck, bind_eq_ok.mpr ⟨u, hu, bind_eq_ok.mpr ⟨v, hv,
    bind_eq_ok.mpr ⟨y, hy, rfl⟩⟩⟩⟩, ?_⟩
  show (⟨1, y.shape.channels, one.height, one.width⟩ : Shape) = _
  rw [hys, Picture.height, Picture.width, hone]

end Frames

/-- A network that keeps the default specifications takes everything that it should: every pair of
frames with even extents has a plan, in which the encoder and the decoder leave the same shapes,
halved once for each level below and rounded up, and a result of the same shape; and every pair of
pictures within the limits has an estimate of their size, odd extents included. -/
theorem takes_all_sizes (specs : config.specs = ({} : Config).specs)
    (hbuild : build config = .ok net) :
    (∀ {height width : Nat}, 0 < height → 0 < width → height % 2 = 0 → width % 2 = 0 →
      height ≤ 2 ^ 53 → width ≤ 2 ^ 53 →
      (∃ p, net.plan height width = .ok p ∧
        p.encoder = config.channels.mapIdx (fun i c =>
          some ⟨1, c, levelExtent height i, levelExtent width i⟩) ∧
        p.decoder = p.encoder ∧
        p.shapeTable.entries = config.channels.mapIdx (fun i c =>
          (i, ⟨1, c, levelExtent height i, levelExtent width i⟩)) ∧
        p.kernels = ⟨1, config.kernelSize, height, width⟩) ∧
      ∀ n, 0 < n → ∀ one two : Tensor Float32, one.shape = ⟨n, 3, height, width⟩ →
        two.shape = ⟨n, 3, height, width⟩ →
        ∃ y, net.forward one two = .ok y ∧ y.shape = ⟨n, 3, height, width⟩) ∧
    ∀ {height width : Nat}, 0 < height → 0 < width → height ≤ config.maxHeight →
      width ≤ config.maxWidth → height < 2 ^ 53 → width < 2 ^ 53 →
      ∀ one two : Picture, one.batch.shape = ⟨1, 3, height, width⟩ →
        two.batch.shape = ⟨1, 3, height, width⟩ →
        ∃ y, net.estimate one two = .ok y ∧ y.batch.shape = ⟨1, 3, height, width⟩ := by
  obtain ⟨first, second, rest, d⟩ := isDefault_of_build specs hbuild
  obtain ⟨-, rfl, -⟩ := build_eq_ok hbuild
  constructor
  · intro height width hheight hwidth evenh evenw boundh boundw
    have finest : IsFinest height width := ⟨hheight, hwidth, boundh, boundw⟩
    obtain ⟨p, hp, hencoder, hdecoder, htable, hkernels⟩ := d.plan_eq finest evenh evenw
    refine ⟨⟨p, hp, ?_, hdecoder.trans hencoder.symm, ?_, hkernels⟩, fun n hn one two hone htwo =>
      d.forward_shape finest evenh evenw hn hone htwo⟩
    · rw [hencoder, ← d.channels]
      apply List.ext_getElem <;> simp [descent, levelShape]
    · rw [htable, d.channels]
      simp [underLevels, descent, levelShape, List.mapIdx_mapIdx, Function.comp_def]
  · intro height width hheight hwidth limith limitw boundh boundw one two hone htwo
    exact d.estimate_size hheight hwidth boundh boundw limith limitw hone htwo

/-- Three levels over six rows and two columns, and a picture of a single pixel. -/
theorem takes_all_sizes_small : ∃ net : Network,
    build { channels := [2, 1, 3], kernelSize := 3 } = .ok net ∧
    (∃ p, net.plan 6 2 = .ok p ∧
      p.encoder = [some ⟨1, 2, 6, 2⟩, some ⟨1, 1, 3, 1⟩, some ⟨1, 3, 2, 1⟩]) ∧
    (∃ y, net.forward (.replicate ⟨2, 3, 6, 2⟩ Scalar.one) (.replicate ⟨2, 3, 6, 2⟩ Scalar.one)
      = .ok y ∧ y.shape = ⟨2, 3, 6, 2⟩) ∧
    ∃ y, net.estimate (Picture.ofFn 3 1 1 fun _ _ _ => Scalar.one)
      (Picture.ofFn 3 1 1 fun _ _ _ => Scalar.zero) = .ok y ∧ y.batch.shape = ⟨1, 3, 1, 1⟩ := by
  obtain ⟨net, hbuild⟩ := exists_eq_ok_of_isOk
    (show (build { channels := [2, 1, 3], kernelSize := 3 }).isOk = true by decide +kernel)
  obtain ⟨hframes, hpictures⟩ := takes_all_sizes (by rfl) hbuild
  obtain ⟨⟨p, hp, hencoder, -⟩, hforward⟩ := hframes (show 0 < 6 by decide)
    (show 0 < 2 by decide) (by decide) (by decide) (by decide) (by decide)
  exact ⟨net, hbuild, ⟨p, hp, hencoder⟩, hforward 2 (by decide) _ _ rfl rfl,
    hpictures (by decide) (by decide) (by decide) (by decide) (by decide) (by decide) _ _ rfl rfl⟩

end Network

end Midframe
