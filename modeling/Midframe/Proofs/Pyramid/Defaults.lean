import Midframe.Network.Config
import Midframe.Proofs.Pyramid.Halving

/-!
# Pyramids of the default specifications

The default horizontal blocks keep every extent, the vertical ones of an encoder halve it, and those
of a decoder double it. So an encoder records one shape for each of its levels, and the decoder
brings every level back to the recorded shape, whatever the parities of the extents are.
-/

namespace Midframe

/-! ## The specifications -/

/-- What the text of the default horizontal blocks denotes. -/
def residualSpec : BlockSpec where
  ops := [.prelu 0.25, .conv 3 .zeros, .prelu 0.25, .conv 3 .zeros]
  flags := { skip := true }

/-- What the text of the default vertical blocks of an encoder denotes. -/
def halvingSpec : BlockSpec where
  ops := [.prelu 0.25, .sconv 3 .zeros, .prelu 0.25, .conv 3 .zeros]
  flags := {}

/-- What the text of the default vertical blocks of a decoder denotes. -/
def doublingSpec : BlockSpec where
  ops := [.prelu 0.25, .up .bilinear, .conv 3 .zeros, .prelu 0.25, .conv 3 .zeros]
  flags := {}

/-- What the text of the default heads denotes. -/
def headSpec : BlockSpec where
  ops := [.up .bilinear, .conv 3 .zeros, .prelu 0.25, .conv 3 .zeros]
  flags := {}

theorem read_residual : BlockSpec.read ({} : Config).encoderHorizontal = .ok residualSpec :=
  eq_ok_of_toOption (by decide +kernel)

theorem read_halving : BlockSpec.read ({} : Config).encoderVertical = .ok halvingSpec :=
  eq_ok_of_toOption (by decide +kernel)

theorem read_doubling : BlockSpec.read ({} : Config).decoderVertical = .ok doublingSpec :=
  eq_ok_of_toOption (by decide +kernel)

theorem read_head : BlockSpec.read ({} : Config).head = .ok headSpec :=
  eq_ok_of_toOption (by decide +kernel)

theorem residualSpec_isCentred : residualSpec.IsCentred :=
  ⟨by decide, rfl, fun _ => ⟨by decide +kernel, fun _ => rfl⟩⟩

theorem halvingSpec_isCentred : halvingSpec.IsCentred := ⟨by decide, rfl, by simp [halvingSpec]⟩

theorem doublingSpec_isCentred : doublingSpec.IsCentred := ⟨by decide, rfl, by simp [doublingSpec]⟩

theorem headSpec_isCentred : headSpec.IsCentred := ⟨by decide, rfl, by simp [headSpec]⟩

theorem scales_residual (source : String) : SourcedSpec.Scales ⟨source, residualSpec⟩ id := by
  refine SourcedSpec.scales_of_centred residualSpec_isCentred ?_ (fun _ => rfl) fun n e he => ?_
  · show ∀ op ∈ residualSpec.ops, _
    decide
  · simp only [residualSpec, Op.extents, Op.extent, List.mem_cons] at he
    simp at he
    simp [he]

theorem scales_halving (source : String) :
    SourcedSpec.Scales ⟨source, halvingSpec⟩ fun e => (e + 1) / 2 := by
  refine SourcedSpec.scales_of_centred halvingSpec_isCentred ?_ (fun _ => rfl) fun n e he => ?_
  · show ∀ op ∈ halvingSpec.ops, _
    decide
  · simp [halvingSpec, Op.extents, Op.extent] at he
    omega

theorem scales_doubling (source : String) : SourcedSpec.Scales ⟨source, doublingSpec⟩ (· * 2) := by
  refine SourcedSpec.scales_of_centred doublingSpec_isCentred ?_ (fun _ => rfl) fun n e he => ?_
  · show ∀ op ∈ doublingSpec.ops, _
    decide
  · simp [doublingSpec, Op.extents, Op.extent] at he
    omega

theorem scales_head (source : String) : SourcedSpec.Scales ⟨source, headSpec⟩ (· * 2) := by
  refine SourcedSpec.scales_of_centred headSpec_isCentred ?_ (fun _ => rfl) fun n e he => ?_
  · show ∀ op ∈ headSpec.ops, _
    decide
  · simp [headSpec, Op.extents, Op.extent] at he
    omega

namespace Pyramid

theorem sourcedSpec_read {source : String} {spec : BlockSpec} {r : SourcedSpec}
    (hread : BlockSpec.read source = .ok spec) (h : SourcedSpec.read source = .ok r) :
    r = ⟨source, spec⟩ := by
  rw [SourcedSpec.read, hread] at h
  cases h
  rfl

/-- The levels of a built pyramid whose specifications are known. -/
theorem build_levels {d : Direction} {scope : String} {inputs outputs : List Nat}
    {horizontal vertical : String} {hor ver : BlockSpec} {p : Pyramid d}
    (hhor : BlockSpec.read horizontal = .ok hor) (hver : BlockSpec.read vertical = .ok ver)
    (h : build d scope inputs outputs horizontal vertical = .ok p) :
    inputs.length = outputs.length ∧ p.scope = scope ∧
      buildLevels d scope ⟨horizontal, hor⟩ ⟨vertical, ver⟩ outputs 0 (inputs.zip outputs)
        = .ok p.levels := by
  obtain ⟨hlength, hor', ver', levels, hreadh, hreadv, hlevels, rfl⟩ := build_eq_ok h
  rw [sourcedSpec_read hhor hreadh, sourcedSpec_read hver hreadv] at hlevels
  exact ⟨hlength, rfl, hlevels⟩

section Decode

variable {τ : Type} [Flow τ] [LawfulFlow τ] {outputs : List Nat} {n height width : Nat}

/-- A decoder of the default specifications, fed from the shapes that the table holds. -/
theorem decode_ascends (nonzero : ∀ c ∈ outputs, c ≠ 0) (finest : IsFinest height width)
    {p : Decoder} {scope horizontal vertical : String}
    (h : buildLevels .coarseToFine scope ⟨horizontal, residualSpec⟩ ⟨vertical, doublingSpec⟩
      outputs 0 (outputs.zip outputs) = .ok p.levels) {table : ShapeTable}
    (htable : table.entries = underLevels 0 (descent n height width 0 outputs))
    {values : List (Option τ)} (hlength : values.length = outputs.length)
    (feeds : Feeds n height width 0 outputs values) :
    ∃ vs : List τ, p.decode values table = .ok (vs.map some) ∧
      vs.map Flow.shape = descent n height width 0 outputs := by
  rw [zip_self] at h
  have hlevels : p.levels.length = outputs.length := by
    rw [buildLevels_length h, List.length_map]
  obtain ⟨vs, hrun, hvs⟩ := decodeLevels_doubles (scales_residual _) (scales_doubling _) finest
    p.scope nonzero feeds rfl (fun e he => Keyed.get?_of_mem (by rw [htable]; exact he)) h
  refine ⟨vs, ?_, hvs⟩
  unfold decode checkInputs
  rw [if_neg (by simp [hlength, hlevels])]
  exact hrun

end Decode

/-- A pyramid of the default specifications keeps track of every extent: the encoder records one
shape for each level, with extents halved once for each level below, rounding up; and the decoder
gives every level the recorded shape, from the values of all levels as well as from the coarsest
one alone. -/
theorem round_trip {inputs : Nat} {outputs : List Nat} (positive : 0 < inputs)
    (nonempty : outputs ≠ []) (nonzero : ∀ c ∈ outputs, c ≠ 0) {encoder : Encoder}
    {decoder : Decoder}
    (hbuild : buildPyramid (inputs :: List.replicate (outputs.length - 1) 0) outputs
      ({} : Config).encoderHorizontal ({} : Config).encoderVertical ({} : Config).decoderVertical
      = .ok (encoder, decoder))
    {n height width : Nat} (hheight : 0 < height) (hwidth : 0 < width) (boundh : height ≤ 2 ^ 53)
    (boundw : width ≤ 2 ^ 53) {x : Tensor Float32} (hx : x.shape = ⟨n, inputs, height, width⟩) :
    ∃ (values : List (Tensor Float32)) (table : ShapeTable),
      encoder.encode (some x :: List.replicate (outputs.length - 1) none) Keyed.empty
        = (.ok (values.map some), table) ∧
      table.entries = outputs.mapIdx
        (fun i c => (i, ⟨n, c, levelExtent height i, levelExtent width i⟩)) ∧
      values.map Tensor.shape = table.entries.map Prod.snd ∧
      (∃ decoded : List (Tensor Float32),
        decoder.decode (values.map some) table = .ok (decoded.map some) ∧
        decoded.map Tensor.shape = table.entries.map Prod.snd) ∧
      ∃ coarsest, values.getLast? = some coarsest ∧
        ∃ decoded : List (Tensor Float32),
          decoder.decode (List.replicate (outputs.length - 1) none ++ [some coarsest]) table
            = .ok (decoded.map some) ∧
          decoded.map Tensor.shape = table.entries.map Prod.snd := by
  simp only [buildPyramid, bind_eq_ok, pure_eq_ok, Prod.mk.injEq] at hbuild
  obtain ⟨enc, hencoder, dec, hdecoder, rfl, rfl⟩ := hbuild
  obtain ⟨-, -, hlevels⟩ := build_levels read_residual read_halving hencoder
  obtain ⟨-, -, hlevels'⟩ := build_levels read_residual read_doubling hdecoder
  obtain ⟨first, rest, rfl⟩ := List.exists_cons_of_ne_nil nonempty
  have hfirst : first ≠ 0 := nonzero first List.mem_cons_self
  have finest : IsFinest height width := ⟨hheight, hwidth, boundh, boundw⟩
  obtain ⟨values, table, hencode, hvalues, htable⟩ := encode_descends (scales_halving _) nonzero
    finest rfl hlevels (x := x) fun l hl => by
      obtain ⟨u, hu, hus⟩ := ownValue_keeps (scales_residual _) (by omega) hfirst hl finest
        (v := x) hx
      refine ⟨u, ?_, hus⟩
      rw [Level.encode_eq_joined, Level.joined_eq_ok]
      exact ⟨some u, none, hu, contribution_eq_none (vertical_eq_none (.inl rfl) hl) _ _ _ _, rfl⟩
  have hrecorded : table.entries.map Prod.snd = descent n height width 0 (first :: rest) := by
    rw [htable, underLevels_map_snd]
  have hlength : values.length = (first :: rest).length := by
    rw [← List.length_map Flow.shape, hvalues, descent, List.length_mapIdx]
  obtain ⟨all, hall, halls⟩ := decode_ascends nonzero finest hlevels' htable
    (by rw [List.length_map, hlength]) (feeds_all nonempty hvalues)
  obtain ⟨coarsest, hcoarsest⟩ : ∃ coarsest, values.getLast? = some coarsest := by
    cases hlast : values.getLast? with
    | none =>
      rw [List.getLast?_eq_none_iff.mp hlast] at hlength
      cases hlength
    | some coarsest => exact ⟨coarsest, rfl⟩
  have hfeeds := feeds_coarsest hvalues hcoarsest
  rw [hlength] at hfeeds
  obtain ⟨some', hsome, hsomes⟩ := decode_ascends nonzero finest hlevels'
    htable (by simp) hfeeds
  refine ⟨values, table, hencode, ?_, ?_, ⟨all, hall, ?_⟩, coarsest, hcoarsest, some', hsome, ?_⟩
  · rw [htable]
    simp [underLevels, descent, levelShape, List.mapIdx_mapIdx, Function.comp_def]
  · rw [hrecorded]
    exact hvalues
  · rw [hrecorded]
    exact halls
  · rw [hrecorded]
    exact hsomes

/-- Two levels over three rows and five columns, down and up again. -/
theorem round_trip_odd : ∃ (encoder : Encoder) (decoder : Decoder),
    buildPyramid [1, 0] [1, 2] ({} : Config).encoderHorizontal ({} : Config).encoderVertical
      ({} : Config).decoderVertical = .ok (encoder, decoder) ∧
    ∃ (values : List (Tensor Float32)) (table : ShapeTable) (coarsest : Tensor Float32)
        (decoded : List (Tensor Float32)),
      encoder.encode [some (.replicate ⟨1, 1, 3, 5⟩ Scalar.one), none] Keyed.empty
        = (.ok (values.map some), table) ∧
      table.entries = [(0, ⟨1, 1, 3, 5⟩), (1, ⟨1, 2, 2, 3⟩)] ∧
      decoder.decode [none, some coarsest] table = .ok (decoded.map some) ∧
      decoded.map Tensor.shape = [⟨1, 1, 3, 5⟩, ⟨1, 2, 2, 3⟩] := by
  obtain ⟨⟨encoder, decoder⟩, hbuild⟩ := exists_eq_ok_of_isOk
    (show (buildPyramid [1, 0] [1, 2] ({} : Config).encoderHorizontal
      ({} : Config).encoderVertical ({} : Config).decoderVertical).isOk = true by decide +kernel)
  have hshape : (Tensor.replicate ⟨1, 1, 3, 5⟩ (Scalar.one : Float32)).shape = ⟨1, 1, 3, 5⟩ := rfl
  obtain ⟨values, table, hencode, htable, -, -, coarsest, -, decoded, hdecode, hdecoded⟩ :=
    round_trip (show 0 < 1 by decide) (show [1, 2] ≠ [] by decide) (by decide) hbuild (by decide)
      (by decide) (by decide) (by decide) hshape
  refine ⟨encoder, decoder, hbuild, values, table, coarsest, decoded, hencode, htable, hdecode, ?_⟩
  rw [hdecoded, htable]
  rfl

end Pyramid

end Midframe
