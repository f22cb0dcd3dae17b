import Midframe.Proofs.Pyramid.Edges
import Midframe.Proofs.Pyramid.Reconciliation

/-!
# Records of earlier passes

An encoder never clears the table it records in, and records nothing at a level it leaves without a
value; so what an earlier pass has recorded there stays. A decoder does not read it: it reads the
record of a level only if that level has a vertical block, the encoder of the same channel counts
then has one at the level above, and that one cannot have succeeded unless the level was left with a
value, and the shape of the value was recorded.
-/

namespace Midframe

namespace Pyramid

/-! ## What an encoder records -/

section Encoder

variable {τ : Type} [Flow τ] {scope : String} {levels : List (Level × Option τ)}

theorem recorded_get?_of_lt (table : ShapeTable) {level j : Nat} (h : j < level)
    (value : Option Shape) : (recorded table level value).get? j = table.get? j := by
  cases value with
  | none => rfl
  | some s => exact table.get?_insert_of_ne (Nat.ne_of_lt h) s

/-- Records of levels in front of a run stay. -/
theorem encodeLevels_get?_of_lt {level j : Nat} (h : j < level) (below : Option τ)
    (table : ShapeTable) :
    (encodeLevels scope level below table levels).2.get? j = table.get? j := by
  induction levels generalizing level below table with
  | nil => rfl
  | cons first rest ih =>
    obtain ⟨l, input⟩ := first
    cases hvalue : l.encode scope level input below with
    | error e =>
      unfold encodeLevels
      rw [hvalue]
    | ok value =>
      rw [encodeLevels_of_ok hvalue]
      exact (ih (Nat.lt_succ_of_lt h) value _).trans (recorded_get?_of_lt table h _)

/-- What is recorded has no say in the values. -/
theorem encodeLevels_fst_eq (level : Nat) (below : Option τ) (table table' : ShapeTable) :
    (encodeLevels scope level below table levels).1
      = (encodeLevels scope level below table' levels).1 := by
  induction levels generalizing level below table table' with
  | nil => rfl
  | cons first rest ih =>
    obtain ⟨l, input⟩ := first
    cases hvalue : l.encode scope level input below with
    | error e =>
      unfold encodeLevels
      rw [hvalue]
    | ok value =>
      rw [encodeLevels_of_ok hvalue, encodeLevels_of_ok hvalue]
      exact congrArg (Except.map (value :: ·)) (ih (level + 1) value _ _)

/-- The value of each level is made of the one below it, and its shape is recorded. -/
theorem encodeLevels_getElem? {level : Nat} {below : Option τ} {table left : ShapeTable}
    {results : List (Option τ)}
    (h : encodeLevels scope level below table levels = (.ok results, left)) {k : Nat} {l : Level}
    {input : Option τ} (hk : levels[k]? = some (l, input)) :
    ∃ value, results[k]? = some value ∧
      l.encode scope (level + k) input (below :: results)[k]?.join = .ok value ∧
      ∀ v, value = some v → left.get? (level + k) = some (Flow.shape v) := by
  induction levels generalizing level below table results k with
  | nil => cases hk
  | cons first rest ih =>
    obtain ⟨value, tail, hvalue, htail, rfl⟩ := encodeLevels_cons.mp h
    cases k with
    | zero =>
      cases hk
      refine ⟨value, rfl, hvalue, ?_⟩
      rintro v rfl
      have hleft := congrArg Prod.snd htail
      simp only at hleft
      rw [← hleft, Nat.add_zero]
      exact (encodeLevels_get?_of_lt (Nat.lt_succ_self level) _ _).trans
        (table.get?_insert_self level (Flow.shape v))
    | succ k =>
      obtain ⟨value', hvalue', hencode, hrecord⟩ := ih htail hk
      rw [Nat.add_assoc, Nat.add_comm 1] at hencode hrecord
      exact ⟨value', hvalue', hencode, hrecord⟩

variable {p : Encoder} {values results : List (Option τ)} {table left : ShapeTable}

theorem encode_fst_eq (p : Encoder) (values : List (Option τ)) (table table' : ShapeTable) :
    (p.encode values table).1 = (p.encode values table').1 := by
  unfold encode
  cases p.checkInputs values with
  | error e => rfl
  | ok u => exact encodeLevels_fst_eq 0 none table table'

theorem encode_eq_ok : p.encode values table = (.ok results, left) ↔
    values.length = p.levels.length ∧
      encodeLevels p.scope 0 none table (p.levels.zip values) = (.ok results, left) := by
  unfold encode
  rw [← checkInputs_eq_ok]
  cases p.checkInputs values with
  | error e =>
    constructor
    · intro h
      cases congrArg Prod.fst h
    · rintro ⟨h, -⟩
      cases h
  | ok u =>
    constructor
    · intro h
      exact ⟨rfl, h⟩
    · rintro ⟨-, h⟩
      exact h

/-- A level is recorded if it feeds the vertical block of the level above. -/
theorem exists_record (h : p.encode values table = (.ok results, left)) {i : Nat} {l : Level}
    (hl : p.levels[i + 1]? = some l) (hvertical : l.vertical.isSome = true) :
    ∃ v, results[i]? = some (some v) ∧ left.get? i = some (Flow.shape v) := by
  obtain ⟨hlength, hrun⟩ := encode_eq_ok.mp h
  obtain ⟨_, -, hencode, -⟩ := encodeLevels_getElem? hrun (zip_getElem? hlength hl)
  obtain ⟨own, c, hreceives, -⟩ := Level.exists_receives hvertical hencode
  obtain ⟨_, v, -, hbelow, -⟩ := hreceives.contribution
  -- What the vertical block was applied to is the value of the level below.
  have hlt : i < p.levels.length := by
    obtain ⟨hlt, -⟩ := List.getElem?_eq_some_iff.mp hl
    omega
  obtain ⟨value, hvalue, -, hrecord⟩ :=
    encodeLevels_getElem? hrun (zip_getElem? hlength (List.getElem?_eq_getElem hlt))
  rw [List.getElem?_cons_succ, hvalue] at hbelow
  cases hbelow
  rw [Nat.zero_add] at hrecord
  exact ⟨v, hvalue, hrecord v rfl⟩

end Encoder

/-! ## What a decoder reads -/

section Decoder

variable {τ : Type} [Flow τ] {table table' : ShapeTable}

/-- A decoder reads the records of levels with a vertical block only. -/
theorem decode_congr {p : Decoder}
    (h : ∀ (i : Nat) (l : Level), p.levels[i]? = some l → l.vertical.isSome = true →
      table.get? i = table'.get? i)
    (values : List (Option τ)) : p.decode values table = p.decode values table' := by
  unfold decode
  refine congrArg _ (funext fun _ => decodeLevels_congr fun k l input hk hvertical => ?_)
  rw [Nat.zero_add]
  exact h k l (List.getElem?_zip_eq_some.mp hk).1 hvertical

/-- No record is missing where every level with a vertical block has one. -/
theorem decode_ne_missing [LevelFreeFlow τ] {p : Decoder}
    (h : ∀ (i : Nat) (l : Level), p.levels[i]? = some l → l.vertical.isSome = true →
      ∃ s, table.get? i = some s)
    (values : List (Option τ)) (level : Nat) :
    p.decode values table ≠ .error (.missingShapeRecord level) := by
  intro hmissing
  obtain ⟨own, c, hreaches, hnone⟩ := decode_eq_missing.mp hmissing
  obtain ⟨l, above, hl, -, hreceives⟩ := hreaches.receives
  obtain ⟨block, v, hblock, -, -⟩ := hreceives.contribution
  obtain ⟨s, hs⟩ := h level l hl (Option.isSome_iff_exists.mpr ⟨block, hblock⟩)
  rw [hnone] at hs
  cases hs

end Decoder

/-! ## Both together -/

section Pairs

variable {inputs outputs : List Nat} {horizontal down up : String} {encoder : Encoder}
  {decoder : Decoder}

theorem isBuilt_of_buildPyramid
    (h : buildPyramid inputs outputs horizontal down up = .ok (encoder, decoder)) :
    encoder.IsBuilt "encoder" inputs outputs horizontal down ∧
      decoder.IsBuilt "decoder" outputs outputs horizontal up := by
  simp only [buildPyramid, bind_eq_ok, pure_eq_ok, Prod.mk.injEq] at h
  obtain ⟨_, hencoder, _, hdecoder, rfl, rfl⟩ := h
  exact ⟨.of_build hencoder, .of_build hdecoder⟩

/-- Where the decoder goes from a level down to the next one, the encoder goes up. -/
theorem exists_encoder_level {scope scope' : String}
    (hencoder : encoder.IsBuilt scope inputs outputs horizontal down)
    (hdecoder : decoder.IsBuilt scope' outputs outputs horizontal up) {i : Nat} {l : Level}
    (hl : decoder.levels[i]? = some l) (hvertical : l.vertical.isSome = true) :
    ∃ m, encoder.levels[i + 1]? = some m ∧ m.vertical.isSome = true := by
  obtain ⟨habove, hown⟩ := (hdecoder.vertical_isSome hl).mp hvertical
  obtain ⟨neighbour, hneighbour, houtput⟩ := Direction.exists_of_neighbourChannels habove
  rcases Direction.neighbour?_eq_some hneighbour with ⟨hd, -⟩ | ⟨-, rfl, hlt⟩
  · cases hd
  · rw [← hencoder.length] at hlt
    have hm := List.getElem?_eq_getElem hlt
    refine ⟨_, hm, (hencoder.vertical_isSome hm).mpr ⟨?_, ?_⟩⟩
    · rw [Direction.neighbourChannels_of_neighbour (Direction.neighbour?_fineToCoarse i _)]
      exact hown
    · rw [houtput]
      exact habove

/-- What a table held before a pass of the encoder has no effect on a pass of the decoder behind it:
the decoder gives the same values, or the same fault, as behind a pass that started from an empty
table. It never misses a record. -/
theorem decode_behind_encode {encoder' : Encoder} {decoder' : Decoder}
    (hbuild : buildPyramid inputs outputs horizontal down up = .ok (encoder', decoder'))
    (hencoder : encoder.form = encoder'.form) (hdecoder : decoder.form = decoder'.form)
    {τ σ : Type} [Flow τ] [Flow σ] [LevelFreeFlow σ] {values results : List (Option τ)}
    {table left : ShapeTable} (hpass : encoder.encode values table = (.ok results, left)) :
    ∃ fresh, encoder.encode values Keyed.empty = (.ok results, fresh) ∧
      ∀ coarse : List (Option σ), decoder.decode coarse left = decoder.decode coarse fresh ∧
        ∀ level, decoder.decode coarse left ≠ .error (.missingShapeRecord level) ∧
          decoder.decode coarse fresh ≠ .error (.missingShapeRecord level) := by
  obtain ⟨hbuilt, hbuilt'⟩ := isBuilt_of_buildPyramid hbuild
  have hlinks (i : Nat) (l : Level) (hl : decoder.levels[i]? = some l)
      (hvertical : l.vertical.isSome = true) :
      ∃ m, encoder.levels[i + 1]? = some m ∧ m.vertical.isSome = true :=
    exists_encoder_level (hbuilt.of_form_eq hencoder) (hbuilt'.of_form_eq hdecoder) hl hvertical
  have hvalues := encode_fst_eq encoder values Keyed.empty table
  rw [hpass] at hvalues
  obtain ⟨fresh, hfresh⟩ : ∃ fresh, encoder.encode values Keyed.empty = (.ok results, fresh) :=
    ⟨(encoder.encode values Keyed.empty).2, Prod.ext hvalues rfl⟩
  have hrecords (i : Nat) (l : Level) (hl : decoder.levels[i]? = some l)
      (hvertical : l.vertical.isSome = true) :
      ∃ s, left.get? i = some s ∧ fresh.get? i = some s := by
    obtain ⟨m, hm, hmvertical⟩ := hlinks i l hl hvertical
    obtain ⟨v, hv, hleft⟩ := exists_record hpass hm hmvertical
    obtain ⟨v', hv', hfresh⟩ := exists_record hfresh hm hmvertical
    cases hv.symm.trans hv'
    exact ⟨Flow.shape v, hleft, hfresh⟩
  refine ⟨fresh, hfresh, fun coarse => ⟨?_, fun level => ⟨?_, ?_⟩⟩⟩
  · refine decode_congr (fun i l hl hvertical => ?_) coarse
    obtain ⟨s, hleft, hfresh⟩ := hrecords i l hl hvertical
    rw [hleft, hfresh]
  · refine decode_ne_missing (fun i l hl hvertical => ?_) coarse level
    obtain ⟨s, hleft, -⟩ := hrecords i l hl hvertical
    exact ⟨s, hleft⟩
  · refine decode_ne_missing (fun i l hl hvertical => ?_) coarse level
    obtain ⟨s, -, hfresh⟩ := hrecords i l hl hvertical
    exact ⟨s, hfresh⟩

/-- Two levels over three rows and five columns, and a third that is never reached. Records of it
and of the first level are left from elsewhere; the decoder reads neither of them. -/
theorem decode_behind_encode_stale : ∃ (encoder : Encoder) (decoder : Decoder)
    (values results : List (Option (Tensor Float32))) (left fresh : ShapeTable),
    buildPyramid [1, 0, 0] [1, 2, 0] "conv(1)-conv(1)" "sconv(1)-conv(1)"
      "up(nearest)-conv(1)-conv(1)" = .ok (encoder, decoder) ∧
    encoder.encode values ((Keyed.empty.insert 0 ⟨1, 1, 9, 9⟩).insert 2 ⟨1, 1, 9, 9⟩)
      = (.ok results, left) ∧
    encoder.encode values Keyed.empty = (.ok results, fresh) ∧
    left.get? 2 = some ⟨1, 1, 9, 9⟩ ∧ fresh.get? 2 = none ∧
    decoder.decode results left = decoder.decode results fresh ∧
    ∀ level, decoder.decode results left ≠ .error (.missingShapeRecord level) := by
  obtain ⟨⟨encoder, decoder⟩, hbuild, hrun⟩ := exists_eq_ok_of_map (show
      (buildPyramid [1, 0, 0] [1, 2, 0] "conv(1)-conv(1)" "sconv(1)-conv(1)"
        "up(nearest)-conv(1)-conv(1)").toOption.map
      (fun p =>
        let values := [some (Tensor.replicate ⟨1, 1, 3, 5⟩ (Scalar.one : Float32)), none, none]
        let stale := (Keyed.empty.insert 0 ⟨1, 1, 9, 9⟩).insert 2 ⟨1, 1, 9, 9⟩
        ((p.1.encode values stale).1.isOk, (p.1.encode values stale).2.get? 2,
          (p.1.encode values Keyed.empty).2.get? 2))
      = some (true, some ⟨1, 1, 9, 9⟩, none) by decide +kernel)
  simp only [Prod.mk.injEq] at hrun
  obtain ⟨hok, hleft, hfresh⟩ := hrun
  obtain ⟨results, hresults⟩ := exists_eq_ok_of_isOk hok
  obtain ⟨fresh, hpass, hdecode⟩ := decode_behind_encode hbuild rfl rfl (σ := Tensor Float32)
    (Prod.ext hresults rfl)
  obtain ⟨hsame, hnever⟩ := hdecode results
  refine ⟨encoder, decoder, _, results, _, fresh, hbuild, Prod.ext hresults rfl, hpass, hleft, ?_,
    hsame, fun level => (hnever level).1⟩
  rw [hpass] at hfresh
  exact hfresh

end Pairs

end Pyramid

end Midframe
