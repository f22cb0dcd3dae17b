import Midframe.Proofs.Pyramid.Records

/-!
# Levels with a value, and faults of passes

A level that has a vertical block or an input is left with a value, in either direction: what a pass
leaves empty is a level that had nothing to start from. And a pass through a pyramid that fails does
so for the arrays it met, or for a contribution that a decoder could not fit to its record or
compare with it.
-/

namespace Midframe

/-- A fault of a pass through a pyramid. -/
def Fault.IsOfPasses : Fault → Prop
  | shapeReconciliation .. | missingShapeRecord _ | overflow => True
  | e => e.IsOfArrays

theorem Fault.IsOfArrays.isOfPasses {e : Fault} (h : e.IsOfArrays) : e.IsOfPasses := by
  cases e with
  | shapeReconciliation => exact trivial
  | missingShapeRecord => exact trivial
  | overflow => exact trivial
  | _ => exact h

/-! ## One level -/

namespace Level

variable {τ : Type} [Flow τ] {l : Level} {scope : String} {level neighbour : Nat}
  {fit : Option τ → τ → Except Fault (Option τ)} {input source value : Option τ}

theorem ownValue_isSome (h : l.ownValue input = .ok value) : value.isSome = input.isSome := by
  unfold ownValue at h
  cases hblock : l.horizontal with
  | none =>
    rw [hblock] at h
    cases h
    rfl
  | some block =>
    rw [hblock] at h
    cases input with
    | none =>
      cases h
      rfl
    | some v =>
      obtain ⟨u, -, rfl⟩ := map_eq_ok.mp h
      rfl

/-- A level with a vertical block or an input is left with a value, if contributions are fitted to
give one. -/
theorem joined_isSome (hfit : ∀ own c o, fit own c = .ok o → o.isSome = true)
    (h : l.joined scope level neighbour fit input source = .ok value)
    (hthere : l.vertical.isSome = true ∨ input.isSome = true) : value.isSome = true := by
  rcases hthere with hvertical | hinput
  · obtain ⟨own, c, -, hvalue⟩ := exists_receives hvertical h
    exact hfit own c value hvalue
  · obtain ⟨own, contribution, hown, -, hvalue⟩ := joined_eq_ok.mp h
    cases contribution with
    | none =>
      obtain rfl := pure_eq_ok.mp hvalue
      rw [ownValue_isSome hown]
      exact hinput
    | some c => exact hfit own c value hvalue

theorem encode_isSome (h : l.encode scope level input source = .ok value)
    (hthere : l.vertical.isSome = true ∨ input.isSome = true) : value.isSome = true := by
  rw [encode_eq_joined] at h
  refine joined_isSome (fun own c o ho => ?_) h hthere
  obtain ⟨_, -, rfl⟩ := functor_map_eq_ok.mp ho
  rfl

theorem decode_isSome {table : ShapeTable} (h : l.decode scope table level input source = .ok value)
    (hthere : l.vertical.isSome = true ∨ input.isSome = true) : value.isSome = true := by
  rw [decode_eq_joined] at h
  refine joined_isSome (fun own c o ho => ?_) h hthere
  obtain ⟨_, _, _, -, -, -, rfl⟩ := fitted_eq_ok.mp ho
  rfl

section Faults

variable [LevelFreeFlow τ]

theorem contribution_faults (l : Level) (scope : String) (level neighbour : Nat)
    (source : Option τ) :
    FailsWith Fault.IsOfArrays (l.contribution scope level neighbour source) := by
  unfold contribution
  cases l.vertical with
  | none => exact .ok none
  | some block =>
    cases source with
    | none => exact .error trivial
    | some v => exact (LevelFreeFlow.apply_faults block v).map some

theorem combine_faults (value : Option τ) (c : τ) :
    FailsWith Fault.IsOfArrays (combine value c) := by
  cases value with
  | none => exact .ok c
  | some v => exact LevelFreeFlow.add_faults v c

/-- A level of an encoder fails for its arrays only. -/
theorem encode_faults (l : Level) (scope : String) (level : Nat) (input below : Option τ) :
    FailsWith Fault.IsOfArrays (l.encode scope level input below) := by
  refine (ownValue_faults l input).bind fun own => ?_
  refine (contribution_faults l scope level (level - 1) below).bind fun contribution => ?_
  cases contribution with
  | none => exact .ok own
  | some c => exact (combine_faults own c).map some

end Faults

end Level

/-! ## All levels -/

namespace Pyramid

variable {τ : Type} [Flow τ] {values results : List (Option τ)} {table left : ShapeTable} {i : Nat}
  {l : Level}

theorem exists_encoded {p : Encoder} (h : p.encode values table = (.ok results, left))
    (hl : p.levels[i]? = some l)
    (hthere : l.vertical.isSome = true ∨ values[i]?.join.isSome = true) :
    ∃ v, results[i]? = some (some v) := by
  obtain ⟨hlength, hrun⟩ := encode_eq_ok.mp h
  obtain ⟨value, hvalue, hencode, -⟩ := encodeLevels_getElem? hrun (zip_getElem? hlength hl)
  obtain ⟨v, rfl⟩ := Option.isSome_iff_exists.mp (Level.encode_isSome hencode hthere)
  exact ⟨v, hvalue⟩

theorem exists_decoded {p : Decoder} (h : p.decode values table = .ok results)
    (hl : p.levels[i]? = some l)
    (hthere : l.vertical.isSome = true ∨ values[i]?.join.isSome = true) :
    ∃ v, results[i]? = some (some v) := by
  obtain ⟨hlength, hrun⟩ := decode_eq_ok.mp h
  obtain ⟨value, hvalue, hdecode⟩ := decodeLevels_getElem? hrun (zip_getElem? hlength hl)
  obtain ⟨v, rfl⟩ := Option.isSome_iff_exists.mp (Level.decode_isSome hdecode hthere)
  exact ⟨v, hvalue⟩

section Faults

variable [LevelFreeFlow τ]

theorem encodeLevels_faults (scope : String) (level : Nat) (below : Option τ) (table : ShapeTable)
    (levels : List (Level × Option τ)) :
    FailsWith Fault.IsOfArrays (encodeLevels scope level below table levels).1 := by
  induction levels generalizing level below table with
  | nil => exact .ok []
  | cons first rest ih =>
    obtain ⟨l, input⟩ := first
    have hlevel := Level.encode_faults l scope level input below
    cases hvalue : l.encode scope level input below with
    | error e =>
      unfold encodeLevels
      rw [hvalue]
      exact .error (hlevel e hvalue)
    | ok value =>
      rw [encodeLevels_of_ok hvalue]
      exact (ih (level + 1) value _).map (value :: ·)

theorem encode_faults (p : Encoder) (values : List (Option τ)) (table : ShapeTable) :
    FailsWith Fault.IsOfPasses (p.encode values table).1 := by
  have hinputs := checkInputs_faults p values
  have hlevels := encodeLevels_faults p.scope 0 none table (p.levels.zip values)
  unfold encode
  cases hcheck : p.checkInputs values with
  | error e => exact .error (hinputs e hcheck).isOfPasses
  | ok u => exact hlevels.mono fun _ => Fault.IsOfArrays.isOfPasses

theorem decode_faults (p : Decoder) (values : List (Option τ)) (table : ShapeTable) :
    FailsWith Fault.IsOfPasses (p.decode values table) := by
  intro e h
  rcases exists_reaches h with harrays | ⟨_, _, _, -, hfitted⟩
  · exact harrays.isOfPasses
  · rcases Level.misfits_of_fitted hfitted with harrays | hmisfits
    · exact harrays.isOfPasses
    · cases hmisfits <;> exact trivial

end Faults

end Pyramid

end Midframe
