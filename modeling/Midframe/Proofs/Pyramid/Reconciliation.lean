import Midframe.Proofs.Block.Faults
import Midframe.Proofs.Keyed
import Midframe.Proofs.Pyramid.Inference
import Midframe.Proofs.Tensor.Samples

/-!
# Reconciliation with recorded shapes

A decoder fits the contribution to a level to the shape recorded for that level. The contribution
may cover it with one row and one column to spare, which it loses at the trailing edges; where it is
too small or has more to spare, or where nothing is recorded, the pass ends there. So a pass that
succeeds leaves every level with a vertical block at its recorded size, and a pass that ends with a
fault of the table names the first level, from the coarsest one down, that could not be fitted.
-/

namespace Midframe

namespace Shape

/-- The wanted rows and columns are there, and no more than one to spare of either. -/
def Covers (found wanted : Shape) : Prop :=
  (found.height = wanted.height ∨ found.height = wanted.height + 1) ∧
    (found.width = wanted.width ∨ found.width = wanted.width + 1)

instance (found wanted : Shape) : Decidable (found.Covers wanted) :=
  inferInstanceAs (Decidable (_ ∧ _))

theorem not_covers_iff {found wanted : Shape} : ¬ found.Covers wanted ↔
    found.height < wanted.height ∨ wanted.height + 2 ≤ found.height ∨
      found.width < wanted.width ∨ wanted.width + 2 ≤ found.width := by
  unfold Covers
  omega

/-- Comparing the extents takes one row or column more than a machine word can count: the height is
not the wanted one, or it goes with it and the width is not. -/
def Outgrows (found wanted : Shape) : Prop :=
  (found.height ≠ wanted.height ∧ maxCount ≤ wanted.height) ∨
    ((found.height = wanted.height ∨ found.height = wanted.height + 1) ∧
      found.width ≠ wanted.width ∧ maxCount ≤ wanted.width)

instance (found wanted : Shape) : Decidable (found.Outgrows wanted) :=
  inferInstanceAs (Decidable (_ ∨ _))

/-- No shape outgrows one with smaller extents than the largest count. -/
theorem not_outgrows_of_lt {wanted : Shape} (hheight : wanted.height < maxCount)
    (hwidth : wanted.width < maxCount) (found : Shape) : ¬ found.Outgrows wanted := by
  rintro (⟨-, h⟩ | ⟨-, -, h⟩)
  · exact Nat.not_le.mpr hheight h
  · exact Nat.not_le.mpr hwidth h

end Shape

theorem ShapeTable.get?_insert_self (table : ShapeTable) (level : Nat) (s : Shape) :
    (table.insert level s).get? level = some s := by
  rw [Keyed.get?_insert, if_pos (by simp)]

theorem ShapeTable.get?_insert_of_ne (table : ShapeTable) {level other : Nat} (h : other ≠ level)
    (s : Shape) : (table.insert level s).get? other = table.get? other := by
  rw [Keyed.get?_insert, if_neg (by simpa using h)]

/-! ## One level -/

namespace Level

variable {τ : Type} [Flow τ]

theorem isCroppable_of_overflow {found wanted : Nat} (hne : found ≠ wanted)
    (h : maxCount ≤ wanted) : isCroppable found wanted = .error .overflow := by
  rw [isCroppable, if_neg (by simpa using hne), checkedCount_of_lt (Nat.lt_succ_of_le h)]
  rfl

theorem isCroppable_eq {found wanted : Nat} (h : ¬ (found ≠ wanted ∧ maxCount ≤ wanted)) :
    isCroppable found wanted = .ok (decide (found = wanted ∨ found = wanted + 1)) := by
  unfold isCroppable
  by_cases heq : found = wanted
  · rw [if_pos (by simpa using heq), decide_eq_true (.inl heq)]
    rfl
  · have hle : wanted + 1 ≤ maxCount := Nat.not_le.mp fun hle => h ⟨heq, hle⟩
    rw [if_neg (by simpa using heq), checkedCount_of_le hle]
    simp only [heq, false_or]
    rfl

theorem fits_of_outgrows {found wanted : Shape} (h : found.Outgrows wanted) :
    fits found wanted = .error .overflow := by
  unfold fits
  rcases h with ⟨hne, hle⟩ | ⟨hheight, hne, hle⟩
  · rw [isCroppable_of_overflow hne hle]
    rfl
  · by_cases hlarge : found.height ≠ wanted.height ∧ maxCount ≤ wanted.height
    · rw [isCroppable_of_overflow hlarge.1 hlarge.2]
      rfl
    · rw [isCroppable_eq hlarge, decide_eq_true hheight]
      exact isCroppable_of_overflow hne hle

theorem fits_eq {found wanted : Shape} (h : ¬ found.Outgrows wanted) :
    fits found wanted = .ok (decide (found.Covers wanted)) := by
  have hheight := isCroppable_eq fun hlarge => h (.inl hlarge)
  unfold fits
  rw [hheight]
  by_cases hfits : found.height = wanted.height ∨ found.height = wanted.height + 1
  · have hwidth := isCroppable_eq fun hlarge => h (.inr ⟨hfits, hlarge⟩)
    simp only [Shape.Covers, hfits, true_and]
    exact hwidth
  · simp only [Shape.Covers, hfits, false_and]
    rfl

theorem reconcile_of_outgrows {c : τ} {wanted : Shape} (level : Nat)
    (h : (Flow.shape c).Outgrows wanted) : reconcile level c wanted = .error .overflow := by
  rw [reconcile, fits_of_outgrows h]
  rfl

theorem reconcile_of_covers {c : τ} {wanted : Shape} (level : Nat)
    (hcounted : ¬ (Flow.shape c).Outgrows wanted) (h : (Flow.shape c).Covers wanted) :
    reconcile level c wanted =
      if (Flow.shape c).height = wanted.height ∧ (Flow.shape c).width = wanted.width then .ok c
      else Flow.crop c wanted.height wanted.width := by
  rw [reconcile, fits_eq hcounted, decide_eq_true h]
  simp only [Bool.and_eq_true, beq_iff_eq]
  rfl

theorem reconcile_of_not_covers {c : τ} {wanted : Shape} (level : Nat)
    (hcounted : ¬ (Flow.shape c).Outgrows wanted) (h : ¬ (Flow.shape c).Covers wanted) :
    reconcile level c wanted = .error (.shapeReconciliation level wanted (Flow.shape c)) := by
  rw [reconcile, fits_eq hcounted, decide_eq_false h]
  rfl

/-- A level has its own value, and its vertical block made a contribution of the value above. -/
structure Receives (l : Level) (input above : Option τ) (own : Option τ) (c : τ) : Prop where
  /-- The own value, or none. -/
  own : l.ownValue input = .ok own
  /-- The contribution. -/
  contribution : ∃ block v, l.vertical = some block ∧ above = some v ∧ Flow.apply block v = .ok c

variable {l : Level} {scope : String} {table : ShapeTable} {level : Nat}
  {input above own value : Option τ} {c : τ} {e : Fault}

/-- What is left to do with a contribution is to fit it and to add it. -/
theorem Receives.decode (h : l.Receives input above own c) (scope : String) (table : ShapeTable)
    (level : Nat) : l.decode scope table level input above = fitted table level own c := by
  obtain ⟨hown, block, v, hblock, rfl, hc⟩ := h
  have hcontribution : l.contribution scope level (level + 1) (some v) = .ok (some c) := by
    unfold Level.contribution
    rw [hblock]
    exact map_eq_ok.mpr ⟨c, hc, rfl⟩
  rw [decode_eq_joined]
  unfold joined
  rw [hown, hcontribution]
  rfl

/-- A level with a vertical block cannot do without the neighbour. -/
theorem exists_receives {neighbour : Nat} {fit : Option τ → τ → Except Fault (Option τ)}
    (hblock : l.vertical.isSome = true)
    (h : l.joined scope level neighbour fit input above = .ok value) :
    ∃ own c, l.Receives input above own c ∧ fit own c = .ok value := by
  obtain ⟨own, contribution, hown, hcontribution, hvalue⟩ := joined_eq_ok.mp h
  obtain ⟨block, hblock⟩ := Option.isSome_iff_exists.mp hblock
  unfold Level.contribution at hcontribution
  rw [hblock] at hcontribution
  cases above with
  | none => cases hcontribution
  | some v =>
    obtain ⟨c, hc, rfl⟩ := map_eq_ok.mp hcontribution
    exact ⟨own, c, ⟨hown, block, v, hblock, rfl, hc⟩, hvalue⟩

/-- The record of a level is read only if the level has a vertical block. -/
theorem decode_congr {table' : ShapeTable}
    (h : l.vertical.isSome = true → table.get? level = table'.get? level)
    (scope : String) (input above : Option τ) :
    l.decode scope table level input above = l.decode scope table' level input above := by
  rw [decode_eq_joined, decode_eq_joined]
  cases hvertical : l.vertical with
  | none =>
    unfold joined contribution
    rw [hvertical]
    rfl
  | some block =>
    have hfitted : (fitted table level : Option τ → τ → _) = fitted table' level := by
      funext own c
      unfold fitted
      rw [h (by rw [hvertical]; rfl)]
    rw [hfitted]

theorem ownValue_faults [LevelFreeFlow τ] (l : Level) (input : Option τ) :
    FailsWith Fault.IsOfArrays (l.ownValue input) := by
  unfold ownValue
  cases l.horizontal with
  | none => exact .ok input
  | some block =>
    cases input with
    | none => exact .ok none
    | some v => exact (LevelFreeFlow.apply_faults block v).map some

/-- A level fails for its arrays, or for a contribution that cannot be fitted. -/
theorem decode_eq_error [LevelFreeFlow τ]
    (h : l.decode scope table level input above = .error e) :
    e.IsOfArrays ∨ ∃ own c, l.Receives input above own c ∧ fitted table level own c = .error e := by
  rw [decode_eq_joined] at h
  unfold joined Level.contribution at h
  rcases bind_eq_error.mp h with h | ⟨own, hown, h⟩
  · exact .inl (ownValue_faults l input e h)
  · cases hblock : l.vertical with
    | none =>
      rw [hblock] at h
      cases h
    | some block =>
      rw [hblock] at h
      cases above with
      | none =>
        cases h
        exact .inl trivial
      | some v =>
        rcases bind_eq_error.mp h with h | ⟨contribution, hcontribution, h⟩
        · exact .inl (LevelFreeFlow.apply_faults block v e (map_eq_error.mp h))
        · obtain ⟨c, hc, rfl⟩ := map_eq_ok.mp hcontribution
          exact .inr ⟨own, c, ⟨hown, block, v, hblock, rfl, hc⟩, h⟩

theorem fitted_eq_ok : fitted table level own c = .ok value ↔
    ∃ entry r out, table.get? level = some entry ∧ reconcile level c entry = .ok r ∧
      combine own r = .ok out ∧ some out = value := by
  unfold fitted
  cases table.get? level with
  | none =>
    constructor
    · intro h
      cases h
    · rintro ⟨_, _, _, h, -⟩
      cases h
  | some entry =>
    simp only [bind_eq_ok, functor_map_eq_ok]
    constructor
    · rintro ⟨r, hr, out, hout, hvalue⟩
      exact ⟨entry, r, out, rfl, hr, hout, hvalue⟩
    · rintro ⟨_, r, out, hentry, hr, hout, hvalue⟩
      cases hentry
      exact ⟨r, hr, out, hout, hvalue⟩

/-- What the record of a level says against a contribution: there is none, it is not covered, or it
cannot be compared. -/
inductive Misfits (table : ShapeTable) (level : Nat) (found : Shape) : Fault → Prop
  /-- Nothing is recorded. -/
  | missing (h : table.get? level = none) : Misfits table level found (.missingShapeRecord level)
  /-- The recorded shape is not covered. -/
  | drift {entry : Shape} (h : table.get? level = some entry) (counted : ¬ found.Outgrows entry)
      (apart : ¬ found.Covers entry) :
      Misfits table level found (.shapeReconciliation level entry found)
  /-- The recorded shape is too large to be compared. -/
  | overflow {entry : Shape} (h : table.get? level = some entry) (large : found.Outgrows entry) :
      Misfits table level found .overflow

theorem Misfits.fitted_eq_error (h : Misfits table level (Flow.shape c) e) :
    fitted table level own c = .error e := by
  unfold fitted
  cases h with
  | missing h =>
    rw [h]
    rfl
  | drift h counted apart =>
    rw [h]
    simp only [reconcile_of_not_covers level counted apart]
    rfl
  | overflow h large =>
    rw [h]
    simp only [reconcile_of_outgrows level large]
    rfl

/-- A contribution cannot be fitted if the record is against it, or if the arrays do not add up. -/
theorem misfits_of_fitted [LevelFreeFlow τ] (h : fitted table level own c = .error e) :
    e.IsOfArrays ∨ Misfits table level (Flow.shape c) e := by
  unfold fitted at h
  cases hentry : table.get? level with
  | none =>
    rw [hentry] at h
    cases h
    exact .inr (.missing hentry)
  | some entry =>
    rw [hentry] at h
    by_cases hlarge : (Flow.shape c).Outgrows entry
    · simp only [reconcile_of_outgrows level hlarge] at h
      cases h
      exact .inr (.overflow hentry hlarge)
    · by_cases hcovers : (Flow.shape c).Covers entry
      · left
        rcases bind_eq_error.mp h with h | ⟨r, -, h⟩
        · rw [reconcile_of_covers level hlarge hcovers] at h
          split at h
          · cases h
          · exact LevelFreeFlow.crop_faults c _ _ e h
        · rw [functor_map_eq_error] at h
          cases own with
          | none => cases h
          | some v => exact LevelFreeFlow.add_faults v r e h
      · simp only [reconcile_of_not_covers level hlarge hcovers] at h
        cases h
        exact .inr (.drift hentry hlarge hcovers)

end Level

/-! ## All levels -/

namespace Pyramid

variable {τ : Type} [Flow τ]

section Runs

variable {scope : String} {table : ShapeTable} {level : Nat} {levels : List (Level × Option τ)}

/-- The value of each level is made of the one above it. -/
theorem decodeLevels_getElem? {results : List (Option τ)}
    (h : decodeLevels scope table level levels = .ok results) {k : Nat} {l : Level}
    {input : Option τ} (hk : levels[k]? = some (l, input)) :
    ∃ value, results[k]? = some value ∧
      l.decode scope table (level + k) input results[k + 1]?.join = .ok value := by
  induction levels generalizing level results k with
  | nil => cases hk
  | cons first rest ih =>
    obtain ⟨value, tail, htail, hvalue, rfl⟩ := decodeLevels_cons.mp h
    cases k with
    | zero =>
      cases hk
      rw [List.head?_eq_getElem?] at hvalue
      exact ⟨value, rfl, hvalue⟩
    | succ k =>
      obtain ⟨value', hvalue', hdecode⟩ := ih htail hk
      rw [Nat.add_assoc, Nat.add_comm 1] at hdecode
      exact ⟨value', hvalue', hdecode⟩

/-- A fault is that of a level above which all have their values. -/
theorem decodeLevels_eq_error {e : Fault} : decodeLevels scope table level levels = .error e ↔
    ∃ k l input above, levels[k]? = some (l, input) ∧
      decodeLevels scope table (level + k + 1) (levels.drop (k + 1)) = .ok above ∧
      l.decode scope table (level + k) input above.head?.join = .error e := by
  induction levels generalizing level with
  | nil =>
    constructor
    · intro h
      cases h
    · rintro ⟨_, _, _, _, h, -⟩
      cases h
  | cons first rest ih =>
    obtain ⟨l, input⟩ := first
    have hstep : decodeLevels scope table level ((l, input) :: rest) = .error e ↔
        decodeLevels scope table (level + 1) rest = .error e ∨
          ∃ above, decodeLevels scope table (level + 1) rest = .ok above ∧
            l.decode scope table level input above.head?.join = .error e := by
      rw [decodeLevels, bind_eq_error]
      refine or_congr_right (exists_congr fun above => and_congr_right fun _ => ?_)
      rw [bind_eq_error]
      constructor
      · rintro (h | ⟨_, -, h⟩)
        · exact h
        · cases h
      · exact .inl
    rw [hstep, ih]
    constructor
    · rintro (⟨k, l', input', above, hk, habove, hdecode⟩ | ⟨above, habove, hdecode⟩)
      · rw [Nat.add_right_comm level 1 k] at habove hdecode
        exact ⟨k + 1, l', input', above, hk, habove, hdecode⟩
      · exact ⟨0, l, input, above, rfl, habove, hdecode⟩
    · rintro ⟨k, l', input', above, hk, habove, hdecode⟩
      cases k with
      | zero =>
        cases hk
        exact .inr ⟨above, habove, hdecode⟩
      | succ k =>
        rw [← Nat.add_assoc, Nat.add_right_comm level k 1] at habove hdecode
        exact .inl ⟨k, l', input', above, hk, habove, hdecode⟩

theorem decodeLevels_congr {table' : ShapeTable}
    (h : ∀ k l input, levels[k]? = some (l, input) → l.vertical.isSome = true →
      table.get? (level + k) = table'.get? (level + k)) :
    decodeLevels scope table level levels = decodeLevels scope table' level levels := by
  induction levels generalizing level with
  | nil => rfl
  | cons first rest ih =>
    obtain ⟨l, input⟩ := first
    have hrest : decodeLevels scope table (level + 1) rest
        = decodeLevels scope table' (level + 1) rest := by
      refine ih fun k l' input' hk hvertical => ?_
      rw [Nat.add_right_comm level 1 k]
      exact h (k + 1) l' input' hk hvertical
    unfold decodeLevels
    rw [hrest]
    refine congrArg _ (funext fun above => ?_)
    have hlevel := Level.decode_congr (h 0 l input rfl) scope input above.head?.join
    rw [Nat.add_zero] at hlevel
    rw [hlevel]

end Runs

/-- A pass gets down to a level: all levels above have their values, and the level has its own value
and a contribution. -/
structure Reaches (p : Decoder) (values : List (Option τ)) (table : ShapeTable) (level : Nat)
    (own : Option τ) (c : τ) : Prop where
  /-- Every level has one input. -/
  length : values.length = p.levels.length
  /-- The contribution is made of what the pass left above. -/
  receives : ∃ l above, p.levels[level]? = some l ∧
    decodeLevels p.scope table (level + 1) ((p.levels.zip values).drop (level + 1)) = .ok above ∧
    l.Receives values[level]?.join above.head?.join own c

variable {p : Decoder} {values : List (Option τ)} {table : ShapeTable} {level : Nat}
  {own : Option τ} {c : τ} {e : Fault}

theorem decode_eq_ok {results : List (Option τ)} : p.decode values table = .ok results ↔
    values.length = p.levels.length ∧
      decodeLevels p.scope table 0 (p.levels.zip values) = .ok results := by
  unfold decode
  rw [bind_eq_ok, ← checkInputs_eq_ok]
  constructor
  · rintro ⟨⟨⟩, hcheck, h⟩
    exact ⟨hcheck, h⟩
  · rintro ⟨hcheck, h⟩
    exact ⟨(), hcheck, h⟩

/-- A pass ends before its first level, or at a level. -/
theorem decode_eq_error : p.decode values table = .error e ↔
    p.checkInputs values = .error e ∨ values.length = p.levels.length ∧
      decodeLevels p.scope table 0 (p.levels.zip values) = .error e := by
  unfold decode
  rw [bind_eq_error, ← checkInputs_eq_ok]
  refine or_congr_right ?_
  constructor
  · rintro ⟨⟨⟩, hcheck, h⟩
    exact ⟨hcheck, h⟩
  · rintro ⟨hcheck, h⟩
    exact ⟨(), hcheck, h⟩

omit [Flow τ] in
theorem checkInputs_faults {d : Direction} (p : Pyramid d) (values : List (Option τ)) :
    FailsWith Fault.IsOfArrays (p.checkInputs values) := by
  unfold checkInputs
  split
  · exact .error trivial
  · exact .ok ()

omit [Flow τ] in
theorem zip_getElem? {d : Direction} {p : Pyramid d} {l : Level}
    (hlength : values.length = p.levels.length) (hl : p.levels[level]? = some l) :
    (p.levels.zip values)[level]? = some (l, values[level]?.join) := by
  obtain ⟨hlt, -⟩ := List.getElem?_eq_some_iff.mp hl
  have hvalue := List.getElem?_eq_getElem (hlength ▸ hlt : level < values.length)
  refine List.getElem?_zip_eq_some.mpr ⟨hl, ?_⟩
  rw [hvalue]
  rfl

/-- How far a pass gets does not depend on the records of the level and those below. -/
theorem Reaches.of_records (h : p.Reaches values table level own c) {table' : ShapeTable}
    (records : ∀ other, level < other → table.get? other = table'.get? other) :
    p.Reaches values table' level own c := by
  obtain ⟨hlength, l, above, hl, habove, hreceives⟩ := h
  refine ⟨hlength, l, above, hl, ?_, hreceives⟩
  rw [← habove]
  exact (decodeLevels_congr fun k _ _ _ _ => records _ (by omega)).symm

/-- What cannot be fitted ends the pass. -/
theorem Reaches.decode_eq_error (h : p.Reaches values table level own c)
    (he : Level.fitted table level own c = .error e) : p.decode values table = .error e := by
  obtain ⟨hlength, l, above, hl, habove, hreceives⟩ := h
  refine Pyramid.decode_eq_error.mpr (.inr ⟨hlength, ?_⟩)
  refine decodeLevels_eq_error.mpr
    ⟨level, l, values[level]?.join, above, zip_getElem? hlength hl, ?_, ?_⟩
  · rw [Nat.zero_add]
    exact habove
  · rw [Nat.zero_add, hreceives.decode]
    exact he

/-- A pass ends for its arrays, or at a contribution that cannot be fitted. -/
theorem exists_reaches [LevelFreeFlow τ] (h : p.decode values table = .error e) :
    e.IsOfArrays ∨ ∃ level own c, p.Reaches values table level own c ∧
      Level.fitted table level own c = .error e := by
  rcases decode_eq_error.mp h with h | ⟨hlength, h⟩
  · exact .inl (checkInputs_faults p values e h)
  · obtain ⟨k, l, input, above, hk, habove, hdecode⟩ := decodeLevels_eq_error.mp h
    obtain ⟨hl, hinput⟩ := List.getElem?_zip_eq_some.mp hk
    rw [Nat.zero_add] at habove hdecode
    rcases Level.decode_eq_error hdecode with harrays | ⟨own, c, hreceives, hfitted⟩
    · exact .inl harrays
    · have hjoin : values[k]?.join = input := by
        rw [hinput]
        rfl
      exact .inr ⟨k, own, c, ⟨hlength, l, above, hl, habove, hjoin ▸ hreceives⟩, hfitted⟩

/-- The pass ends with a fault that is not one of arrays exactly if it gets down to a level with a
contribution that the record of this level is against. -/
theorem decode_eq_misfit [LevelFreeFlow τ] (he : ¬ e.IsOfArrays) :
    p.decode values table = .error e ↔ ∃ level own c, p.Reaches values table level own c ∧
      Level.Misfits table level (Flow.shape c) e := by
  constructor
  · intro h
    rcases exists_reaches h with harrays | ⟨level, own, c, hreaches, hfitted⟩
    · exact absurd harrays he
    · rcases Level.misfits_of_fitted hfitted with harrays | hmisfits
      · exact absurd harrays he
      · exact ⟨level, own, c, hreaches, hmisfits⟩
  · rintro ⟨level, own, c, hreaches, hmisfits⟩
    exact hreaches.decode_eq_error hmisfits.fitted_eq_error

/-- The pass ends at a level for what is recorded there exactly if it gets down to that level with a
contribution that the record does not allow. -/
theorem decode_eq_drift [LevelFreeFlow τ] {entry found : Shape} :
    p.decode values table = .error (.shapeReconciliation level entry found) ↔
      ∃ own c, p.Reaches values table level own c ∧ table.get? level = some entry ∧
        Flow.shape c = found ∧ ¬ found.Outgrows entry ∧ ¬ found.Covers entry := by
  rw [decode_eq_misfit id]
  constructor
  · rintro ⟨_, own, c, hreaches, hmisfits⟩
    cases hmisfits with
    | drift hentry counted apart => exact ⟨own, c, hreaches, hentry, rfl, counted, apart⟩
  · rintro ⟨own, c, hreaches, hentry, rfl, counted, apart⟩
    exact ⟨level, own, c, hreaches, .drift hentry counted apart⟩

/-- The pass ends at a level for want of a record exactly if it gets down to that level with a
contribution and nothing is recorded there. -/
theorem decode_eq_missing [LevelFreeFlow τ] :
    p.decode values table = .error (.missingShapeRecord level) ↔
      ∃ own c, p.Reaches values table level own c ∧ table.get? level = none := by
  rw [decode_eq_misfit id]
  constructor
  · rintro ⟨_, own, c, hreaches, hmisfits⟩
    cases hmisfits with
    | missing hnone => exact ⟨own, c, hreaches, hnone⟩
  · rintro ⟨own, c, hreaches, hnone⟩
    exact ⟨level, own, c, hreaches, .missing hnone⟩

/-- The pass overflows exactly if it gets down to a level with a contribution that cannot be
compared with the record. -/
theorem decode_eq_overflow [LevelFreeFlow τ] :
    p.decode values table = .error .overflow ↔ ∃ level own c entry,
      p.Reaches values table level own c ∧ table.get? level = some entry ∧
        (Flow.shape c).Outgrows entry := by
  rw [decode_eq_misfit id]
  constructor
  · rintro ⟨level, own, c, hreaches, hmisfits⟩
    cases hmisfits with
    | overflow hentry large => exact ⟨level, own, c, _, hreaches, hentry, large⟩
  · rintro ⟨level, own, c, entry, hreaches, hentry, large⟩
    exact ⟨level, own, c, hreaches, .overflow hentry large⟩

/-! ## Batches -/

/-- A contribution that was fitted to a shape covers it, and the shape's rows and columns are left
of it. -/
theorem isLeading_of_reconcile {level : Nat} {c r : Tensor Float32} {entry : Shape}
    (h : Level.reconcile level c entry = .ok r) :
    c.shape.Covers entry ∧ r.IsLeading c entry.height entry.width := by
  by_cases hlarge : c.shape.Outgrows entry
  · rw [Level.reconcile_of_outgrows level hlarge] at h
    cases h
  · by_cases hcovers : c.shape.Covers entry
    · refine ⟨hcovers, ?_⟩
      rw [Level.reconcile_of_covers level hlarge hcovers] at h
      split at h
      · next hsame =>
        cases h
        have hheight : c.shape.height = entry.height := hsame.1
        have hwidth : c.shape.width = entry.width := hsame.2
        rw [← hheight, ← hwidth]
        exact .refl c
      · exact Tensor.isLeading_of_crop h
    · rw [Level.reconcile_of_not_covers level hlarge hcovers] at h
      cases h

theorem shape_of_combine {own : Option (Tensor Float32)} {c out : Tensor Float32}
    (h : Level.combine own c = .ok out) : out.shape = c.shape := by
  have hshapes : Level.combine (own.map Tensor.shape) c.shape = .ok out.shape := by
    rw [← Level.combine_shape, h]
    rfl
  cases own with
  | none =>
    cases h
    rfl
  | some v => exact (Shape.add_eq_ok.mp hshapes).2.symm

/-- Where a decoder succeeds, every level with a vertical block has a recorded shape and is left
with its height and width: the contribution covers them, loses what is to spare at the trailing
edges and nothing else, and is added to the level's own value. A decoder ends with the fault of a
shape that cannot be reconciled, or of one that is missing, exactly if a contribution does not cover
the recorded shape, or there is none, at a level above which everything went well; the fault names
this level and both shapes. It overflows exactly if it gets to a recorded extent that is too large
for one more of it to be counted, and not that of the contribution. -/
theorem decode_reconciles (p : Decoder) (values : List (Option (Tensor Float32)))
    (table : ShapeTable) :
    (∀ results, p.decode values table = .ok results →
      ∀ i l, p.levels[i]? = some l → l.vertical.isSome = true →
        ∃ entry own c r out, table.get? i = some entry ∧
          l.Receives values[i]?.join results[i + 1]?.join own c ∧
          (c.shape.height = entry.height ∨ c.shape.height = entry.height + 1) ∧
          (c.shape.width = entry.width ∨ c.shape.width = entry.width + 1) ∧
          r.IsLeading c entry.height entry.width ∧ Level.combine own r = .ok out ∧
          results[i]? = some (some out) ∧
          out.shape.height = entry.height ∧ out.shape.width = entry.width) ∧
    (∀ i entry found, p.decode values table = .error (.shapeReconciliation i entry found) ↔
      ∃ own c, p.Reaches values table i own c ∧ table.get? i = some entry ∧ c.shape = found ∧
        ¬ found.Outgrows entry ∧
        (found.height < entry.height ∨ entry.height + 2 ≤ found.height ∨
          found.width < entry.width ∨ entry.width + 2 ≤ found.width)) ∧
    (∀ i, p.decode values table = .error (.missingShapeRecord i) ↔
      ∃ own c, p.Reaches values table i own c ∧ table.get? i = none) ∧
    (p.decode values table = .error .overflow ↔
      ∃ i own c entry, p.Reaches values table i own c ∧ table.get? i = some entry ∧
        c.shape.Outgrows entry) := by
  refine ⟨?_, fun i entry found => ?_, fun i => decode_eq_missing, decode_eq_overflow⟩
  · intro results h i l hl hvertical
    obtain ⟨hlength, hrun⟩ := decode_eq_ok.mp h
    obtain ⟨value, hvalue, hdecode⟩ := decodeLevels_getElem? hrun (zip_getElem? hlength hl)
    rw [Nat.zero_add] at hdecode
    obtain ⟨own, c, hreceives, hfitted⟩ := Level.exists_receives hvertical hdecode
    obtain ⟨entry, r, out, hentry, hr, hout, rfl⟩ := Level.fitted_eq_ok.mp hfitted
    obtain ⟨⟨hheight, hwidth⟩, hleading⟩ := isLeading_of_reconcile hr
    refine ⟨entry, own, c, r, out, hentry, hreceives, hheight, hwidth, hleading, hout, hvalue, ?_⟩
    rw [shape_of_combine hout, hleading.shape]
    exact ⟨rfl, rfl⟩
  · simp only [← Shape.not_covers_iff]
    exact decode_eq_drift

/-- Two rows and three columns are doubled. Of four rows and six columns one each are dropped where
three and five are recorded; they do not go with two rows, and nothing goes where nothing is
recorded. -/
theorem decode_reconciles_odd : ∃ (decoder : Decoder) (results : List (Option (Tensor Float32)))
    (out : Tensor Float32) (inputs : List (Option (Tensor Float32))),
    build .coarseToFine "decoder" [1, 2] [1, 2] "conv(1)-conv(1)" "up(nearest)-conv(1)-conv(1)"
      = .ok decoder ∧ shapesOf inputs = [none, some ⟨1, 2, 2, 3⟩] ∧
    decoder.decode inputs (Keyed.empty.insert 0 ⟨1, 1, 3, 5⟩) = .ok results ∧
    results[0]? = some (some out) ∧ out.shape.height = 3 ∧ out.shape.width = 5 ∧
    (∃ own c, decoder.Reaches inputs (Keyed.empty.insert 0 ⟨1, 1, 2, 5⟩) 0 own c ∧
      c.shape = ⟨1, 1, 4, 6⟩) ∧
    ∃ own c, decoder.Reaches inputs Keyed.empty 0 own c := by
  obtain ⟨decoder, hbuild, hrun⟩ := exists_eq_ok_of_map (show
      (build .coarseToFine "decoder" [1, 2] [1, 2] "conv(1)-conv(1)"
        "up(nearest)-conv(1)-conv(1)").toOption.map
      (fun (p : Decoder) =>
        let inputs := [none, some (Tensor.replicate ⟨1, 2, 2, 3⟩ (Scalar.one : Float32))]
        (p.levels[0]?.map (·.vertical.isSome),
          (p.decode inputs (Keyed.empty.insert 0 ⟨1, 1, 3, 5⟩)).isOk,
          fault? (p.decode inputs (Keyed.empty.insert 0 ⟨1, 1, 2, 5⟩)),
          fault? (p.decode inputs Keyed.empty)))
      = some (some true, true, some (.shapeReconciliation 0 ⟨1, 1, 2, 5⟩ ⟨1, 1, 4, 6⟩),
        some (.missingShapeRecord 0)) by decide +kernel)
  simp only [Prod.mk.injEq, Option.map_eq_some_iff] at hrun
  obtain ⟨⟨l, hl, hvertical⟩, hok, hdrift, hmissing⟩ := hrun
  obtain ⟨results, hresults⟩ := exists_eq_ok_of_isOk hok
  obtain ⟨entry, _, _, _, out, hentry, -, -, -, -, -, hout, hheight, hwidth⟩ :=
    (decode_reconciles decoder _ _).1 results hresults 0 l hl hvertical
  cases hentry
  obtain ⟨own, c, hreaches, -, hshape, -⟩ :=
    ((decode_reconciles decoder _ _).2.1 0 _ _).mp (eq_error_of_fault? hdrift)
  obtain ⟨own', c', hreaches', -⟩ :=
    ((decode_reconciles decoder _ _).2.2.1 0).mp (eq_error_of_fault? hmissing)
  exact ⟨decoder, results, out, _, hbuild, rfl, hresults, hout, hheight, hwidth,
    ⟨own, c, hreaches, hshape⟩, own', c', hreaches'⟩

/-- Four rows fall short of the largest count of rows, but the pass does not end for that: it counts
one row more than are recorded. -/
theorem decode_beyond_counts : ∃ (decoder : Decoder) (own : Option (Tensor Float32))
    (c : Tensor Float32) (inputs : List (Option (Tensor Float32))),
    build .coarseToFine "decoder" [1, 2] [1, 2] "conv(1)-conv(1)" "up(nearest)-conv(1)-conv(1)"
      = .ok decoder ∧ shapesOf inputs = [none, some ⟨1, 2, 2, 3⟩] ∧
    decoder.Reaches inputs (Keyed.empty.insert 0 ⟨1, 1, maxCount, 6⟩) 0 own c ∧
    c.shape.height < maxCount ∧
    decoder.decode inputs (Keyed.empty.insert 0 ⟨1, 1, maxCount, 6⟩) = .error .overflow ∧
    decoder.decode inputs (Keyed.empty.insert 0 ⟨1, 1, maxCount, 6⟩)
      ≠ .error (.shapeReconciliation 0 ⟨1, 1, maxCount, 6⟩ c.shape) := by
  obtain ⟨decoder, hbuild, hrun⟩ := exists_eq_ok_of_map (show
      (build .coarseToFine "decoder" [1, 2] [1, 2] "conv(1)-conv(1)"
        "up(nearest)-conv(1)-conv(1)").toOption.map
      (fun (p : Decoder) =>
        fault? (p.decode [none, some (Tensor.replicate ⟨1, 2, 2, 3⟩ (Scalar.one : Float32))]
          (Keyed.empty.insert 0 ⟨1, 1, 9, 6⟩)))
      = some (some (.shapeReconciliation 0 ⟨1, 1, 9, 6⟩ ⟨1, 1, 4, 6⟩)) by decide +kernel)
  -- The contribution is the same one whatever is recorded at its level.
  obtain ⟨own, c, hreaches, -, hshape, -⟩ := decode_eq_drift.mp (eq_error_of_fault? hrun)
  have hreaches' : decoder.Reaches _ (Keyed.empty.insert 0 ⟨1, 1, maxCount, 6⟩) 0 own c :=
    hreaches.of_records fun other hother => by
      rw [ShapeTable.get?_insert_of_ne _ (Nat.ne_of_gt hother),
        ShapeTable.get?_insert_of_ne _ (Nat.ne_of_gt hother)]
  have hheight : c.shape.height < maxCount := by
    rw [show c.shape.height = 4 from congrArg Shape.height hshape]
    decide
  have hoverflow := decode_eq_overflow.mpr ⟨0, own, c, _, hreaches',
    ShapeTable.get?_insert_self _ _ _, .inl ⟨Nat.ne_of_lt hheight, Nat.le_refl _⟩⟩
  refine ⟨decoder, own, c, _, hbuild, rfl, hreaches', hheight, hoverflow, ?_⟩
  rw [hoverflow]
  nofun

end Pyramid

end Midframe
