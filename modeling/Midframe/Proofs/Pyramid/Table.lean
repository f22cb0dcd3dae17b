import Midframe.Proofs.Pyramid.Records
import Midframe.Proofs.Pyramid.Recursion

/-!
# The table behind a pass of an encoder

An encoder records a level as soon as it is left with a value, while the levels above may still
fail. So the table behind a pass is the one in front of it with the records of some levels replaced:
of all levels with a value where the pass succeeds, and of those below the failing level where it
does not. Whatever else the table held, at levels without a value, at the failing level and above it
or beyond the pyramid, is as it was.
-/

namespace Midframe

/-- One table is another one with some records replaced: a level that is given a shape holds it, all
others hold what they held. -/
def ShapeTable.IsUpdate (table left : ShapeTable) (records : Nat → Option Shape) : Prop :=
  ∀ level, left.get? level = (records level).or (table.get? level)

namespace ShapeTable.IsUpdate

variable {table left : ShapeTable} {records : Nat → Option Shape}

/-- There is one such table only. -/
theorem unique {left' : ShapeTable} (h : table.IsUpdate left records)
    (h' : table.IsUpdate left' records) : left = left' :=
  Keyed.eq_of_get?_eq fun level => (h level).trans (h' level).symm

/-- A level that is not given a shape keeps its record. -/
theorem get?_of_none (h : table.IsUpdate left records) {level : Nat}
    (hnone : records level = none) : left.get? level = table.get? level := by
  rw [h level, hnone, Option.none_or]

theorem congr {records' : Nat → Option Shape} (h : table.IsUpdate left records)
    (heq : ∀ level, records level = records' level) : table.IsUpdate left records' :=
  fun level => (h level).trans (by rw [heq level])

theorem of_none (h : ∀ level, records level = none) : table.IsUpdate table records :=
  fun level => by rw [h level, Option.none_or]

/-- Behind the record of one level. -/
theorem of_recorded {level : Nat} {value : Option Shape}
    (h : (Pyramid.recorded table level value).IsUpdate left records)
    (hnone : records level = none) :
    table.IsUpdate left fun i => if i = level then value else records i := by
  intro i
  rw [h i]
  beta_reduce
  by_cases hi : i = level
  · subst hi
    rw [if_pos rfl, hnone, Option.none_or]
    cases value with
    | none => rfl
    | some s => exact table.get?_insert_self i s
  · rw [if_neg hi]
    cases value with
    | none => rfl
    | some s => rw [Pyramid.recorded, table.get?_insert_of_ne hi]

end ShapeTable.IsUpdate

namespace Pyramid

variable {τ : Type} [Flow τ] {p : Encoder} {inputs : List (Option τ)}

/-- The shape that the recursion gives a level, if it is left with a value. -/
def encodedShape (p : Encoder) (inputs : List (Option τ)) (level : Nat) : Option Shape :=
  (p.encoded inputs level).toOption.join.map Flow.shape

theorem encodedShape_of_ok {level : Nat} {value : Option τ}
    (h : p.encoded inputs level = .ok value) :
    p.encodedShape inputs level = value.map Flow.shape := by
  rw [encodedShape, h]
  rfl

/-- The levels up to position `stop` have values, and that is the end of them: there are no more, or
the next one has none. -/
structure EndsAt (p : Encoder) (inputs : List (Option τ)) (stop : Nat) : Prop where
  /-- The levels below have values. -/
  finished : ∀ j < stop, ∃ value, p.encoded inputs j = .ok value
  /-- The next one has none. -/
  fault : stop = p.levels.length ∨
    stop < p.levels.length ∧ ∃ e, p.encoded inputs stop = .error e

/-- An encoder from position `level` on replaces the records of the levels that it finishes. -/
theorem encodeLevels_isUpdate (linked : p.IsLinked) (hlength : inputs.length = p.levels.length)
    {stop : Nat} (hstop : p.EndsAt inputs stop) {level : Nat} (hle : level ≤ stop)
    {rest : List (Level × Option τ)} (hrest : (p.levels.zip inputs).drop level = rest)
    {below : Option τ} (hbelow : ∀ j, level = j + 1 → p.encoded inputs j = .ok below)
    (table : ShapeTable) :
    table.IsUpdate (encodeLevels p.scope level below table rest).2
      fun i => if level ≤ i ∧ i < stop then p.encodedShape inputs i else none := by
  induction rest generalizing level below table with
  | nil =>
    have hend : p.levels.length ≤ level := by
      have := List.drop_eq_nil_iff.mp hrest
      rwa [List.length_zip, hlength, Nat.min_self] at this
    have hstop : stop ≤ level := by
      rcases hstop.fault with h | ⟨h, -⟩ <;> omega
    exact .of_none fun i => if_neg (by omega)
  | cons first rest ih =>
    obtain ⟨l, input⟩ := first
    obtain ⟨hl, hinput, hrest⟩ := of_drop_zip_eq_cons hrest
    obtain ⟨hlevel, -⟩ := List.getElem?_eq_some_iff.mp hl
    have hstep := encoded_eq_encode linked hl hinput hbelow
    cases hvalue : l.encode p.scope level input below with
    | error e =>
      -- The level fails, so that it is the end of the finished ones.
      have hstop : stop ≤ level := by
        by_contra hlt
        obtain ⟨value, hfinished⟩ := hstop.finished level (by omega)
        rw [hstep, hvalue] at hfinished
        cases hfinished
      rw [encodeLevels, hvalue]
      exact .of_none fun i => if_neg (by omega)
    | ok value =>
      have hlt : level < stop := by
        rcases hstop.fault with h | ⟨-, e, hfault⟩
        · omega
        · refine Nat.lt_of_le_of_ne hle fun h => ?_
          rw [← h, hstep, hvalue] at hfault
          cases hfault
      rw [encodeLevels_of_ok hvalue]
      have hupdate := ih hlt hrest (fun j hj => by cases hj; exact hstep.trans hvalue)
        (recorded table level (value.map Flow.shape))
      refine (hupdate.of_recorded (if_neg (by omega))).congr fun i => ?_
      by_cases hi : i = level
      · subst hi
        rw [if_pos rfl, if_pos ⟨Nat.le_refl i, hlt⟩, encodedShape_of_ok (hstep.trans hvalue)]
      · rw [if_neg hi]
        by_cases hin : level ≤ i ∧ i < stop
        · rw [if_pos hin, if_pos (by omega)]
        · rw [if_neg hin, if_neg (by omega)]

/-- A pass of an encoder replaces the records of the levels that it finishes. -/
theorem encode_isUpdate (linked : p.IsLinked) (hlength : inputs.length = p.levels.length)
    {stop : Nat} (hstop : p.EndsAt inputs stop) (table : ShapeTable) :
    table.IsUpdate (p.encode inputs table).2
      fun i => if i < stop then p.encodedShape inputs i else none := by
  have hbelow (j : Nat) (hj : 0 = j + 1) : p.encoded inputs j = .ok none := by cases hj
  have h := encodeLevels_isUpdate linked hlength hstop (Nat.zero_le stop) (List.drop_zero ..)
    hbelow table
  simp only [Nat.zero_le, true_and] at h
  unfold encode
  rw [checkInputs_eq_ok.mpr hlength]
  exact h

/-- A pass that finishes all levels records the shapes of its results. -/
theorem encode_isUpdate_results (linked : p.IsLinked) (hlength : inputs.length = p.levels.length)
    {results : List (Option τ)} (hvalues : results.length = p.levels.length ∧
      ∀ i value, results[i]? = some value → p.encoded inputs i = .ok value)
    (table : ShapeTable) :
    table.IsUpdate (p.encode inputs table).2 fun i => results[i]?.join.map Flow.shape := by
  have hends : p.EndsAt inputs p.levels.length := by
    refine ⟨fun j hj => ?_, .inl rfl⟩
    exact ⟨_, hvalues.2 j _ (List.getElem?_eq_getElem (hvalues.1 ▸ hj))⟩
  refine (encode_isUpdate linked hlength hends table).congr fun i => ?_
  by_cases hi : i < p.levels.length
  · have hresult := List.getElem?_eq_getElem (hvalues.1 ▸ hi : i < results.length)
    rw [if_pos hi, encodedShape_of_ok (hvalues.2 i _ hresult), hresult]
    rfl
  · rw [if_neg hi, List.getElem?_eq_none (by omega)]
    rfl

/-- The table that a pass of a built encoder leaves. Where there is not one input for each level,
the pass fails and leaves the table as it was. Where there is, the pass succeeds with the values of
the recursion, if all levels have one, and the table holds the shapes of these values at their
levels; or it fails with the fault of the lowest failing level, and the table holds the shapes of
the values below that level. All other records are those from before the pass. -/
theorem encode_updates_table {scope horizontal vertical : String} {channels outputs : List Nat}
    (built : p.IsBuilt scope channels outputs horizontal vertical) (inputs : List (Option τ))
    (table : ShapeTable) :
    (inputs.length ≠ p.levels.length → p.encode inputs table =
      (.error (.invalid (.levelInputs p.scope p.levels.length inputs.length)), table)) ∧
    (inputs.length = p.levels.length →
      (∀ results left, p.encode inputs table = (.ok results, left) ↔
        (results.length = p.levels.length ∧
          ∀ i value, results[i]? = some value → p.encoded inputs i = .ok value) ∧
        table.IsUpdate left fun i => results[i]?.join.map Flow.shape) ∧
      ∀ e left, p.encode inputs table = (.error e, left) ↔
        ∃ k < p.levels.length, p.encoded inputs k = .error e ∧
          (∀ j < k, ∃ value, p.encoded inputs j = .ok value) ∧
          table.IsUpdate left fun i =>
            if i < k then (p.encoded inputs i).toOption.join.map Flow.shape else none) := by
  have hlinked := built.isLinked
  constructor
  · intro hlength
    unfold encode checkInputs
    rw [if_pos (by simpa using hlength)]
  · intro hlength
    have hsolution := (encode_settles hlinked hlength table).isSolution
    constructor
    · intro results left
      constructor
      · intro hpass
        have hvalues := (hsolution.ok_iff results).mp (congrArg Prod.fst hpass)
        have h := encode_isUpdate_results hlinked hlength hvalues table
        rw [hpass] at h
        exact ⟨hvalues, h⟩
      · rintro ⟨hvalues, hleft⟩
        exact Prod.ext ((hsolution.ok_iff results).mpr hvalues)
          ((encode_isUpdate_results hlinked hlength hvalues table).unique hleft)
    · intro e left
      have hupdate {k : Nat} (hk : k < p.levels.length) (hfault : p.encoded inputs k = .error e)
          (hfinished : ∀ j < k, ∃ value, p.encoded inputs j = .ok value) :
          table.IsUpdate (p.encode inputs table).2
            fun i => if i < k then p.encodedShape inputs i else none :=
        encode_isUpdate hlinked hlength ⟨hfinished, .inr ⟨hk, e, hfault⟩⟩ table
      constructor
      · intro hpass
        obtain ⟨k, hk, hfault, hfirst⟩ := (hsolution.error_iff e).mp (congrArg Prod.fst hpass)
        have hfinished (j : Nat) (hj : j < k) := hfirst j (Nat.lt_trans hj hk) hj
        have h := hupdate hk hfault hfinished
        rw [hpass] at h
        exact ⟨k, hk, hfault, hfinished, h⟩
      · rintro ⟨k, hk, hfault, hfinished, hleft⟩
        exact Prod.ext
          ((hsolution.error_iff e).mpr ⟨k, hk, hfault, fun j _ hj => hfinished j hj⟩)
          ((hupdate hk hfault hfinished).unique hleft)

/-- Four levels, of which the second one has no blocks, the third one nothing to start from and the
last one nothing to read. The records of the two lowest levels are replaced; those of the level that
is left without a value and of the failing one stay. -/
theorem encode_updates_table_partially : ∃ (encoder : Encoder) (left : ShapeTable),
    build .fineToCoarse "encoder" [1, 0, 0, 0] [1, 0, 1, 1] "conv(1)-conv(1)" "sconv(1)-conv(1)"
      = .ok encoder ∧
    encoder.encode [some (⟨1, 1, 3, 5⟩ : Shape), some ⟨1, 6, 2, 2⟩, none, none]
      (Keyed.ofList [(0, ⟨9, 9, 9, 9⟩), (2, ⟨8, 8, 8, 8⟩), (3, ⟨7, 7, 7, 7⟩)])
      = (.error (.invalid (.emptyNeighbour "encoder" 3 2)), left) ∧
    left.entries = [(0, ⟨1, 1, 3, 5⟩), (1, ⟨1, 6, 2, 2⟩), (2, ⟨8, 8, 8, 8⟩), (3, ⟨7, 7, 7, 7⟩)] ∧
    ∃ k < 4, encoder.encoded [some (⟨1, 1, 3, 5⟩ : Shape), some ⟨1, 6, 2, 2⟩, none, none] k
        = .error (.invalid (.emptyNeighbour "encoder" 3 2)) ∧
      ∀ i, k ≤ i → left.get? i =
        (Keyed.ofList [(0, ⟨9, 9, 9, 9⟩), (2, ⟨8, 8, 8, 8⟩), (3, ⟨7, 7, 7, 7⟩)]).get? i := by
  obtain ⟨encoder, hbuild, hrun⟩ := exists_eq_ok_of_map (show
      (build .fineToCoarse "encoder" [1, 0, 0, 0] [1, 0, 1, 1] "conv(1)-conv(1)"
        "sconv(1)-conv(1)").toOption.map
      (fun (p : Encoder) =>
        let pass := p.encode [some (⟨1, 1, 3, 5⟩ : Shape), some ⟨1, 6, 2, 2⟩, none, none]
          (Keyed.ofList [(0, ⟨9, 9, 9, 9⟩), (2, ⟨8, 8, 8, 8⟩), (3, ⟨7, 7, 7, 7⟩)])
        (p.levels.length, fault? pass.1, pass.2.entries))
      = some (4, some (.invalid (.emptyNeighbour "encoder" 3 2)),
        [(0, ⟨1, 1, 3, 5⟩), (1, ⟨1, 6, 2, 2⟩), (2, ⟨8, 8, 8, 8⟩), (3, ⟨7, 7, 7, 7⟩)])
      by decide +kernel)
  simp only [Prod.mk.injEq] at hrun
  obtain ⟨hlevels, hfault, hentries⟩ := hrun
  obtain ⟨-, hequations⟩ := encode_updates_table (.of_build hbuild)
    [some (⟨1, 1, 3, 5⟩ : Shape), some ⟨1, 6, 2, 2⟩, none, none]
    (Keyed.ofList [(0, ⟨9, 9, 9, 9⟩), (2, ⟨8, 8, 8, 8⟩), (3, ⟨7, 7, 7, 7⟩)])
  obtain ⟨k, hk, hlevel, -, hupdate⟩ :=
    ((hequations hlevels.symm).2 _ _).mp (Prod.ext (eq_error_of_fault? hfault) rfl)
  refine ⟨encoder, _, hbuild, Prod.ext (eq_error_of_fault? hfault) rfl, hentries, k,
    hlevels ▸ hk, hlevel, fun i hi => hupdate.get?_of_none (if_neg (Nat.not_lt.mpr hi))⟩

end Pyramid

end Midframe
