import Midframe.Proofs.Keyed
import Midframe.Proofs.Pyramid.Edges
import Midframe.Proofs.Pyramid.Lawful
import Midframe.Proofs.Pyramid.Reconciliation

/-!
# Halving pyramids

Where the vertical blocks of an encoder halve every extent, rounding up, level `i` is left with
extents divided by `2 ^ i`, rounded up. Where the vertical blocks of a decoder double them again, a
contribution is as large as the level it goes to, or larger by one row or column where that level
has an odd extent. Everything fits together, whatever the parities on the way are.
-/

namespace Midframe

/-! ## Extents of levels -/

/-- The extent of level `i` over a finest extent `n`: it is divided by `2 ^ i`, rounded up. -/
def levelExtent (n i : Nat) : Nat := (n + 2 ^ i - 1) / 2 ^ i

theorem levelExtent_zero (n : Nat) : levelExtent n 0 = n := by simp [levelExtent]

/-- Dividing by `2 ^ i` and then by 2 rounds no more than dividing at once. -/
theorem levelExtent_succ (n i : Nat) : levelExtent n (i + 1) = (levelExtent n i + 1) / 2 := by
  have hpos : 0 < 2 ^ i := by positivity
  unfold levelExtent
  rw [← Nat.add_div_right _ hpos, Nat.div_div_eq_div_mul, ← Nat.pow_succ]
  congr 1
  rw [Nat.pow_succ]
  omega

theorem levelExtent_pos {n : Nat} (h : 0 < n) (i : Nat) : 0 < levelExtent n i := by
  induction i with
  | zero => rwa [levelExtent_zero]
  | succ i ih =>
    rw [levelExtent_succ]
    omega

theorem levelExtent_le (n i : Nat) : levelExtent n i ≤ n := by
  induction i with
  | zero => rw [levelExtent_zero]
  | succ i ih =>
    rw [levelExtent_succ]
    rcases Nat.eq_zero_or_pos (levelExtent n i) with h | h <;> omega

/-- A level doubled is as large as the level below it, or larger by one. -/
theorem levelExtent_doubled (n i : Nat) : levelExtent n (i + 1) * 2 = levelExtent n i ∨
    levelExtent n (i + 1) * 2 = levelExtent n i + 1 := by
  rw [levelExtent_succ]
  omega

/-- The shape of level `i` of a pyramid over `height` rows and `width` columns. -/
def levelShape (n channels height width i : Nat) : Shape :=
  ⟨n, channels, levelExtent height i, levelExtent width i⟩

/-- The shapes of the levels from position `level` on, which have the given channels. -/
def descent (n height width : Nat) (level : Nat) (channels : List Nat) : List Shape :=
  channels.mapIdx fun i c => levelShape n c height width (level + i)

theorem descent_cons (n height width level c : Nat) (rest : List Nat) :
    descent n height width level (c :: rest)
      = levelShape n c height width level :: descent n height width (level + 1) rest := by
  simp [descent, List.mapIdx_cons, Nat.add_assoc, Nat.add_comm 1]

/-- Shapes under their levels, from position `level` on. -/
def underLevels (level : Nat) (shapes : List Shape) : List (Nat × Shape) :=
  shapes.mapIdx fun i s => (level + i, s)

theorem underLevels_cons (level : Nat) (s : Shape) (rest : List Shape) :
    underLevels level (s :: rest) = (level, s) :: underLevels (level + 1) rest := by
  simp [underLevels, List.mapIdx_cons, Nat.add_assoc, Nat.add_comm 1]

theorem underLevels_map_snd (level : Nat) (shapes : List Shape) :
    (underLevels level shapes).map Prod.snd = shapes := by
  induction shapes generalizing level with
  | nil => rfl
  | cons s rest ih => rw [underLevels_cons, List.map_cons, ih]

/-- Extents of a finest level: there are rows and columns, and counts up to theirs are exact as
double precision numbers. -/
structure IsFinest (height width : Nat) : Prop where
  /-- There are rows. -/
  height_pos : 0 < height
  /-- There are columns. -/
  width_pos : 0 < width
  /-- The number of rows is exact. -/
  height_le : height ≤ 2 ^ 53
  /-- The number of columns is exact. -/
  width_le : width ≤ 2 ^ 53

/-- Every level could be the finest one of another pyramid. -/
theorem IsFinest.level {height width : Nat} (finest : IsFinest height width) (i : Nat) :
    IsFinest (levelExtent height i) (levelExtent width i) where
  height_pos := levelExtent_pos finest.height_pos i
  width_pos := levelExtent_pos finest.width_pos i
  height_le := (levelExtent_le height i).trans finest.height_le
  width_le := (levelExtent_le width i).trans finest.width_le

/-- One more than the extent of a level is counted. -/
theorem levelExtent_lt {n : Nat} (bound : n ≤ 2 ^ 53) (i : Nat) : levelExtent n i < maxCount :=
  ((levelExtent_le n i).trans bound).trans_lt (by decide)

/-- The extents that doubles of levels stay within. -/
theorem levelExtent_bounds {n : Nat} (pos : 0 < n) (bound : n ≤ 2 ^ 53) (i : Nat) :
    max (levelExtent n i) ((levelExtent n i + 1) / 2) ≤ 2 ^ 53 ∧
      max (levelExtent n (i + 1)) (levelExtent n (i + 1) * 2) ≤ 2 ^ 53 := by
  have hle := levelExtent_le n i
  rw [levelExtent_succ]
  omega

/-- A list paired with as many copies of a value. -/
theorem zip_replicate_left {α β : Type} (a : α) (l : List β) :
    (List.replicate l.length a).zip l = l.map fun b => (a, b) := by
  have h : (l.map fun _ => a).zip (l.map id) = l.map fun b => (a, b) := List.zip_map'
  rwa [List.map_id, List.map_const'] at h

theorem zip_replicate_right {α β : Type} (a : α) (l : List β) :
    l.zip (List.replicate l.length a) = l.map fun b => (b, a) := by
  have h : (l.map id).zip (l.map fun _ => a) = l.map fun b => (b, a) := List.zip_map'
  rwa [List.map_id, List.map_const'] at h

theorem zip_self {α : Type} (l : List α) : l.zip l = l.map fun a => (a, a) := by
  have h : (l.map id).zip (l.map id) = l.map fun a => (a, a) := List.zip_map'
  rwa [List.map_id] at h

/-- The channels of the level below. -/
theorem neighbour_below {outputs rest : List Nat} {level below : Nat}
    (h : outputs.drop level = below :: rest) :
    ((Direction.fineToCoarse.neighbour? (level + 1) outputs.length).bind
      (outputs[·]?)).getD 0 = below := by
  simp [Direction.neighbour?, (of_drop_eq_cons h).1]

/-- The channels of the level above, 0 above the last one. -/
theorem neighbour_above {outputs rest : List Nat} {level c : Nat}
    (h : outputs.drop level = c :: rest) :
    ((Direction.coarseToFine.neighbour? level outputs.length).bind
      (outputs[·]?)).getD 0 = rest.headD 0 := by
  obtain ⟨-, hnext⟩ := of_drop_eq_cons h
  cases rest with
  | nil =>
    have hlength := List.drop_eq_nil_iff.mp hnext
    simp [Direction.neighbour?, Nat.not_lt.mpr hlength]
  | cons above rest =>
    obtain ⟨hlt, hget⟩ := List.getElem?_eq_some_iff.mp (of_drop_eq_cons hnext).1
    simp [Direction.neighbour?, hlt, hget]

namespace Pyramid

variable {τ : Type} [Flow τ] [LawfulFlow τ] {scope : String} {horizontal vertical : SourcedSpec}
  {outputs : List Nat} {n height width : Nat}

/-- A level without input channels has no horizontal block. -/
theorem horizontal_eq_none {level c neighbour : Nat} {l : Level}
    (h : Level.build scope horizontal vertical level 0 c neighbour = .ok l) :
    l.horizontal = none := by
  rcases edge_eq_ok (level_edges h).1 with ⟨-, hnone⟩ | ⟨hne, -⟩
  · exact hnone
  · exact absurd rfl hne

/-- A level without a neighbour, or without channels, has no vertical block. -/
theorem vertical_eq_none {level inputs c neighbour : Nat} (hnone : neighbour = 0 ∨ c = 0)
    {l : Level} (h : Level.build scope horizontal vertical level inputs c neighbour = .ok l) :
    l.vertical = none := by
  rcases edge_eq_ok (level_edges h).2 with ⟨-, hv⟩ | ⟨hneighbour, hc, -⟩
  · exact hv
  · exact absurd hnone (by simp [hneighbour, hc])

/-- The horizontal block of a level with channels on both sides. -/
theorem horizontal_eq_some {level inputs c neighbour : Nat} (hinputs : inputs ≠ 0) (hc : c ≠ 0)
    {l : Level} (h : Level.build scope horizontal vertical level inputs c neighbour = .ok l) :
    ∃ b, l.horizontal = some b ∧ Block.build (Level.horizontalScope scope level) horizontal.source
      horizontal.spec [inputs, c, c] = .ok b := by
  rcases edge_eq_ok (level_edges h).1 with ⟨hnone, -⟩ | ⟨-, -, b, hb, hsome⟩
  · exact absurd hnone (by simp [hinputs, hc])
  · exact ⟨b, hsome, hb⟩

/-- The vertical block of a level with channels, next to one with channels. -/
theorem vertical_eq_some {level inputs c neighbour : Nat} (hneighbour : neighbour ≠ 0)
    (hc : c ≠ 0) {l : Level}
    (h : Level.build scope horizontal vertical level inputs c neighbour = .ok l) :
    ∃ b, l.vertical = some b ∧ Block.build (Level.verticalScope scope level) vertical.source
      vertical.spec [neighbour, c, c] = .ok b := by
  rcases edge_eq_ok (level_edges h).2 with ⟨hnone, -⟩ | ⟨-, -, b, hb, hsome⟩
  · exact absurd hnone (by simp [hneighbour, hc])
  · exact ⟨b, hsome, hb⟩

omit [LawfulFlow τ] in
theorem contribution_eq_none {l : Level} (h : l.vertical = none) (scope : String)
    (level neighbour : Nat) (source : Option τ) :
    l.contribution scope level neighbour source = .ok none := by
  unfold Level.contribution
  rw [h]

omit [LawfulFlow τ] in
theorem contribution_eq_some {l : Level} {b : Block} (h : l.vertical = some b) {v u : τ}
    (hu : Flow.apply b v = .ok u) (scope : String) (level neighbour : Nat) :
    l.contribution scope level neighbour (some v) = .ok (some u) := by
  unfold Level.contribution
  rw [h]
  exact map_eq_ok.mpr ⟨u, hu, rfl⟩

omit [LawfulFlow τ] in
/-- A level without blocks hands on what it is given. -/
theorem encode_bare {l : Level} (horizontal : l.horizontal = none) (vertical : l.vertical = none)
    (scope : String) (level : Nat) (value below : Option τ) :
    l.encode scope level value below = .ok value := by
  rw [Level.encode_eq_joined, Level.joined_eq_ok]
  refine ⟨value, none, ?_, contribution_eq_none vertical _ _ _ _, rfl⟩
  unfold Level.ownValue
  rw [horizontal]

omit [LawfulFlow τ] in
theorem decode_bare {l : Level} (horizontal : l.horizontal = none) (vertical : l.vertical = none)
    (scope : String) (table : ShapeTable) (level : Nat) (value above : Option τ) :
    l.decode scope table level value above = .ok value := by
  rw [Level.decode_eq_joined, Level.joined_eq_ok]
  refine ⟨value, none, ?_, contribution_eq_none vertical _ _ _ _, rfl⟩
  unfold Level.ownValue
  rw [horizontal]

/-! ## Encoders -/

/-- A level without a value of its own, above a level with one. -/
theorem encode_halves (halves : vertical.Scales fun e => (e + 1) / 2)
    (finest : IsFinest height width) {level c below : Nat} (hc : c ≠ 0) (hbelow : below ≠ 0)
    {l : Level} (h : Level.build scope horizontal vertical (level + 1) 0 c below = .ok l)
    (scope' : String) {v : τ} (hv : Flow.shape v = levelShape n below height width level) :
    ∃ u : τ, l.encode scope' (level + 1) none (some v) = .ok (some u) ∧
      Flow.shape u = levelShape n c height width (level + 1) := by
  obtain ⟨b, hvertical, hb⟩ := vertical_eq_some hbelow hc h
  have hgives := halves hb n (finest.level level).height_pos (finest.level level).width_pos
    (levelExtent_bounds finest.height_pos finest.height_le level).1
    (levelExtent_bounds finest.width_pos finest.width_le level).1
  obtain ⟨u, hu, hus⟩ := LawfulFlow.apply_shape hgives v hv
  refine ⟨u, ?_, ?_⟩
  · rw [Level.encode_eq_joined, Level.joined_eq_ok]
    refine ⟨none, some u, ?_, contribution_eq_some hvertical hu _ _ _, rfl⟩
    unfold Level.ownValue
    rw [horizontal_eq_none h]
  · rw [hus, levelShape, levelExtent_succ, levelExtent_succ]

/-- An encoder from position `level + 1` on. -/
theorem encodeLevels_halves (halves : vertical.Scales fun e => (e + 1) / 2)
    (nonzero : ∀ c ∈ outputs, c ≠ 0) (finest : IsFinest height width) (scope' : String)
    {rest : List Nat} {level below : Nat} (hrest : outputs.drop level = below :: rest)
    {levels : List Level}
    (h : buildLevels .fineToCoarse scope horizontal vertical outputs (level + 1)
      (rest.map fun c => (0, c)) = .ok levels)
    {v : τ} (hv : Flow.shape v = levelShape n below height width level) {table : ShapeTable}
    (htable : ∀ e ∈ table.entries, e.1 ≤ level) :
    ∃ vs : List τ, ∃ left : ShapeTable,
      encodeLevels scope' (level + 1) (some v) table (levels.map (·, none))
        = (.ok (vs.map some), left) ∧
      vs.map Flow.shape = descent n height width (level + 1) rest ∧
      left.entries
        = table.entries ++ underLevels (level + 1) (descent n height width (level + 1) rest) := by
  induction rest generalizing level below levels v table with
  | nil =>
    cases h
    exact ⟨[], table, rfl, rfl, by simp [descent, underLevels]⟩
  | cons c rest ih =>
    simp only [List.map_cons, buildLevels, bind_eq_ok, pure_eq_ok] at h
    obtain ⟨l, hl, tail, htail, rfl⟩ := h
    rw [neighbour_below hrest] at hl
    have hnext := (of_drop_eq_cons hrest).2
    have hbelow : below ≠ 0 := nonzero below (List.mem_of_mem_drop (hrest ▸ List.mem_cons_self))
    have hc : c ≠ 0 := nonzero c (List.mem_of_mem_drop (hnext ▸ List.mem_cons_self))
    obtain ⟨u, hu, hus⟩ := encode_halves halves finest hc hbelow hl scope' hv
    have hinsert : (table.insert (level + 1) (Flow.shape u)).entries
        = table.entries ++ [(level + 1, Flow.shape u)] :=
      Keyed.insert_entries_of_gt _ fun e he => Nat.compare_eq_gt.mpr (by have := htable e he; omega)
    have hbound : ∀ e ∈ (table.insert (level + 1) (Flow.shape u)).entries, e.1 ≤ level + 1 := by
      rw [hinsert]
      intro e he
      rcases List.mem_append.mp he with he | he
      · have := htable e he
        omega
      · obtain rfl := List.mem_singleton.mp he
        exact Nat.le_refl _
    obtain ⟨vs, left, hrun, hvs, hleft⟩ := ih hnext htail hus hbound
    refine ⟨u :: vs, left, ?_, ?_, ?_⟩
    · exact encodeLevels_cons.mpr ⟨some u, vs.map some, hu, hrun, rfl⟩
    · rw [List.map_cons, hus, hvs, descent_cons]
    · rw [hleft, hinsert, descent_cons, underLevels_cons, hus, List.append_assoc]
      rfl

/-- The own value of a level whose horizontal block keeps extents. -/
theorem ownValue_keeps (keeps : horizontal.Scales id) {l : Level} {level inputs c neighbour : Nat}
    (hinputs : inputs ≠ 0) (hc : c ≠ 0)
    (h : Level.build scope horizontal vertical level inputs c neighbour = .ok l)
    (finest : IsFinest height width) {v : τ} (hv : Flow.shape v = ⟨n, inputs, height, width⟩) :
    ∃ u : τ, l.ownValue (some v) = .ok (some u) ∧ Flow.shape u = ⟨n, c, height, width⟩ := by
  obtain ⟨b, hhorizontal, hb⟩ := horizontal_eq_some hinputs hc h
  have hgives := keeps hb n finest.height_pos finest.width_pos (by simpa using finest.height_le)
    (by simpa using finest.width_le)
  obtain ⟨u, hu, hus⟩ := LawfulFlow.apply_shape hgives v hv
  refine ⟨u, ?_, hus⟩
  unfold Level.ownValue
  rw [hhorizontal]
  exact map_eq_ok.mpr ⟨u, hu, rfl⟩

/-- What an encoder makes of a value at level 0 only, once that level is left with the channels and
extents it should have. -/
theorem encode_descends (halves : vertical.Scales fun e => (e + 1) / 2)
    (nonzero : ∀ c ∈ outputs, c ≠ 0) (finest : IsFinest height width) {p : Encoder}
    {input first : Nat} {rest : List Nat} (houtputs : outputs = first :: rest)
    (h : buildLevels .fineToCoarse scope horizontal vertical outputs 0
      ((input :: List.replicate rest.length 0).zip outputs) = .ok p.levels) {x : τ}
    (hfirst : ∀ l, Level.build scope horizontal vertical 0 input first 0 = .ok l →
      ∃ u : τ, l.encode p.scope 0 (some x) none = .ok (some u) ∧
        Flow.shape u = ⟨n, first, height, width⟩) :
    ∃ vs : List τ, ∃ table : ShapeTable,
      p.encode (some x :: List.replicate rest.length none) Keyed.empty
        = (.ok (vs.map some), table) ∧
      vs.map Flow.shape = descent n height width 0 outputs ∧
      table.entries = underLevels 0 (descent n height width 0 outputs) := by
  subst houtputs
  rw [List.zip_cons_cons, zip_replicate_left] at h
  have hlength : p.levels.length = rest.length + 1 := by
    rw [buildLevels_length h, List.length_cons, List.length_map]
  simp only [buildLevels, bind_eq_ok, pure_eq_ok] at h
  obtain ⟨l, hl, tail, htail, hlevels⟩ := h
  obtain ⟨u, hu, hus⟩ := hfirst l hl
  have hlevel : Flow.shape u = levelShape n first height width 0 := by
    rw [hus, levelShape, levelExtent_zero, levelExtent_zero]
  have hdrop : (first :: rest).drop 0 = first :: rest := rfl
  have htable : (Keyed.insert (Keyed.empty : ShapeTable) 0 (Flow.shape u)).entries
      = [(0, Flow.shape u)] := rfl
  have hbound : ∀ e ∈ (Keyed.insert (Keyed.empty : ShapeTable) 0 (Flow.shape u)).entries,
      e.1 ≤ 0 := by simp [htable]
  obtain ⟨vs, left, hrun, hvs, hleft⟩ :=
    encodeLevels_halves halves nonzero finest p.scope hdrop htail hlevel hbound
  have htails : tail.length = rest.length := by
    rw [← hlevels, List.length_cons] at hlength
    omega
  refine ⟨u :: vs, left, ?_, ?_, ?_⟩
  · unfold encode checkInputs
    rw [if_neg (by simp [hlength]), ← hlevels, ← htails, List.zip_cons_cons, zip_replicate_right]
    exact encodeLevels_cons.mpr ⟨some u, vs.map some, hu, hrun, rfl⟩
  · rw [List.map_cons, hlevel, hvs, descent_cons]
  · rw [hleft, htable, descent_cons, underLevels_cons, hlevel]
    rfl

/-! ## Decoders -/

/-- A contribution that is as large as it should be, or larger by one, is brought to size. -/
theorem reconcile_fits {c : τ} {expected : Shape} (level : Nat)
    (hcounted : ¬ (Flow.shape c).Outgrows expected)
    (hheight : (Flow.shape c).height = expected.height ∨
      (Flow.shape c).height = expected.height + 1)
    (hwidth : (Flow.shape c).width = expected.width ∨
      (Flow.shape c).width = expected.width + 1) :
    ∃ r : τ, Level.reconcile level c expected = .ok r ∧
      Flow.shape r = (Flow.shape c).resized expected.height expected.width := by
  rw [Level.reconcile_of_covers level hcounted ⟨hheight, hwidth⟩]
  split
  · next h =>
    refine ⟨c, rfl, ?_⟩
    rw [← h.1, ← h.2]
    rfl
  · exact LawfulFlow.crop_shape c (by omega) (by omega)

/-- A value joined with a contribution of the same shape, or replaced by it. -/
theorem combine_fits {value : Option τ} {c : τ} (h : ∀ v ∈ value, Flow.shape v = Flow.shape c) :
    ∃ r : τ, Level.combine value c = .ok r ∧ Flow.shape r = Flow.shape c := by
  cases value with
  | none => exact ⟨c, rfl, rfl⟩
  | some v =>
    obtain ⟨r, hr, hrs⟩ := LawfulFlow.add_shape v c (h v rfl).symm
    exact ⟨r, hr, hrs.trans (h v rfl)⟩

/-- The inputs of a decoder from position `level` on: where a level has one, it has the shape of the
level, and the last level has one. -/
inductive Feeds (n height width : Nat) : Nat → List Nat → List (Option τ) → Prop
  /-- The coarsest level. -/
  | last {level c : Nat} {v : τ} (shape : Flow.shape v = levelShape n c height width level) :
      Feeds n height width level [c] [some v]
  /-- A level in front of others. -/
  | next {level c : Nat} {v : Option τ} {channels : List Nat} {values : List (Option τ)}
      (shape : ∀ x ∈ v, Flow.shape x = levelShape n c height width level)
      (rest : Feeds n height width (level + 1) channels values) :
      Feeds n height width level (c :: channels) (v :: values)

/-- The own value of a level of a decoder. -/
theorem ownValue_keeps_level (keeps : horizontal.Scales id) (finest : IsFinest height width)
    {level c neighbour : Nat} (hc : c ≠ 0) {l : Level}
    (h : Level.build scope horizontal vertical level c c neighbour = .ok l) {v : Option τ}
    (hv : ∀ x ∈ v, Flow.shape x = levelShape n c height width level) :
    ∃ u : Option τ, l.ownValue v = .ok u ∧ (u.isSome = v.isSome) ∧
      ∀ x ∈ u, Flow.shape x = levelShape n c height width level := by
  cases v with
  | none =>
    refine ⟨none, ?_, rfl, by simp⟩
    unfold Level.ownValue
    cases l.horizontal <;> rfl
  | some v =>
    obtain ⟨u, hu, hus⟩ := ownValue_keeps keeps hc hc h (finest.level level) (hv v rfl)
    refine ⟨some u, hu, rfl, fun x hx => ?_⟩
    cases hx
    exact hus

/-- The coarsest level of a decoder. -/
theorem decode_last (keeps : horizontal.Scales id) (finest : IsFinest height width)
    {level c : Nat} (hc : c ≠ 0) {l : Level}
    (h : Level.build scope horizontal vertical level c c 0 = .ok l) (scope' : String)
    (table : ShapeTable) {v : τ} (hv : Flow.shape v = levelShape n c height width level)
    (above : Option τ) :
    ∃ u : τ, l.decode scope' table level (some v) above = .ok (some u) ∧
      Flow.shape u = levelShape n c height width level := by
  obtain ⟨o, ho, hsome, hos⟩ := ownValue_keeps_level keeps finest hc h
    (v := some v) (by
      intro x hx
      cases hx
      exact hv)
  obtain ⟨u, rfl⟩ := Option.isSome_iff_exists.mp (hsome.trans rfl)
  refine ⟨u, ?_, hos u rfl⟩
  rw [Level.decode_eq_joined, Level.joined_eq_ok]
  exact ⟨some u, none, ho, contribution_eq_none (vertical_eq_none (.inl rfl) h) _ _ _ _, rfl⟩

/-- A level of a decoder below another one. -/
theorem decode_doubles (keeps : horizontal.Scales id) (doubles : vertical.Scales (· * 2))
    (finest : IsFinest height width) {level c above : Nat} (hc : c ≠ 0) (habove : above ≠ 0)
    {l : Level} (h : Level.build scope horizontal vertical level c c above = .ok l)
    (scope' : String) {table : ShapeTable}
    (htable : table.get? level = some (levelShape n c height width level)) {v : Option τ}
    (hv : ∀ x ∈ v, Flow.shape x = levelShape n c height width level) {a : τ}
    (ha : Flow.shape a = levelShape n above height width (level + 1)) :
    ∃ u : τ, l.decode scope' table level v (some a) = .ok (some u) ∧
      Flow.shape u = levelShape n c height width level := by
  obtain ⟨o, ho, -, hos⟩ := ownValue_keeps_level keeps finest hc h hv
  obtain ⟨b, hvertical, hb⟩ := vertical_eq_some habove hc h
  have hgives := doubles hb n (finest.level (level + 1)).height_pos
    (finest.level (level + 1)).width_pos
    (levelExtent_bounds finest.height_pos finest.height_le level).2
    (levelExtent_bounds finest.width_pos finest.width_le level).2
  obtain ⟨x, hx, hxs⟩ := LawfulFlow.apply_shape hgives a ha
  obtain ⟨r, hr, hrs⟩ : ∃ r, Level.reconcile level x (levelShape n c height width level) = .ok r ∧
      Flow.shape r = (Flow.shape x).resized _ _ :=
    reconcile_fits level (Shape.not_outgrows_of_lt (levelExtent_lt finest.height_le level)
      (levelExtent_lt finest.width_le level) _)
      (by rw [hxs]; exact levelExtent_doubled height level)
      (by rw [hxs]; exact levelExtent_doubled width level)
  rw [hxs] at hrs
  obtain ⟨u, hu, hus⟩ := combine_fits fun y hy => (hos y hy).trans hrs.symm
  refine ⟨u, ?_, hus.trans hrs⟩
  rw [Level.decode_eq_joined, Level.joined_eq_ok]
  refine ⟨o, some x, ho, contribution_eq_some hvertical hx _ _ _, ?_⟩
  simp only [Option.elim_some, Level.fitted, htable, bind_eq_ok, functor_map_eq_ok]
  exact ⟨r, hr, u, hu, rfl⟩

/-- A decoder from position `level` on. -/
theorem decodeLevels_doubles (keeps : horizontal.Scales id) (doubles : vertical.Scales (· * 2))
    (finest : IsFinest height width) (scope' : String) {table : ShapeTable} {level : Nat}
    {rest : List Nat} (nonzero : ∀ c ∈ rest, c ≠ 0) {values : List (Option τ)}
    (feeds : Feeds n height width level rest values) (hrest : outputs.drop level = rest)
    (htable : ∀ e ∈ underLevels level (descent n height width level rest),
      Keyed.get? table e.1 = some e.2) {levels : List Level}
    (h : buildLevels .coarseToFine scope horizontal vertical outputs level
      (rest.map fun c => (c, c)) = .ok levels) :
    ∃ vs : List τ, decodeLevels scope' table level (levels.zip values) = .ok (vs.map some) ∧
      vs.map Flow.shape = descent n height width level rest := by
  induction feeds generalizing levels with
  | @last level c v hv =>
    simp only [List.map_cons, List.map_nil, buildLevels, bind_eq_ok, pure_eq_ok] at h
    obtain ⟨l, hl, _, htail, rfl⟩ := h
    cases htail
    rw [neighbour_above hrest] at hl
    have hc : c ≠ 0 := nonzero c List.mem_cons_self
    obtain ⟨u, hu, hus⟩ := decode_last keeps finest hc hl scope' table hv none
    refine ⟨[u], decodeLevels_cons.mpr ⟨some u, [], rfl, hu, rfl⟩, ?_⟩
    rw [descent_cons, List.map_cons, hus]
    rfl
  | @next level c v channels values hv feeds ih =>
    simp only [List.map_cons, buildLevels, bind_eq_ok, pure_eq_ok] at h
    obtain ⟨l, hl, tail, htail, rfl⟩ := h
    rw [neighbour_above hrest] at hl
    have hnext := (of_drop_eq_cons hrest).2
    rw [descent_cons, underLevels_cons, List.forall_mem_cons] at htable
    rw [List.forall_mem_cons] at nonzero
    obtain ⟨vs, hrun, hvs⟩ := ih nonzero.2 hnext htable.2 htail
    -- The level above has a value, since the last one has.
    obtain ⟨above, channels', rfl⟩ : ∃ above channels', channels = above :: channels' := by
      cases feeds <;> exact ⟨_, _, rfl⟩
    obtain ⟨a, vs', rfl⟩ : ∃ a vs', vs = a :: vs' := by
      cases vs with
      | nil =>
        rw [descent_cons] at hvs
        cases hvs
      | cons a vs' => exact ⟨a, vs', rfl⟩
    rw [descent_cons, List.map_cons, List.cons.injEq] at hvs
    have habove : above ≠ 0 := nonzero.2 above List.mem_cons_self
    obtain ⟨u, hu, hus⟩ := decode_doubles keeps doubles finest nonzero.1
      habove hl scope' htable.1 hv hvs.1
    refine ⟨u :: a :: vs', decodeLevels_cons.mpr ⟨some u, _, hrun, hu, rfl⟩, ?_⟩
    rw [descent_cons, descent_cons, List.map_cons, List.map_cons, hus, hvs.1, hvs.2]

omit [LawfulFlow τ] in
/-- Values for all levels feed a decoder. -/
theorem feeds_all {level : Nat} {channels : List Nat} {values : List τ} (nonempty : channels ≠ [])
    (h : values.map Flow.shape = descent n height width level channels) :
    Feeds n height width level channels (values.map some) := by
  induction channels generalizing level values with
  | nil => exact absurd rfl nonempty
  | cons c rest ih =>
    rw [descent_cons] at h
    obtain ⟨v, vs, rfl, hv, hvs⟩ := List.map_eq_cons_iff.mp h
    cases rest with
    | nil =>
      obtain rfl := List.map_eq_nil_iff.mp hvs
      exact .last hv
    | cons c' rest =>
      refine .next (fun x hx => ?_) (ih (by simp) hvs)
      cases hx
      exact hv

omit [LawfulFlow τ] in
/-- The coarsest of the values of all levels feeds a decoder alone. -/
theorem feeds_coarsest {level : Nat} {channels : List Nat} {values : List τ} {coarsest : τ}
    (h : values.map Flow.shape = descent n height width level channels)
    (hlast : values.getLast? = some coarsest) :
    Feeds n height width level channels
      (List.replicate (values.length - 1) none ++ [some coarsest]) := by
  induction channels generalizing level values with
  | nil =>
    obtain rfl := List.map_eq_nil_iff.mp (h.trans rfl)
    cases hlast
  | cons c rest ih =>
    rw [descent_cons] at h
    obtain ⟨v, vs, rfl, hv, hvs⟩ := List.map_eq_cons_iff.mp h
    cases rest with
    | nil =>
      obtain rfl := List.map_eq_nil_iff.mp hvs
      cases hlast
      exact .last hv
    | cons c' rest =>
      have hvs' := hvs
      rw [descent_cons] at hvs'
      obtain ⟨w, ws, rfl, -, -⟩ := List.map_eq_cons_iff.mp hvs'
      have := ih hvs (by simpa using hlast)
      exact .next (by simp) this

end Pyramid

end Midframe
